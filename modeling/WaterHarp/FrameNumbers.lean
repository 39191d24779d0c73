import WaterHarp.FrameStreams

/-! The streams of a sensor as their clients see them: the stable frames are numbers, and
each stream keeps the latest one which it was offered. A stream never returns a frame
twice or out of order, and its client never waits for a frame which is there. -/
namespace WaterHarp.FrameNumbers
open FrameStreams

variable {n : ℕ}

/-- `frames` frames have been made stable. A stream and the driver have numbers for pointers. -/
structure Numbered (n : ℕ) where
  frames : ℕ
  stream : Fin n → VideoStream
  driver : Driver n
  reads : List (Read n)

def boot (n : ℕ) : Numbered n := ⟨0, fun _ => ⟨false, false, none, false, .idle, false⟩, .writing, []⟩

def Numbered.setStream (i : Fin n) (v : VideoStream) (c : Numbered n) : Numbered n :=
  { c with stream := Function.update c.stream i v }

/-- What can happen. -/
inductive Move : Numbered n → Numbered n → Prop
  | stay (c : Numbered n) : Move c c
  | clear (c : Numbered n) (i : Fin n) (v : VideoStream) (hlast : v.lastFrame = none)
      (hcleared : v.cleared = true) : Move c (c.setStream i v)
  | latch {c : Numbered n} (hdriver : c.driver = .writing) :
      Move c { c with frames := c.frames+1, driver := .offering c.frames (List.finRange n) }
  | skip {c : Numbered n} {k : ℕ} {i : Fin n} {rest : List (Fin n)} (hdriver : c.driver = .offering k (i :: rest)) :
      Move c { c with driver := .offering k rest }
  | accept {c : Numbered n} {k : ℕ} {i : Fin n} {rest : List (Fin n)}
      (hdriver : c.driver = .offering k (i :: rest)) : Move c { c with driver := .accepted k i rest }
  | store {c : Numbered n} {k : ℕ} {i : Fin n} {rest : List (Fin n)} (hdriver : c.driver = .accepted k i rest) :
      Move c { c.setStream i { c.stream i with lastFrame := some k } with driver := .stored k i rest }
  | raise {c : Numbered n} {k : ℕ} {i : Fin n} {rest : List (Fin n)} (hdriver : c.driver = .stored k i rest) :
      Move c { c.setStream i { c.stream i with newFrameEvent := true } with driver := .offering k rest }
  | finish {c : Numbered n} {k : ℕ} (hdriver : c.driver = .offering k []) : Move c { c with driver := .writing }
  | peek {c : Numbered n} {i : Fin n} (hreader : (c.stream i).reader = .idle)
      (hlast : (c.stream i).lastFrame.isSome) :
      Move c (c.setStream i { c.stream i with reader := .peeked, cleared := false })
  | wake {c : Numbered n} {i : Fin n} (hreader : (c.stream i).reader = .peeked) :
      Move c (c.setStream i { c.stream i with newFrameEvent := false, reader := .woken })
  | take {c : Numbered n} {i : Fin n} (hreader : (c.stream i).reader = .woken) :
      Move c { c.setStream i { c.stream i with lastFrame := none, reader := .idle } with
        reads := c.reads ++ [⟨i, (c.stream i).lastFrame, (c.stream i).cleared⟩] }

/-- The frames which stream `i` has returned. -/
def returned (i : Fin n) (reads : List (Read n)) : List ℕ :=
  reads.filterMap fun r => if r.stream = i then r.serial else none

lemma returned_append_singleton (i : Fin n) (reads : List (Read n)) (r : Read n) :
    returned i (reads ++ [r]) = returned i reads ++ if r.stream = i then r.serial.toList else [] := by
  rw [returned, List.filterMap_append, ← returned]
  by_cases hr : r.stream = i
  · cases h : r.serial <;> simp [hr, h]
  · simp [hr]

/-- Stream `i` has seen only frames below `k`. -/
structure Below (c : Numbered n) (i : Fin n) (k : ℕ) : Prop where
  returned : ∀ j ∈ returned i c.reads, j < k
  last : ∀ j, (c.stream i).lastFrame = some j → j < k

/-- The order of the frames. -/
structure Ordered (c : Numbered n) : Prop where
  past : ∀ i, Below c i c.frames
  newer : ∀ i k, (c.stream i).lastFrame = some k → ∀ j ∈ returned i c.reads, j < k
  ahead : ∀ k, c.driver.frame = some k → k < c.frames ∧ ∀ i ∈ c.driver.pending, Below c i k
  nodup : c.driver.pending.Nodup
  sorted : ∀ i, (returned i c.reads).Pairwise (· < ·)

/-- Whoever has seen a frame gets one, unless the stream is cleared meanwhile. -/
structure Waits (c : Numbered n) : Prop where
  full : ∀ r ∈ c.reads, r.serial.isSome ∨ r.cleared = true
  seen : ∀ i, (c.stream i).reader ≠ .idle → (c.stream i).lastFrame.isSome ∨ (c.stream i).cleared = true
  raised : ∀ i, (c.stream i).reader ≠ .woken → (c.stream i).lastFrame.isSome →
    (c.stream i).newFrameEvent = true ∨ ∃ k rest, c.driver = .stored k i rest

lemma boot_ordered : Ordered (boot n) where
  past _ := ⟨fun _ hj => absurd hj List.not_mem_nil, fun _ hj => nomatch hj⟩
  newer _ _ hk := nomatch hk
  ahead _ hk := nomatch hk
  nodup := List.nodup_nil
  sorted _ := .nil

lemma boot_waits : Waits (boot n) where
  full _ hr := absurd hr List.not_mem_nil
  seen _ hr := absurd rfl hr
  raised _ _ hlast := nomatch hlast

variable {c d : Numbered n}

lemma setStream_self {i : Fin n} {v : VideoStream} : (c.setStream i v).stream i = v := Function.update_self ..

lemma setStream_of_ne {i j : Fin n} {v : VideoStream} (h : j ≠ i) :
    (c.setStream i v).stream j = c.stream j := Function.update_of_ne h ..

/-- Moves which bring no frame to any stream keep the order. -/
lemma Ordered.fewer (h : Ordered c) (hframes : d.frames = c.frames)
    (hreads : ∀ i, returned i d.reads = returned i c.reads)
    (hlast : ∀ i k, (d.stream i).lastFrame = some k → (c.stream i).lastFrame = some k)
    (hframe : ∀ k, d.driver.frame = some k → c.driver.frame = some k)
    (hpending : d.driver.pending.Sublist c.driver.pending) : Ordered d := by
  have hbelow : ∀ i k, Below c i k → Below d i k := by
    intro i k hb
    exact ⟨by rw [hreads]; exact hb.returned, fun j hj => hb.last j (hlast i j hj)⟩
  constructor
  · intro i
    rw [hframes]
    exact hbelow i _ (h.past i)
  · intro i k hk
    rw [hreads]
    exact h.newer i k (hlast i k hk)
  · intro k hk
    obtain ⟨hlt, hall⟩ := h.ahead k (hframe k hk)
    rw [hframes]
    exact ⟨hlt, fun i hi => hbelow i k (hall i (hpending.subset hi))⟩
  · exact h.nodup.sublist hpending
  · intro i
    rw [hreads]
    exact h.sorted i

lemma lastFrame_setStream {i j : Fin n} {v : VideoStream} {k : ℕ}
    (hv : v.lastFrame = none ∨ v.lastFrame = (c.stream i).lastFrame)
    (hk : ((c.setStream i v).stream j).lastFrame = some k) : (c.stream j).lastFrame = some k := by
  by_cases hji : j = i
  · rw [hji, setStream_self] at hk
    cases hv with
    | inl hnone =>
      rw [hnone] at hk
      cases hk
    | inr hsame => rw [hji, ← hsame, hk]
  · rw [setStream_of_ne hji] at hk
    exact hk

lemma Ordered.latch (h : Ordered c) :
    Ordered { c with frames := c.frames+1, driver := .offering c.frames (List.finRange n) } where
  past i := ⟨fun j hj => Nat.lt_succ_of_lt ((h.past i).returned j hj),
    fun j hj => Nat.lt_succ_of_lt ((h.past i).last j hj)⟩
  newer := h.newer
  ahead k hk := by
    have hframe : c.frames = k := Option.some_inj.mp hk
    exact hframe ▸ ⟨Nat.lt_succ_self _, fun i _ => ⟨(h.past i).returned, (h.past i).last⟩⟩
  nodup := List.nodup_finRange n
  sorted := h.sorted

lemma Ordered.store {k : ℕ} {i : Fin n} {rest : List (Fin n)} (h : Ordered c)
    (hdriver : c.driver = .accepted k i rest) :
    Ordered { c.setStream i { c.stream i with lastFrame := some k } with driver := .stored k i rest } := by
  obtain ⟨hlt, hall⟩ := h.ahead k (by rw [hdriver]; rfl)
  have hnodup := h.nodup
  rw [hdriver] at hall hnodup
  obtain ⟨hi, hrest⟩ := List.nodup_cons.mp hnodup
  have hself : ∀ v, ((c.setStream i v).stream i) = v := fun v => setStream_self
  constructor
  · intro j
    refine ⟨(h.past j).returned, fun l hl => ?_⟩
    by_cases hji : j = i
    · rw [hji] at hl
      have hk : k = l := Option.some_inj.mp ((congrArg VideoStream.lastFrame (hself _)).symm.trans hl)
      exact hk ▸ hlt
    · exact (h.past j).last l ((congrArg VideoStream.lastFrame (setStream_of_ne hji)).symm.trans hl)
  · intro j l hl
    by_cases hji : j = i
    · rw [hji] at hl ⊢
      have hk : k = l := Option.some_inj.mp ((congrArg VideoStream.lastFrame (hself _)).symm.trans hl)
      exact hk ▸ (hall i List.mem_cons_self).returned
    · exact h.newer j l ((congrArg VideoStream.lastFrame (setStream_of_ne hji)).symm.trans hl)
  · intro l hl
    have hk : k = l := Option.some_inj.mp hl
    rw [← hk]
    refine ⟨hlt, fun j hj => ⟨(hall j (List.mem_cons_of_mem i hj)).returned, fun m hm => ?_⟩⟩
    have hji : j ≠ i := fun heq => hi (heq ▸ hj)
    exact (hall j (List.mem_cons_of_mem i hj)).last m
      ((congrArg VideoStream.lastFrame (setStream_of_ne hji)).symm.trans hm)
  · exact hrest
  · exact h.sorted

lemma Ordered.take {i : Fin n} {k : ℕ} (h : Ordered c) (hlast : (c.stream i).lastFrame = some k) :
    Ordered { c.setStream i { c.stream i with lastFrame := none, reader := .idle } with
      reads := c.reads ++ [⟨i, (c.stream i).lastFrame, (c.stream i).cleared⟩] } := by
  set d : Numbered n := { c.setStream i { c.stream i with lastFrame := none, reader := .idle } with
    reads := c.reads ++ [⟨i, (c.stream i).lastFrame, (c.stream i).cleared⟩] } with hd
  have hself : (d.stream i).lastFrame = none := congrArg VideoStream.lastFrame setStream_self
  have hother : ∀ j, j ≠ i → d.stream j = c.stream j := fun j hj => setStream_of_ne hj
  have hreturned : ∀ j, returned j d.reads = returned j c.reads ++ if i = j then [k] else [] := by
    intro j
    rw [hd, returned_append_singleton, hlast]
    rfl
  -- the frame which is returned is the one which the stream has kept
  have hbelow : ∀ j l, Below c j l → Below d j l := by
    intro j l hb
    constructor
    · intro m hm
      rw [hreturned, List.mem_append] at hm
      cases hm with
      | inl hm => exact hb.returned m hm
      | inr hm =>
        by_cases hij : i = j
        · rw [if_pos hij, List.mem_singleton] at hm
          exact hm ▸ hb.last k (hij ▸ hlast)
        · rw [if_neg hij] at hm
          exact absurd hm List.not_mem_nil
    · intro m hm
      by_cases hji : j = i
      · rw [hji, hself] at hm
        cases hm
      · rw [hother j hji] at hm
        exact hb.last m hm
  constructor
  · exact fun j => hbelow j _ (h.past j)
  · intro j l hl
    by_cases hji : j = i
    · rw [hji, hself] at hl
      cases hl
    · rw [hother j hji] at hl
      rw [hreturned, if_neg (Ne.symm hji), List.append_nil]
      exact h.newer j l hl
  · intro l hl
    obtain ⟨hlt, hall⟩ := h.ahead l hl
    exact ⟨hlt, fun j hj => hbelow j l (hall j hj)⟩
  · exact h.nodup
  · intro j
    rw [hreturned]
    by_cases hij : i = j
    · rw [if_pos hij, List.pairwise_append]
      refine ⟨h.sorted j, List.pairwise_singleton _ _, fun l hl m hm => ?_⟩
      rw [List.mem_singleton] at hm
      exact hm ▸ h.newer j k (hij ▸ hlast) l hl
    · rw [if_neg hij, List.append_nil]
      exact h.sorted j

/-- Every move keeps the order of the frames. -/
lemma Move.ordered (hmove : Move c d) (h : Ordered c) : Ordered d := by
  cases hmove with
  | stay => exact h
  | clear i v hlast hcleared =>
    exact h.fewer rfl (fun _ => rfl) (fun _ _ => lastFrame_setStream (.inl hlast)) (fun _ hk => hk) (.refl _)
  | latch hdriver => exact h.latch
  | skip hdriver =>
    refine h.fewer rfl (fun _ => rfl) (fun _ _ hk => hk) (fun _ hk => ?_) ?_
    · rw [hdriver]
      exact hk
    · rw [hdriver]
      exact List.sublist_cons_self _ _
  | accept hdriver =>
    refine h.fewer rfl (fun _ => rfl) (fun _ _ hk => hk) (fun _ hk => ?_) ?_
    · rw [hdriver]
      exact hk
    · rw [hdriver]
      exact .refl _
  | store hdriver => exact h.store hdriver
  | raise hdriver =>
    refine h.fewer rfl (fun _ => rfl) (fun _ _ => lastFrame_setStream (.inr rfl)) (fun _ hk => ?_) ?_
    · rw [hdriver]
      exact hk
    · rw [hdriver]
      exact .refl _
  | finish hdriver => exact h.fewer rfl (fun _ => rfl) (fun _ _ hk => hk) (fun _ hk => nomatch hk) (List.nil_sublist _)
  | peek hreader hlast =>
    exact h.fewer rfl (fun _ => rfl) (fun _ _ => lastFrame_setStream (.inr rfl)) (fun _ hk => hk) (.refl _)
  | wake hreader =>
    exact h.fewer rfl (fun _ => rfl) (fun _ _ => lastFrame_setStream (.inr rfl)) (fun _ hk => hk) (.refl _)
  | @take i hreader =>
    cases hlast : (c.stream i).lastFrame with
    | none =>
      refine h.fewer rfl (fun j => ?_) (fun _ _ => lastFrame_setStream (.inl rfl)) (fun _ hk => hk) (.refl _)
      rw [returned_append_singleton]
      simp
    | some k =>
      rw [← hlast]
      exact h.take hlast

/-- The driver is not about to raise an event. -/
def Unraised (c : Numbered n) : Prop := ∀ k i rest, c.driver ≠ .stored k i rest

lemma Waits.event (h : Waits c) (hdriver : Unraised c) {i : Fin n} (hreader : (c.stream i).reader ≠ .woken)
    (hlast : (c.stream i).lastFrame.isSome) : (c.stream i).newFrameEvent = true := by
  cases h.raised i hreader hlast with
  | inl hevent => exact hevent
  | inr hstored =>
    obtain ⟨k, rest, heq⟩ := hstored
    exact absurd heq (hdriver k i rest)

/-- The driver moves on, and the streams stay as they are. -/
lemma Waits.driver (h : Waits c) (hdriver : Unraised c) (hstream : d.stream = c.stream) (hreads : d.reads = c.reads) :
    Waits d where
  full := by rw [hreads]; exact h.full
  seen := by rw [hstream]; exact h.seen
  raised i hreader hlast := by
    rw [hstream] at hreader hlast ⊢
    exact .inl (h.event hdriver hreader hlast)

/-- One stream changes. -/
lemma Waits.stream {i : Fin n} {v : VideoStream} (h : Waits c) (hstream : d.stream = (c.setStream i v).stream)
    (hfull : ∀ r ∈ d.reads, r.serial.isSome ∨ r.cleared = true)
    (hseen : v.reader ≠ .idle → v.lastFrame.isSome ∨ v.cleared = true)
    (hraised : v.reader ≠ .woken → v.lastFrame.isSome →
      v.newFrameEvent = true ∨ ∃ k rest, d.driver = .stored k i rest)
    (hdriver : ∀ j, j ≠ i → ∀ k rest, c.driver = .stored k j rest → d.driver = .stored k j rest) : Waits d where
  full := hfull
  seen j hj := by
    rw [hstream] at hj ⊢
    by_cases hji : j = i
    · rw [hji, setStream_self] at hj ⊢
      exact hseen hj
    · rw [setStream_of_ne hji] at hj ⊢
      exact h.seen j hj
  raised j hreader hlast := by
    rw [hstream] at hreader hlast ⊢
    by_cases hji : j = i
    · rw [hji, setStream_self] at hreader hlast ⊢
      exact hraised hreader hlast
    · rw [setStream_of_ne hji] at hreader hlast ⊢
      refine (h.raised j hreader hlast).imp_right fun hstored => ?_
      obtain ⟨k, rest, heq⟩ := hstored
      exact ⟨k, rest, hdriver j hji k rest heq⟩

/-- No move leaves a client waiting for a frame which is there. -/
lemma Move.waits (hmove : Move c d) (h : Waits c) : Waits d := by
  cases hmove with
  | stay => exact h
  | clear i v hlast hcleared =>
    refine h.stream rfl h.full (fun _ => .inr hcleared) (fun _ hsome => ?_) fun _ _ _ _ heq => heq
    rw [hlast] at hsome
    cases hsome
  | latch hdriver => exact h.driver (fun k i rest heq => nomatch hdriver.symm.trans heq) rfl rfl
  | skip hdriver => exact h.driver (fun k i rest heq => nomatch hdriver.symm.trans heq) rfl rfl
  | accept hdriver => exact h.driver (fun k i rest heq => nomatch hdriver.symm.trans heq) rfl rfl
  | @store k i rest hdriver =>
    exact h.stream rfl h.full (fun _ => .inl rfl) (fun _ _ => .inr ⟨k, rest, rfl⟩)
      fun j hj l rest' heq => nomatch hdriver.symm.trans heq
  | @raise k i rest hdriver =>
    refine h.stream rfl h.full (h.seen i) (fun _ _ => .inl rfl) fun j hj l rest' heq => ?_
    rw [hdriver, Driver.stored.injEq] at heq
    exact absurd heq.2.1.symm hj
  | finish hdriver => exact h.driver (fun k i rest heq => nomatch hdriver.symm.trans heq) rfl rfl
  | @peek i hreader hlast =>
    refine h.stream rfl h.full (fun _ => .inl hlast) (fun _ _ => ?_) fun _ _ _ _ heq => heq
    exact h.raised i (by rw [hreader]; exact fun heq => nomatch heq) hlast
  | @wake i hreader =>
    refine h.stream rfl h.full (fun _ => ?_) (fun hwoken => absurd rfl hwoken) fun _ _ _ _ heq => heq
    exact h.seen i (by rw [hreader]; exact fun heq => nomatch heq)
  | @take i hreader =>
    have hsome := h.seen i (by rw [hreader]; exact fun heq => nomatch heq)
    refine h.stream rfl (fun r hr => ?_) (fun hidle => absurd rfl hidle) (fun _ hnone => nomatch hnone)
      fun _ _ _ _ heq => heq
    rw [List.mem_append, List.mem_singleton] at hr
    cases hr with
    | inl hr => exact h.full r hr
    | inr hr => exact hr ▸ hsome

end WaterHarp.FrameNumbers
