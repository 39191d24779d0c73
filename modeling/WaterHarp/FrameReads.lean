import WaterHarp.FrameNumbers

/-! The threads of a sensor never touch memory wrongly, whatever their order, and what a
client has read stays as it is until the client releases it. -/
namespace WaterHarp.FrameReads
open FramePool FrameOwnership FrameBuffers FrameStreams FrameNumbers

variable {n : ℕ} {s t : System n} {i : Fin n}

def last (v : VideoStream) : Multiset ℕ := ↑v.lastFrame.toList

/-- The references to stable frames. -/
def heldRefs (s : System n) : Multiset ℕ :=
  ↑s.driver.frame.toList + ∑ i, last (s.stream i) + ↑(s.held.map Taken.frame)

def otherRefs (i : Fin n) (s : System n) : Multiset ℕ :=
  ↑s.driver.frame.toList + ∑ j ∈ Finset.univ.erase i, last (s.stream j) + ↑(s.held.map Taken.frame)

/-- The frames which the clients hold, each once. -/
def heldFrames (s : System n) : Finset ℕ := (s.held.map Taken.frame).toFinset

/-- A stream counts from the beginning of `start` to the end of `stop`. -/
def counts (v : VideoStream) : ℕ := if v.started ∨ v.stopping then 1 else 0

structure Safe (s : System n) : Prop where
  sound : Sound s.manager (heldRefs s)
  serials : ∀ t ∈ s.held, s.manager.serial t.frame = t.serial ∧ t.serial ∈ returned t.stream s.reads
  working : s.manager.workingBuffer.isSome ↔ 0 < s.startedStreamCount
  count : s.startedStreamCount = ∑ i, counts (s.stream i)
  stopping : ∀ i, (s.stream i).stopping = true → (s.stream i).started = false

/-! The streams as numbers. -/

def number (serial : ℕ → ℕ) (v : VideoStream) : VideoStream := { v with lastFrame := v.lastFrame.map serial }

def numberDriver (serial : ℕ → ℕ) : Driver n → Driver n
  | .writing => .writing
  | .offering f rest => .offering (serial f) rest
  | .accepted f i rest => .accepted (serial f) i rest
  | .stored f i rest => .stored (serial f) i rest

def numbered (s : System n) : Numbered n where
  frames := s.manager.latched.length
  stream i := number s.manager.serial (s.stream i)
  driver := numberDriver s.manager.serial s.driver
  reads := s.reads

/-- What the driver has written since the last stable frame. -/
def writing (s : System n) (bytes : List UInt8) : Event n → List UInt8
  | .start _ _ => if s.startedStreamCount = 0 then [] else bytes
  | .reset => []
  | .write more => bytes ++ more
  | .markStable => []
  | _ => bytes

/-- The data of the stable frames. -/
def marked (past : List (List UInt8)) (bytes : List UInt8) : Event n → List (List UInt8)
  | .markStable => past ++ [bytes]
  | _ => past

/-- The pool grows only when all its frames are held, and the history is what has been written. -/
structure Keeps (s : System n) (e : Event n) (t : System n) : Prop where
  frames : t.manager.pool.frames = s.manager.pool.frames ∨
    t.manager.pool.frames = s.manager.pool.frames+1 ∧ s.manager.pool.frames ≤ n+(heldFrames s).card+1
  latched : ∀ bytes, Current s.manager bytes → t.manager.latched = marked s.manager.latched bytes e
  current : ∀ bytes, Current s.manager bytes → Current t.manager (writing s bytes e)

/-- The action has a result, and the clients see a move. -/
def Steps (s : System n) (e : Event n) : Prop :=
  ∃ t, step s e = some t ∧ Safe t ∧ Move (numbered s) (numbered t) ∧ Keeps s e t

/-! Sums over the streams. -/

lemma sum_setStream {M : Type*} [AddCommMonoid M] (F : VideoStream → M) (i : Fin n) (v : VideoStream) (s : System n) :
    ∑ j, F ((s.setStream i v).stream j) = F v + ∑ j ∈ Finset.univ.erase i, F (s.stream j) := by
  rw [← Finset.add_sum_erase _ _ (Finset.mem_univ i)]
  congr 1
  · simp [System.setStream]
  · refine Finset.sum_congr rfl fun j hj => ?_
    simp [System.setStream, Function.update_of_ne (Finset.ne_of_mem_erase hj)]

lemma sum_stream {M : Type*} [AddCommMonoid M] (F : VideoStream → M) (i : Fin n) (s : System n) :
    ∑ j, F (s.stream j) = F (s.stream i) + ∑ j ∈ Finset.univ.erase i, F (s.stream j) :=
  (Finset.add_sum_erase _ _ (Finset.mem_univ i)).symm

lemma heldRefs_eq (i : Fin n) (s : System n) : heldRefs s = last (s.stream i) + otherRefs i s := by
  rw [heldRefs, otherRefs, sum_stream last i]
  abel

lemma heldRefs_setStream (i : Fin n) (v : VideoStream) (s : System n) :
    heldRefs (s.setStream i v) = last v + otherRefs i s := by
  rw [heldRefs, otherRefs, sum_setStream last]
  simp only [System.setStream]
  abel

lemma mem_heldRefs {k : Taken n} (hk : k ∈ s.held) : k.frame ∈ heldRefs s := by
  simp only [heldRefs, Multiset.mem_add, Multiset.mem_coe, List.mem_map]
  exact .inr ⟨k, hk, rfl⟩

lemma card_last_le (v : VideoStream) : (last v).card ≤ 1 := by
  cases h : v.lastFrame <;> simp [last, h]

lemma card_lasts_le (I : Finset (Fin n)) (s : System n) : (∑ i ∈ I, last (s.stream i)).toFinset.card ≤ n := by
  have hsum := Finset.sum_le_card_nsmul I (fun i => (last (s.stream i)).card) 1 fun i _ => card_last_le (s.stream i)
  rw [smul_eq_mul, mul_one] at hsum
  calc (∑ i ∈ I, last (s.stream i)).toFinset.card
      ≤ (∑ i ∈ I, last (s.stream i)).card := Multiset.toFinset_card_le _
    _ = ∑ i ∈ I, (last (s.stream i)).card := Multiset.card_sum _ _
    _ ≤ I.card := hsum
    _ ≤ n := card_finset_fin_le I

/-- Frames of the driver, of some streams and of the clients. -/
lemma card_refs_le (I : Finset (Fin n)) (s : System n) :
    (↑s.driver.frame.toList + ∑ i ∈ I, last (s.stream i) + ↑(s.held.map Taken.frame) : Multiset ℕ).toFinset.card ≤
      s.driver.frame.toList.length+n+(heldFrames s).card := by
  have hdriver : (↑s.driver.frame.toList : Multiset ℕ).toFinset.card ≤ s.driver.frame.toList.length :=
    Multiset.toFinset_card_le _
  have hlasts := card_lasts_le I s
  rw [Multiset.toFinset_add, Multiset.toFinset_add]
  calc _ ≤ _ := Finset.card_union_le _ _
    _ ≤ _ := Nat.add_le_add_right (Finset.card_union_le _ _) _
    _ ≤ s.driver.frame.toList.length+n+(heldFrames s).card := Nat.add_le_add_right (Nat.add_le_add hdriver hlasts) _

lemma card_otherRefs_le (i : Fin n) (s : System n) : (otherRefs i s).toFinset.card ≤ n+(heldFrames s).card+1 := by
  have hle := card_refs_le (Finset.univ.erase i) s
  rw [← otherRefs] at hle
  have hone : s.driver.frame.toList.length ≤ 1 := by
    cases s.driver.frame <;> simp
  omega

/-- A pool whose frames are all held has no more frames than are held. -/
lemma le_card_of_forall_mem {k : ℕ} {refs : Multiset ℕ} (h : ∀ f < k, f ∈ refs) : k ≤ refs.toFinset.card := by
  have hsub : Finset.range k ⊆ refs.toFinset := by
    intro f hf
    exact Multiset.mem_toFinset.mpr (h f (Finset.mem_range.mp hf))
  calc k = (Finset.range k).card := (Finset.card_range k).symm
    _ ≤ refs.toFinset.card := Finset.card_le_card hsub

lemma numbered_setStream (i : Fin n) (v : VideoStream) (s : System n) :
    numbered (s.setStream i v) = (numbered s).setStream i (number s.manager.serial v) := by
  simp only [numbered, System.setStream, Numbered.setStream, Numbered.mk.injEq, true_and, and_true]
  funext j
  by_cases hj : j = i
  · simp [hj]
  · simp [Function.update_of_ne hj]

/-! One stream gives up its frame. -/

lemma releaseLast_spec (h : Sound s.manager (heldRefs s)) (i : Fin n) :
    ∃ m, s.releaseLast i = some { s with manager := m } ∧ Sound m (otherRefs i s) ∧ PoolOnly s.manager m := by
  rw [heldRefs_eq i] at h
  cases hlast : (s.stream i).lastFrame with
  | none =>
    refine ⟨s.manager, by simp only [System.releaseLast, hlast], ?_, ⟨s.manager.pool, rfl⟩, rfl, fun _ _ => rfl⟩
    simpa [last, hlast] using h
  | some f =>
    have hrefs : last (s.stream i) + otherRefs i s = f ::ₘ otherRefs i s := by simp [last, hlast]
    rw [hrefs] at h
    obtain ⟨m, hm, hsound, hsame⟩ := h.release
    exact ⟨m, by simp only [System.releaseLast, hlast, System.releaseFrame, hm, Option.map_some], hsound, hsame⟩

lemma clear_spec (h : Sound s.manager (heldRefs s)) (i : Fin n) :
    ∃ m, s.clear i =
        some ({ s with manager := m }.setStream i { s.stream i with lastFrame := none, cleared := true }) ∧
      Sound m (otherRefs i s) ∧ PoolOnly s.manager m := by
  obtain ⟨m, hm, hsound, hsame⟩ := releaseLast_spec h i
  exact ⟨m, by rw [System.clear, hm, Option.map_some], hsound, hsame⟩

/-- A stream without a frame changes, and the driver may start or stop. -/
lemma Safe.setStream {m : FrameBufferManager} {v : VideoStream} {k : ℕ} (h : Safe s)
    (hsound : Sound m (otherRefs i s)) (hserial : m.serial = s.manager.serial)
    (hlatched : m.latched = s.manager.latched) (hlast : v.lastFrame = none) (hcleared : v.cleared = true)
    (hworking : m.workingBuffer.isSome ↔ 0 < k)
    (hcount : k+counts (s.stream i) = s.startedStreamCount+counts v) (hstop : v.stopping = true → v.started = false) :
    Safe ({ s with manager := m, startedStreamCount := k }.setStream i v) ∧
      Move (numbered s) (numbered ({ s with manager := m, startedStreamCount := k }.setStream i v)) := by
  constructor
  · refine ⟨?_, ?_, hworking, ?_, fun j hj => ?_⟩
    · have hrefs : heldRefs ({ s with manager := m, startedStreamCount := k }.setStream i v) = otherRefs i s := by
        rw [heldRefs_setStream]
        simp [last, hlast, otherRefs]
      rw [hrefs]
      exact hsound
    · intro t ht
      obtain ⟨hnumber, hread⟩ := h.serials t ht
      exact ⟨(congrFun hserial t.frame).trans hnumber, hread⟩
    · have hall := h.count
      rw [sum_stream counts i] at hall
      have hnew := sum_setStream counts i v { s with manager := m, startedStreamCount := k }
      rw [hnew]
      simp only [System.setStream]
      omega
    · by_cases hji : j = i
      · have hself : ({ s with manager := m, startedStreamCount := k }.setStream i v).stream j = v := by
          rw [hji]
          exact Function.update_self ..
        rw [hself] at hj ⊢
        exact hstop hj
      · have hother : ({ s with manager := m, startedStreamCount := k }.setStream i v).stream j = s.stream j :=
          Function.update_of_ne hji ..
        rw [hother] at hj ⊢
        exact h.stopping j hj
  · have hnumbered : numbered { s with manager := m, startedStreamCount := k } = numbered s := by
      simp only [numbered, hserial, hlatched]
    rw [numbered_setStream, hnumbered]
    refine .clear _ i _ ?_ hcleared
    simp only [number, hlast, Option.map_none]

lemma counts_start {v : VideoStream} (hstarted : v.started = false) (hstopping : v.stopping = false) :
    counts v = 0 := by
  simp [counts, hstarted, hstopping]

lemma clear_cleared (hlast : (s.stream i).lastFrame = none) (hcleared : (s.stream i).cleared = true) :
    s.clear i = some s := by
  have hsame : s.setStream i { s.stream i with lastFrame := none, cleared := true } = s := by
    rw [← hlast, ← hcleared]
    simp [System.setStream]
  simp only [System.clear, System.releaseLast, hlast, Option.map_some, hsame]

/-- The driver runs once the first stream is started. -/
lemma startDriver_spec {refs : Multiset ℕ} (h : Sound s.manager refs)
    (hworking : s.manager.workingBuffer.isSome ↔ 0 < s.startedStreamCount) (size : ℕ) :
    ∃ m, s.startDriver size = some { s with manager := m } ∧ Sound m refs ∧ m.serial = s.manager.serial ∧
      m.latched = s.manager.latched ∧ m.workingBuffer.isSome ∧
      (m.pool.frames = s.manager.pool.frames ∨
        m.pool.frames = s.manager.pool.frames+1 ∧ ∀ f < s.manager.pool.frames, f ∈ refs) ∧
      ∀ bytes, Current s.manager bytes → Current m (if s.startedStreamCount = 0 then [] else bytes) := by
  by_cases hfirst : s.startedStreamCount = 0
  · have hnone : s.manager.workingBuffer = none := by
      rw [← Option.not_isSome_iff_eq_none, hworking]
      omega
    obtain ⟨p, hp, hsound, hframes⟩ := h.setRequiredFrameSize size
    have hstart := hsound.start hnone
    refine ⟨_, ?_, hstart.sound, hstart.serial, hstart.latched, hstart.working, hframes ▸ hstart.frames,
      fun bytes _ => ?_⟩
    · rw [System.startDriver, if_pos hfirst, hp, Option.map_some]
    · rw [if_pos hfirst]
      exact current_nil hstart.current
  · refine ⟨s.manager, ?_, h, rfl, rfl, ?_, .inl rfl, fun bytes hbytes => ?_⟩
    · rw [System.startDriver, if_neg hfirst]
    · rw [hworking]
      omega
    · rw [if_neg hfirst]
      exact hbytes

lemma Safe.start (h : Safe s) {size : ℕ} (he : Enabled s (.start i size)) : Steps s (.start i size) := by
  obtain ⟨hstopping, hstarted⟩ := he
  obtain ⟨m, hclear, hsound, hsame⟩ := clear_spec h.sound i
  obtain ⟨hserial, hlatched, hworking⟩ := hsame.kept
  set u := { s with manager := m }.setStream i { s.stream i with lastFrame := none, cleared := true } with hu
  obtain ⟨m', hdriver, hsound', hserial', hlatched', hworking', hframes, hcurrent⟩ :=
    startDriver_spec (s := u) hsound (by rw [hu]; simpa [System.setStream, hworking] using h.working) size
  set w : VideoStream := { s.stream i with lastFrame := none, cleared := true, started := true } with hw
  have hcleared : (System.countStream (u.startedStreamCount+1) { u with manager := m' }).clear i =
      some (System.countStream (u.startedStreamCount+1) { u with manager := m' }) :=
    clear_cleared (by simp [hu, System.countStream, System.setStream])
      (by simp [hu, System.countStream, System.setStream])
  have hresult : s.start i size =
      some ({ s with manager := m', startedStreamCount := s.startedStreamCount+1 }.setStream i w) := by
    rw [System.start, hclear, Option.bind_some, hdriver]
    simp only [Option.bind_some, hcleared, Option.map_some]
    simp [hu, hw, System.setStream, System.countStream]
  have hcount : s.startedStreamCount+1+counts (s.stream i) = s.startedStreamCount+counts w := by
    rw [counts_start hstarted hstopping]
    simp [counts, hw]
  obtain ⟨hsafe, hmove⟩ := h.setStream (v := w) hsound' (hserial'.trans hserial) (hlatched'.trans hlatched) rfl
    rfl (iff_of_true hworking' (Nat.succ_pos _)) hcount
    fun hstop => absurd (hstopping.symm.trans hstop) Bool.false_ne_true
  refine ⟨_, hresult, hsafe, hmove, ?_, fun _ _ => hlatched'.trans hlatched,
    fun bytes hbytes => hcurrent bytes (hsame.current hbytes)⟩
  rw [← hsame.frames]
  exact hframes.imp_right fun hgrown =>
    ⟨hgrown.1, (le_card_of_forall_mem hgrown.2).trans (card_otherRefs_le i s)⟩

lemma Safe.stop (h : Safe s) (he : Enabled s (.stop i)) : Steps s (.stop i) := by
  obtain ⟨hstopping, hstarted⟩ := he
  set v : VideoStream := { s.stream i with started := false, stopping := true } with hv
  set w : VideoStream := { v with lastFrame := none, cleared := true } with hw
  have hself : (s.setStream i v).stream i = v := Function.update_self ..
  have hrefs : heldRefs (s.setStream i v) = heldRefs s := by
    rw [heldRefs_setStream, heldRefs_eq i s]
    rfl
  have hother : otherRefs i (s.setStream i v) = otherRefs i s := by
    have heq := (heldRefs_eq i (s.setStream i v)).symm.trans (heldRefs_setStream i v s)
    rw [hself] at heq
    exact add_left_cancel heq
  obtain ⟨m, hclear, hsound, hsame⟩ := clear_spec (s := s.setStream i v) (hrefs ▸ h.sound) i
  obtain ⟨hserial, hlatched, hworking⟩ := hsame.kept
  have hresult : s.stop i =
      some ({ s with manager := m, startedStreamCount := s.startedStreamCount }.setStream i w) := by
    rw [System.stop, hclear, hself]
    simp [hw, System.setStream]
  have hcount : s.startedStreamCount+counts (s.stream i) = s.startedStreamCount+counts w := by
    simp [counts, hw, hv, hstarted]
  obtain ⟨hsafe, hmove⟩ := h.setStream (v := w) (hother ▸ hsound) hserial hlatched rfl rfl
    (by rw [hworking]; exact h.working) hcount fun _ => rfl
  exact ⟨_, hresult, hsafe, hmove, .inl hsame.frames, fun _ _ => hlatched, fun _ hbytes => hsame.current hbytes⟩

/-- The driver stops after the last stream. -/
lemma stopDriver_spec {refs : Multiset ℕ} {k : ℕ} (h : Sound s.manager refs)
    (hworking : s.manager.workingBuffer.isSome) :
    ∃ m, (s.countStream k).stopDriver = some { s with manager := m, startedStreamCount := k } ∧ Sound m refs ∧
      m.serial = s.manager.serial ∧ m.latched = s.manager.latched ∧ (m.workingBuffer.isSome ↔ 0 < k) ∧
      m.pool.frames = s.manager.pool.frames ∧ ∀ bytes, Current s.manager bytes → Current m bytes := by
  by_cases hlast : k = 0
  · obtain ⟨m, hm, hsound, hnone, hlatched, hserial, hframes⟩ := h.stop
    refine ⟨m, ?_, hsound, hserial, hlatched, ?_, hframes, fun _ _ => current_none hnone⟩
    · exact (if_pos hlast).trans (congrArg (Option.map _) hm)
    · rw [hnone, hlast]
      simp
  · exact ⟨s.manager, if_neg hlast, h, rfl, rfl, iff_of_true hworking (Nat.pos_of_ne_zero hlast), rfl,
      fun _ hbytes => hbytes⟩

lemma Safe.stopped (h : Safe s) (he : Enabled s (.stopped i)) : Steps s (.stopped i) := by
  obtain ⟨hstopping, -⟩ := he
  have hstarted := h.stopping i hstopping
  have hone : counts (s.stream i) = 1 := by simp [counts, hstopping]
  have hpos : 0 < s.startedStreamCount := by
    rw [h.count, sum_stream counts i, hone]
    omega
  obtain ⟨m, hstop, hsound, hserial, hlatched, hworking, hframes, hcurrent⟩ :=
    stopDriver_spec (k := s.startedStreamCount-1) h.sound (h.working.mpr hpos)
  set u : System n := { s with manager := m, startedStreamCount := s.startedStreamCount-1 } with hu
  have hrefs : heldRefs u = heldRefs s := rfl
  obtain ⟨m', hclear, hsound', hsame⟩ := clear_spec (s := u) (hrefs ▸ hsound) i
  obtain ⟨hserial', hlatched', hworking'⟩ := hsame.kept
  set w : VideoStream := { s.stream i with lastFrame := none, cleared := true, stopping := false } with hw
  have hresult : s.stopped i =
      some ({ s with manager := m', startedStreamCount := s.startedStreamCount-1 }.setStream i w) := by
    simp only [System.stopped, hstop, Option.bind_some]
    rw [hclear, Option.map_some]
    simp [hu, hw, System.setStream]
  have hcount : s.startedStreamCount-1+counts (s.stream i) = s.startedStreamCount+counts w := by
    have hzero : counts w = 0 := by simp [counts, hw, hstarted]
    omega
  rw [← hworking'] at hworking
  obtain ⟨hsafe, hmove⟩ := h.setStream (v := w) hsound' (hserial'.trans hserial) (hlatched'.trans hlatched) rfl
    rfl hworking hcount fun _ => hstarted
  exact ⟨_, hresult, hsafe, hmove, .inl (hsame.frames.trans hframes), fun _ _ => hlatched'.trans hlatched,
    fun bytes hbytes => hsame.current (hcurrent bytes hbytes)⟩

/-! The driver. -/

/-- The manager works on, and no reference moves. -/
lemma Safe.setManager {m : FrameBufferManager} (h : Safe s) (hsound : Sound m (heldRefs s))
    (hkept : Kept s.manager m) :
    Safe { s with manager := m } ∧ Move (numbered s) (numbered { s with manager := m }) := by
  constructor
  · refine ⟨hsound, fun t ht => ?_, ?_, h.count, h.stopping⟩
    · obtain ⟨hnumber, hread⟩ := h.serials t ht
      exact ⟨(congrFun hkept.serial t.frame).trans hnumber, hread⟩
    · rw [hkept.working]
      exact h.working
  · have hnumbered : numbered { s with manager := m } = numbered s := by
      simp only [numbered, hkept.serial, hkept.latched]
    rw [hnumbered]
    exact .stay _

lemma Safe.reset (h : Safe s) : Steps s .reset := by
  obtain ⟨hsafe, hmove⟩ := h.setManager h.sound.reset ⟨rfl, rfl, rfl, rfl⟩
  exact ⟨_, rfl, hsafe, hmove, .inl rfl, fun _ _ => rfl, fun _ _ => current_nil rfl⟩

lemma Safe.write {bytes : List UInt8} (h : Safe s) (he : Enabled s (.write bytes)) : Steps s (.write bytes) := by
  obtain ⟨-, hworking, hroom⟩ := he
  obtain ⟨m, hm, hsound, hkept, hcurrent⟩ := h.sound.write hworking hroom
  obtain ⟨hsafe, hmove⟩ := h.setManager hsound hkept
  refine ⟨{ s with manager := m }, ?_, hsafe, hmove, .inl hkept.frames, fun _ _ => hkept.latched, hcurrent⟩
  simp only [FrameStreams.step, System.write, hm, Option.map_some]

/-- The driver moves on without touching the streams. -/
lemma Safe.setDriver {driver : Driver n} (h : Safe s) (hframe : driver.frame = s.driver.frame) :
    Safe { s with driver := driver } := by
  refine ⟨?_, h.serials, h.working, h.count, h.stopping⟩
  have hrefs : heldRefs { s with driver := driver } = heldRefs s := by
    simp only [heldRefs, hframe]
  rw [hrefs]
  exact h.sound

lemma Safe.offer {f : ℕ} {rest : List (Fin n)} (h : Safe s) (he : Enabled s (.offer f i rest)) :
    Steps s (.offer f i rest) := by
  have hdriver : s.driver = .offering f (i :: rest) := he
  have hnumber : (numbered s).driver = .offering (s.manager.serial f) (i :: rest) := by
    simp only [numbered, hdriver, numberDriver]
  by_cases hstarted : (s.stream i).started
  · refine ⟨{ s with driver := .accepted f i rest }, ?_, h.setDriver ?_, .accept hnumber, .inl rfl, fun _ _ => rfl,
    fun _ hbytes => hbytes⟩
    · simp only [FrameStreams.step, System.offer, if_pos hstarted]
    · rw [hdriver]
      rfl
  · refine ⟨{ s with driver := .offering f rest }, ?_, h.setDriver ?_, .skip hnumber, .inl rfl, fun _ _ => rfl,
    fun _ hbytes => hbytes⟩
    · simp only [FrameStreams.step, System.offer, if_neg hstarted]
    · rw [hdriver]
      rfl

lemma Safe.finish {f : ℕ} (h : Safe s) (he : Enabled s (.finish f)) : Steps s (.finish f) := by
  have hdriver : s.driver = .offering f [] := he
  have hrefs : heldRefs s = f ::ₘ heldRefs { s with driver := .writing } := by
    simp [heldRefs, hdriver, Driver.frame, Multiset.singleton_add]
  obtain ⟨m, hm, hsound, hsame⟩ := (hrefs ▸ h.sound).release
  obtain ⟨hserial, hlatched, hworking⟩ := hsame.kept
  refine ⟨{ s with manager := m, driver := .writing }, ?_, ⟨hsound, fun t ht => ?_, ?_, h.count, h.stopping⟩, ?_,
    .inl hsame.frames, fun _ _ => hlatched,
    fun _ hbytes => hsame.current hbytes⟩
  · simp only [FrameStreams.step, System.finish, System.releaseFrame, hm, Option.map_some]
  · obtain ⟨hnumber, hread⟩ := h.serials t ht
    exact ⟨(congrFun hserial t.frame).trans hnumber, hread⟩
  · rw [hworking]
    exact h.working
  · have hnumbered : numbered { s with manager := m, driver := .writing } = { numbered s with driver := .writing } := by
      simp only [numbered, hserial, hlatched, numberDriver]
    rw [hnumbered]
    refine .finish (k := s.manager.serial f) ?_
    simp only [numbered, hdriver, numberDriver]

/-- The numbers of the frames which are held do not change. -/
lemma numbered_of_serial {m : FrameBufferManager} (hserial : ∀ f ∈ heldRefs s, m.serial f = s.manager.serial f) :
    (fun i => number m.serial (s.stream i)) = fun i => number s.manager.serial (s.stream i) := by
  funext i
  cases hlast : (s.stream i).lastFrame with
  | none => simp [number, hlast]
  | some f =>
    have hf : f ∈ heldRefs s := by
      rw [heldRefs_eq i]
      simp [last, hlast]
    simp [number, hlast, hserial f hf]

lemma Safe.markStable (h : Safe s) (he : Enabled s .markStable) : Steps s .markStable := by
  obtain ⟨hdriver, hworking⟩ := he
  obtain ⟨f, m, hm, hlatch⟩ := h.sound.markWriteBufferAsStable hworking
  have hserial : ∀ g ∈ heldRefs s, m.serial g = s.manager.serial g := by
    intro g hg
    have hne : g ≠ f := fun heq => hlatch.fresh (heq ▸ hg)
    rw [hlatch.serial, Function.update_of_ne hne]
  have hself : m.serial f = s.manager.latched.length := by
    rw [hlatch.serial, Function.update_self]
  have hrefs : heldRefs { s with manager := m, driver := .offering f (List.finRange n) } = f ::ₘ heldRefs s := by
    simp [heldRefs, hdriver, Driver.frame, Multiset.singleton_add]
  refine ⟨{ s with manager := m, driver := .offering f (List.finRange n) }, ?_,
    ⟨hrefs ▸ hlatch.sound, fun t ht => ?_, ?_, h.count, h.stopping⟩, ?_,
    hlatch.frames.imp_right fun hgrown => ⟨hgrown.1, ?_⟩, fun bytes hbytes => ?_,
    fun _ _ => current_nil hlatch.current⟩
  · simp only [FrameStreams.step, System.markStable, hm, Option.map_some]
  · obtain ⟨hnumber, hread⟩ := h.serials t ht
    exact ⟨(hserial t.frame (mem_heldRefs ht)).trans hnumber, hread⟩
  · exact iff_of_true hlatch.working (h.working.mp hworking)
  · have hnumbered : numbered { s with manager := m, driver := .offering f (List.finRange n) } =
        { numbered s with
          frames := (numbered s).frames+1
          driver := .offering (numbered s).frames (List.finRange n) } := by
      simp only [numbered, numbered_of_serial hserial, hlatch.latched, List.length_append, List.length_singleton,
        numberDriver, hself]
    rw [hnumbered]
    refine .latch ?_
    simp only [numbered, hdriver, numberDriver]
  · have hcard := card_refs_le Finset.univ s
    rw [← heldRefs, hdriver] at hcard
    calc s.manager.pool.frames ≤ (f ::ₘ heldRefs s).toFinset.card := le_card_of_forall_mem hgrown.2
      _ ≤ (heldRefs s).toFinset.card+1 := by
        rw [Multiset.toFinset_cons]
        exact Finset.card_insert_le _ _
      _ ≤ n+(heldFrames s).card+1 := Nat.succ_le_succ (hcard.trans (by simp [Driver.frame]))
  · rw [marked, ← (hbytes f hlatch.worked).1]
    exact hlatch.latched

/-! One stream has changed, in a state `t`. -/

/-- A stream has changed without being started or stopped. -/
structure Changed (s : System n) (i : Fin n) (v : VideoStream) (t : System n) : Prop where
  stream : t.stream = Function.update s.stream i v
  started : v.started = (s.stream i).started
  stopping : v.stopping = (s.stream i).stopping
  count : t.startedStreamCount = s.startedStreamCount
  serial : t.manager.serial = s.manager.serial
  latched : t.manager.latched = s.manager.latched
  working : t.manager.workingBuffer = s.manager.workingBuffer

variable {v : VideoStream}

lemma Changed.self (h : Changed s i v t) : t.stream i = v := by
  rw [h.stream, Function.update_self]

lemma Changed.other (h : Changed s i v t) {j : Fin n} (hj : j ≠ i) : t.stream j = s.stream j := by
  rw [h.stream, Function.update_of_ne hj]

lemma Changed.safe (h : Changed s i v t) (hs : Safe s) (hsound : Sound t.manager (heldRefs t))
    (hserials : ∀ k ∈ t.held, s.manager.serial k.frame = k.serial ∧ k.serial ∈ returned k.stream t.reads) :
    Safe t := by
  refine ⟨hsound, ?_, ?_, ?_, fun j hj => ?_⟩
  · rw [h.serial]
    exact hserials
  · rw [h.working, h.count]
    exact hs.working
  · have hcounts : ∀ j, counts (t.stream j) = counts (s.stream j) := by
      intro j
      by_cases hji : j = i
      · rw [hji, h.self, counts, h.started, h.stopping, counts]
      · rw [h.other hji]
    rw [h.count, Finset.sum_congr rfl fun j _ => hcounts j]
    exact hs.count
  · by_cases hji : j = i
    · rw [hji, h.self] at hj ⊢
      rw [h.started]
      exact hs.stopping i (h.stopping ▸ hj)
    · rw [h.other hji] at hj ⊢
      exact hs.stopping j hj

lemma Changed.numbered_eq (h : Changed s i v t) : numbered t = {
    (numbered s).setStream i (number s.manager.serial v) with
    driver := numberDriver s.manager.serial t.driver
    reads := t.reads } := by
  simp only [numbered, Numbered.setStream, h.serial, h.latched, Numbered.mk.injEq, true_and, and_true]
  funext j
  by_cases hji : j = i
  · rw [hji, h.self, Function.update_self]
  · rw [h.other hji, Function.update_of_ne hji]

/-- The references apart from those of the stream. -/
lemma Changed.refs (h : Changed s i v t) (hframe : t.driver.frame = s.driver.frame) :
    heldRefs t + ↑(s.held.map Taken.frame) = last v + otherRefs i s + ↑(t.held.map Taken.frame) := by
  rw [heldRefs, sum_stream last i, h.self, otherRefs, hframe,
    Finset.sum_congr rfl fun j hj => by rw [h.other (Finset.ne_of_mem_erase hj)]]
  abel

lemma Changed.refs_held (h : Changed s i v t) (hframe : t.driver.frame = s.driver.frame) (hheld : t.held = s.held) :
    heldRefs t = last v + otherRefs i s := by
  have heq := h.refs hframe
  rw [hheld] at heq
  exact add_right_cancel heq

lemma Safe.store {f : ℕ} {rest : List (Fin n)} (h : Safe s) (he : Enabled s (.store f i rest)) :
    Steps s (.store f i rest) := by
  have hdriver : s.driver = .accepted f i rest := he
  obtain ⟨m, hm, hsound, hsame⟩ := releaseLast_spec h.sound i
  obtain ⟨hserial, hlatched, hworking⟩ := hsame.kept
  have hf : f ∈ otherRefs i s := by
    simp [otherRefs, hdriver, Driver.frame]
  set v : VideoStream := { s.stream i with lastFrame := some f } with hv
  set t : System n := { s.setStream i v with manager := m.addRef f, driver := .stored f i rest } with ht
  have hchanged : Changed s i v t :=
    ⟨rfl, rfl, rfl, rfl, hserial, hlatched, hworking⟩
  have hrefs : heldRefs t = f ::ₘ otherRefs i s := by
    rw [hchanged.refs_held (by rw [hdriver]; rfl) rfl]
    simp [last, hv, Multiset.singleton_add]
  have hresult : step s (.store f i rest) = some t := by
    simp only [FrameStreams.step, System.store, hm, Option.map_some]
    rfl
  refine ⟨t, hresult, hchanged.safe h (hrefs ▸ hsound.addRef hf) h.serials, ?_, .inl hsame.frames, fun _ _ => hlatched,
    fun _ hbytes => (poolOnly_addRef f m).current (hsame.current hbytes)⟩
  rw [hchanged.numbered_eq]
  refine .store (k := s.manager.serial f) ?_
  simp only [numbered, hdriver, numberDriver]

lemma Safe.raise {f : ℕ} {rest : List (Fin n)} (h : Safe s) (he : Enabled s (.raise f i rest)) :
    Steps s (.raise f i rest) := by
  have hdriver : s.driver = .stored f i rest := he
  have hchanged : Changed s i { s.stream i with newFrameEvent := true } (s.raiseNewFrameEvent f i rest) :=
    ⟨rfl, rfl, rfl, rfl, rfl, rfl, rfl⟩
  have hrefs : heldRefs (s.raiseNewFrameEvent f i rest) = heldRefs s := by
    rw [hchanged.refs_held (by rw [hdriver]; rfl) rfl, heldRefs_eq i s]
    rfl
  refine ⟨_, rfl, hchanged.safe h (hrefs ▸ h.sound) h.serials, ?_, .inl rfl, fun _ _ => rfl,
    fun _ hbytes => hbytes⟩
  rw [hchanged.numbered_eq]
  refine .raise (k := s.manager.serial f) ?_
  simp only [numbered, hdriver, numberDriver]

/-! The clients. -/

lemma Safe.peek (h : Safe s) (he : Enabled s (.peek i)) : Steps s (.peek i) := by
  obtain ⟨hreader, hlast⟩ := he
  have hchanged : Changed s i { s.stream i with reader := .peeked, cleared := false } (s.peek i) :=
    ⟨rfl, rfl, rfl, rfl, rfl, rfl, rfl⟩
  have hrefs : heldRefs (s.peek i) = heldRefs s := by
    rw [hchanged.refs_held rfl rfl, heldRefs_eq i s]
    rfl
  refine ⟨_, rfl, hchanged.safe h (hrefs ▸ h.sound) h.serials, ?_, .inl rfl, fun _ _ => rfl,
    fun _ hbytes => hbytes⟩
  rw [hchanged.numbered_eq]
  refine .peek hreader ?_
  simp only [numbered, number, Option.isSome_map, hlast]

lemma Safe.wake (h : Safe s) (he : Enabled s (.wake i)) : Steps s (.wake i) := by
  obtain ⟨hreader, -⟩ := he
  have hchanged : Changed s i { s.stream i with newFrameEvent := false, reader := .woken } (s.wake i) :=
    ⟨rfl, rfl, rfl, rfl, rfl, rfl, rfl⟩
  have hrefs : heldRefs (s.wake i) = heldRefs s := by
    rw [hchanged.refs_held rfl rfl, heldRefs_eq i s]
    rfl
  refine ⟨_, rfl, hchanged.safe h (hrefs ▸ h.sound) h.serials, ?_, .inl rfl, fun _ _ => rfl,
    fun _ hbytes => hbytes⟩
  rw [hchanged.numbered_eq]
  exact .wake hreader

lemma Safe.take (h : Safe s) (he : Enabled s (.take i)) : Steps s (.take i) := by
  have hreader : (s.stream i).reader = .woken := he
  have hchanged : Changed s i { s.stream i with lastFrame := none, reader := .idle } (s.take i) :=
    ⟨rfl, rfl, rfl, rfl, rfl, rfl, rfl⟩
  have hrefs : heldRefs (s.take i) = heldRefs s := by
    -- the reference of the stream is now the one of the client
    have hheld : (↑((s.take i).held.map Taken.frame) : Multiset ℕ) =
        last (s.stream i) + ↑(s.held.map Taken.frame) := by
      cases hlast : (s.stream i).lastFrame <;> simp [System.take, last, hlast]
    have heq := hchanged.refs rfl
    rw [hheld, ← add_assoc] at heq
    rw [add_right_cancel heq, heldRefs_eq i s, add_comm]
    simp [last]
  refine ⟨_, rfl, hchanged.safe h (hrefs ▸ h.sound) fun k hk => ?_, ?_, .inl rfl, fun _ _ => rfl,
    fun _ hbytes => hbytes⟩
  · have hreads : (s.take i).reads =
        s.reads ++ [⟨i, (s.stream i).lastFrame.map s.manager.serial, (s.stream i).cleared⟩] := rfl
    rw [hreads, returned_append_singleton, List.mem_append]
    simp only [System.take, List.mem_append, Option.mem_toList, Option.map_eq_some_iff] at hk
    cases hk with
    | inl hnew =>
      obtain ⟨f, hf, rfl⟩ := hnew
      exact ⟨rfl, by simp [hf]⟩
    | inr hold =>
      obtain ⟨hnumber, hread⟩ := h.serials k hold
      exact ⟨hnumber, .inl hread⟩
  · rw [hchanged.numbered_eq]
    exact .take hreader

lemma Safe.addRef {k : Taken n} (h : Safe s) (he : Enabled s (.addRef k)) : Steps s (.addRef k) := by
  have hk : k ∈ s.held := he
  have hrefs : heldRefs (s.addFrameRef k) = k.frame ::ₘ heldRefs s := by
    simp only [heldRefs, System.addFrameRef, List.map_cons, ← Multiset.cons_coe, Multiset.add_cons]
  refine ⟨_, rfl, ⟨hrefs ▸ h.sound.addRef (mem_heldRefs hk), fun j hj => ?_, h.working, h.count, h.stopping⟩,
    .stay _, .inl rfl, fun _ _ => rfl,
    fun _ hbytes => (poolOnly_addRef k.frame s.manager).current hbytes⟩
  cases List.mem_cons.mp hj with
  | inl heq => exact heq ▸ h.serials k hk
  | inr hj => exact h.serials j hj

lemma Safe.release {k : Taken n} (h : Safe s) (he : Enabled s (.release k)) : Steps s (.release k) := by
  have hk : k ∈ s.held := he
  have hrefs : heldRefs s = k.frame ::ₘ heldRefs { s with held := s.held.erase k } := by
    have hperm : (s.held.map Taken.frame).Perm (k.frame :: (s.held.erase k).map Taken.frame) :=
      (List.perm_cons_erase hk).map Taken.frame
    simp only [heldRefs, Multiset.coe_eq_coe.mpr hperm, ← Multiset.cons_coe, Multiset.add_cons]
  obtain ⟨m, hm, hsound, hsame⟩ := (hrefs ▸ h.sound).release
  obtain ⟨hserial, hlatched, hworking⟩ := hsame.kept
  refine ⟨{ s with manager := m, held := s.held.erase k }, ?_,
    ⟨hsound, fun j hj => ?_, ?_, h.count, h.stopping⟩, ?_, .inl hsame.frames, fun _ _ => hlatched,
    fun _ hbytes => hsame.current hbytes⟩
  · simp only [FrameStreams.step, System.frameRelease, System.releaseFrame, hm, Option.map_some]
  · obtain ⟨hnumber, hread⟩ := h.serials j (List.mem_of_mem_erase hj)
    exact ⟨(congrFun hserial j.frame).trans hnumber, hread⟩
  · rw [hworking]
    exact h.working
  · have hnumbered : numbered { s with manager := m, held := s.held.erase k } = numbered s := by
      simp only [numbered, hserial, hlatched]
    rw [hnumbered]
    exact .stay _

/-- Every action which a thread may come to is done without harm, and is a move. -/
lemma Safe.step (h : Safe s) {e : Event n} (he : Enabled s e) : Steps s e := by
  cases e with
  | start i size => exact h.start he
  | stop i => exact h.stop he
  | stopped i => exact h.stopped he
  | reset => exact h.reset
  | write bytes => exact h.write he
  | markStable => exact h.markStable he
  | offer f i rest => exact h.offer he
  | store f i rest => exact h.store he
  | raise f i rest => exact h.raise he
  | finish f => exact h.finish he
  | peek i => exact h.peek he
  | wake i => exact h.wake he
  | take i => exact h.take he
  | addRef k => exact h.addRef he
  | release k => exact h.release he

lemma boot_owned : Owned bootPool 0 where
  allocated _ hf := absurd hf (Multiset.notMem_zero _)
  counted _ hf := absurd hf (Nat.not_lt_zero _)
  freeNodup := .nil
  free _ := iff_of_false List.not_mem_nil fun hf => Nat.not_lt_zero _ hf.1
  used _ hf := absurd hf (Multiset.notMem_zero _)
  distinct _ hf := absurd hf (Multiset.notMem_zero _)
  spareNodup := .nil
  spare _ hb := absurd hb List.not_mem_nil
  currentNodup := .nil
  current _ := iff_of_false List.not_mem_nil fun hf => Multiset.notMem_zero _ hf.1
  blocks _ hb := nomatch hb

lemma init_heldRefs (n : ℕ) : heldRefs (init n) = 0 := by
  simp [heldRefs, init, Driver.frame, last]

lemma init_safe (n : ℕ) : Safe (init n) where
  sound := by
    rw [init_heldRefs]
    refine ⟨?_, (fun _ hf => nomatch hf), (fun _ hf => nomatch hf), fun f hf => absurd hf (Multiset.notMem_zero f), rfl⟩
    have hrefs : references (init n).manager 0 = 0 := by simp [references, init]
    rw [hrefs]
    exact boot_owned
  serials _ ht := absurd ht List.not_mem_nil
  working := by simp [init]
  count := by simp [init, counts]
  stopping _ hstop := nomatch hstop

/-- What holds in every state of every run. -/
structure Invariant (s : System n) : Prop where
  safe : Safe s
  ordered : Ordered (numbered s)
  waits : Waits (numbered s)

lemma reachable_invariant (h : Reachable s) : Invariant s := by
  induction h with
  | init => exact ⟨init_safe n, boot_ordered, boot_waits⟩
  | step h he ht ih =>
    obtain ⟨u, hu, hsafe, hmove, -⟩ := ih.safe.step he
    rw [hu, Option.some_inj] at ht
    rw [← ht]
    exact ⟨hsafe, hmove.ordered ih.ordered, hmove.waits ih.waits⟩

end WaterHarp.FrameReads
