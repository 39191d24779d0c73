import WaterHarp.FrameReads

/-! What a sensor guarantees to its driver and its clients in every run. -/
namespace WaterHarp.FrameRuns
open FramePool FrameBuffers FrameStreams FrameNumbers FrameReads

variable {n : ℕ} {s t : System n} {i : Fin n} {bytes : List UInt8} {past : List (List UInt8)}

/-- A run, in which the driver has written `bytes` since the last stable frame, and `past`
into the stable ones. -/
inductive Driven : System n → List UInt8 → List (List UInt8) → Prop
  | init : Driven (init n) [] []
  | step {s t : System n} {bytes : List UInt8} {past : List (List UInt8)} {e : Event n} (h : Driven s bytes past)
      (he : Enabled s e) (ht : step s e = some t) : Driven t (writing s bytes e) (marked past bytes e)

/-- The clients of a run never hold more than `k` frames, however often each. -/
inductive Within (k : ℕ) : System n → Prop
  | init : Within k (init n)
  | step {s t : System n} {e : Event n} (h : Within k s) (he : Enabled s e) (ht : step s e = some t)
      (hheld : (heldFrames t).card ≤ k) : Within k t

instance instDecidableEnabled (s : System n) : ∀ e, Decidable (Enabled s e)
  | .start _ _ => inferInstanceAs (Decidable (_ ∧ _))
  | .stop _ => inferInstanceAs (Decidable (_ ∧ _))
  | .stopped _ => inferInstanceAs (Decidable (_ ∧ _))
  | .reset => inferInstanceAs (Decidable (_ = _))
  | .write _ => inferInstanceAs (Decidable (_ ∧ _))
  | .markStable => inferInstanceAs (Decidable (_ ∧ _))
  | .offer _ _ _ => inferInstanceAs (Decidable (_ = _))
  | .store _ _ _ => inferInstanceAs (Decidable (_ = _))
  | .raise _ _ _ => inferInstanceAs (Decidable (_ = _))
  | .finish _ => inferInstanceAs (Decidable (_ = _))
  | .peek _ => inferInstanceAs (Decidable (_ ∧ _))
  | .wake _ => inferInstanceAs (Decidable (_ ∧ _))
  | .take _ => inferInstanceAs (Decidable (_ = _))
  | .addRef _ => inferInstanceAs (Decidable (_ ∈ _))
  | .release _ => inferInstanceAs (Decidable (_ ∈ _))

/-- The run of a list of actions, whose states pass a check. -/
def play (ok : System n → Bool) : List (Event n) → System n × List UInt8 × List (List UInt8) →
    Option (System n × List UInt8 × List (List UInt8))
  | [], r => some r
  | e :: es, (s, bytes, past) =>
    if Enabled s e then (step s e).bind fun t =>
      if ok t then play ok es (t, writing s bytes e, marked past bytes e) else none
    else none

lemma play_cons {ok : System n → Bool} {e : Event n} {es : List (Event n)}
    {r : System n × List UInt8 × List (List UInt8)} (h : play ok (e :: es) (s, bytes, past) = some r) :
    Enabled s e ∧ ∃ t, step s e = some t ∧ ok t = true ∧
      play ok es (t, writing s bytes e, marked past bytes e) = some r := by
  rw [play] at h
  by_cases he : Enabled s e
  · rw [if_pos he, Option.bind_eq_some_iff] at h
    obtain ⟨t, ht, h⟩ := h
    by_cases hok : ok t
    · rw [if_pos hok] at h
      exact ⟨he, t, ht, hok, h⟩
    · rw [if_neg hok] at h
      cases h
  · rw [if_neg he] at h
    cases h

/-- The end of such a run from the beginning. -/
def outcome (ok : System n → Bool) (es : List (Event n)) : System n × List UInt8 × List (List UInt8) :=
  (play ok es (FrameStreams.init n, [], [])).getD (FrameStreams.init n, [], [])

section Runs
variable {P : System n → List UInt8 → List (List UInt8) → Prop} {ok : System n → Bool}

lemma play_keeps (hstep : ∀ {s t bytes past e}, P s bytes past → Enabled s e → step s e = some t → ok t = true →
      P t (writing s bytes e) (marked past bytes e))
    {r : System n × List UInt8 × List (List UInt8)} (h : P s bytes past) (es : List (Event n))
    (hr : play ok es (s, bytes, past) = some r) : P r.1 r.2.1 r.2.2 := by
  induction es generalizing s bytes past with
  | nil =>
    rw [play, Option.some_inj] at hr
    exact hr ▸ h
  | cons e es ih =>
    obtain ⟨he, t, ht, hok, hr⟩ := play_cons hr
    exact ih (hstep h he ht hok) hr

/-- What each action keeps, when its state passes the check, holds at the end. -/
lemma outcome_keeps (hstep : ∀ {s t bytes past e}, P s bytes past → Enabled s e → step s e = some t →
      ok t = true → P t (writing s bytes e) (marked past bytes e))
    (hinit : P (FrameStreams.init n) [] []) (es : List (Event n)) :
    P (outcome ok es).1 (outcome ok es).2.1 (outcome ok es).2.2 := by
  rw [outcome]
  cases hr : play ok es (FrameStreams.init n, [], []) with
  | none => exact hinit
  | some r => exact play_keeps hstep hinit es hr

end Runs

lemma outcome_driven (ok : System n → Bool) (es : List (Event n)) :
    Driven (outcome ok es).1 (outcome ok es).2.1 (outcome ok es).2.2 :=
  outcome_keeps (fun h he ht _ => h.step he ht) .init es

def holds (k : ℕ) (s : System n) : Bool := (heldFrames s).card ≤ k

lemma outcome_within (k : ℕ) (es : List (Event n)) : Within k (outcome (holds k) es).1 :=
  outcome_keeps (P := fun s _ _ => Within k s) (fun h he ht hok => h.step he ht (of_decide_eq_true hok)) .init es

/-- A client reads the first and the last of three frames of the only stream. -/
def threeFrames : List (Event 1) := [.start 0 2, .write [1], .write [2], .markStable, .offer 0 0 [], .store 0 0 [],
  .peek 0, .raise 0 0 [], .finish 0, .wake 0, .take 0, .write [3], .markStable, .offer 1 0 [], .store 1 0 [],
  .raise 1 0 [], .finish 1, .markStable, .offer 2 0 [], .store 2 0 [], .raise 2 0 [], .finish 2, .peek 0, .wake 0,
  .take 0]

/-- After `k` of these actions, with at most two frames held. -/
def threeFramesAt (k : ℕ) : System 1 × List UInt8 × List (List UInt8) := outcome (holds 2) (threeFrames.take k)

/-- A stream is stopped while its client is in `readFrame`. -/
def stoppedRead : List (Event 1) := [.start 0 2, .markStable, .offer 0 0 [], .store 0 0 [], .raise 0 0 [],
  .finish 0, .peek 0, .stop 0, .wake 0, .take 0]

lemma Driven.reachable (h : Driven s bytes past) : Reachable s := by
  induction h with
  | init => exact .init
  | step _ he ht ih => exact ih.step he ht

lemma Within.reachable {k : ℕ} (h : Within k s) : Reachable s ∧ (heldFrames s).card ≤ k := by
  induction h with
  | init => exact ⟨.init, Nat.zero_le k⟩
  | step _ he ht hheld ih => exact ⟨ih.1.step he ht, hheld⟩

lemma keeps {e : Event n} (h : Reachable s) (he : Enabled s e) (ht : step s e = some t) : Keeps s e t := by
  obtain ⟨u, hu, -, -, hkeeps⟩ := (reachable_invariant h).safe.step he
  rw [hu, Option.some_inj] at ht
  exact ht ▸ hkeeps

/-- The history of the manager is the one of the run. -/
lemma Driven.history (h : Driven s bytes past) : s.manager.latched = past ∧ Current s.manager bytes := by
  induction h with
  | init => exact ⟨rfl, current_none rfl⟩
  | step h he ht ih =>
    have hkeeps := keeps h.reachable he ht
    exact ⟨ih.1 ▸ hkeeps.latched _ ih.2, hkeeps.current _ ih.2⟩

/-- The references are counted exactly: a frame is free when nobody holds it, and each
buffer which is allocated is in the pool or in a frame which someone holds. -/
theorem references_exact (h : Reachable s) :
    (∀ f < s.manager.pool.frames,
      (s.manager.pool.frame f).refCount = (references s.manager (heldRefs s)).count f) ∧
    (∀ f, f ∈ s.manager.pool.available ↔
      f < s.manager.pool.frames ∧ f ∉ references s.manager (heldRefs s)) ∧
    ∀ b, (s.manager.pool.block b).live = true →
      b ∈ s.manager.pool.availableFrameBuffers ∧ (s.manager.pool.block b).size = s.manager.pool.requiredFrameSize ∨
      ∃ f ∈ references s.manager (heldRefs s), (s.manager.pool.frame f).data = some b := by
  have howned := (reachable_invariant h).safe.sound.owned
  refine ⟨howned.counted, howned.free, fun b hb => ?_⟩
  cases (howned.blocks b hb).2 with
  | inl hspare => exact .inl ⟨hspare, (howned.spare b hspare).1.size⟩
  | inr hused => exact .inr hused

theorem references_exact_threeFrames :
    (∀ f < (threeFramesAt 25).1.manager.pool.frames, ((threeFramesAt 25).1.manager.pool.frame f).refCount =
      (references (threeFramesAt 25).1.manager (heldRefs (threeFramesAt 25).1)).count f) ∧
    (∀ f, f ∈ (threeFramesAt 25).1.manager.pool.available ↔ f < (threeFramesAt 25).1.manager.pool.frames ∧
      f ∉ references (threeFramesAt 25).1.manager (heldRefs (threeFramesAt 25).1)) ∧
    ∀ b, ((threeFramesAt 25).1.manager.pool.block b).live = true →
      b ∈ (threeFramesAt 25).1.manager.pool.availableFrameBuffers ∧
        ((threeFramesAt 25).1.manager.pool.block b).size = (threeFramesAt 25).1.manager.pool.requiredFrameSize ∨
      ∃ f ∈ references (threeFramesAt 25).1.manager (heldRefs (threeFramesAt 25).1),
        ((threeFramesAt 25).1.manager.pool.frame f).data = some b :=
  references_exact (outcome_driven _ _).reachable

/-- Each stream returns stable frames only, the newer ones after the older ones and none twice. -/
theorem returned_sorted (h : Driven s bytes past) (i : Fin n) :
    (returned i s.reads).Pairwise (· < ·) ∧ ∀ k ∈ returned i s.reads, k < past.length := by
  have hordered := (reachable_invariant h.reachable).ordered
  refine ⟨hordered.sorted i, fun k hk => ?_⟩
  rw [← h.history.1]
  exact (hordered.past i).returned k hk

/-- The second frame is skipped. -/
theorem returned_sorted_threeFrames :
    ((returned 0 (threeFramesAt 25).1.reads).Pairwise (· < ·) ∧
      ∀ k ∈ returned 0 (threeFramesAt 25).1.reads, k < (threeFramesAt 25).2.2.length) ∧
    returned 0 (threeFramesAt 25).1.reads = [0, 2] :=
  ⟨returned_sorted (outcome_driven _ _) 0, by decide +kernel⟩

/-- A client which waits while its stream has a frame can be woken, at the latest after the
next action of the driver. A client returns without a frame only when its stream has been
started or stopped since it saw one. -/
theorem waiting_woken (h : Reachable s) :
    (∀ i, (s.stream i).reader = .peeked → (s.stream i).lastFrame.isSome →
      Enabled s (.wake i) ∨ ∃ f rest, Enabled s (.raise f i rest) ∧
        Enabled (s.raiseNewFrameEvent f i rest) (.wake i)) ∧
    (∀ i, (s.stream i).reader ≠ .idle → (s.stream i).lastFrame.isSome ∨ (s.stream i).cleared = true) ∧
    ∀ r ∈ s.reads, r.serial.isSome ∨ r.cleared = true := by
  have hwaits := (reachable_invariant h).waits
  refine ⟨fun i hreader hlast => ?_, fun i hreader => ?_, hwaits.full⟩
  · cases hwaits.raised i (by simp [numbered, number, hreader]) (by simpa [numbered, number] using hlast) with
    | inl hevent => exact .inl ⟨hreader, hevent⟩
    | inr hstored =>
      obtain ⟨k, rest, hdriver⟩ := hstored
      cases hd : s.driver with
      | stored f j rest' =>
        simp only [numbered, hd, numberDriver, Driver.stored.injEq] at hdriver
        obtain ⟨-, rfl, -⟩ := hdriver
        refine .inr ⟨f, rest', hd, ?_⟩
        simp [Enabled, System.raiseNewFrameEvent, System.setStream, hreader]
      | writing => simp [numbered, hd, numberDriver] at hdriver
      | offering f rest' => simp [numbered, hd, numberDriver] at hdriver
      | accepted f j rest' => simp [numbered, hd, numberDriver] at hdriver
  · simpa [numbered, number] using hwaits.seen i (by simpa [numbered, number] using hreader)

/-- Before the event of the first frame, and when the stream has been stopped. -/
theorem waiting_woken_threeFrames :
    (Enabled (threeFramesAt 7).1 (.wake 0) ∨ ∃ f rest, Enabled (threeFramesAt 7).1 (.raise f 0 rest) ∧
      Enabled ((threeFramesAt 7).1.raiseNewFrameEvent f 0 rest) (.wake 0)) ∧
    (∀ r ∈ (outcome (fun _ => true) stoppedRead).1.reads, r.serial.isSome ∨ r.cleared = true) ∧
    (outcome (fun _ => true) stoppedRead).1.reads = [⟨0, none, true⟩] :=
  ⟨(waiting_woken (outcome_driven _ _).reachable).1 0 (by decide +kernel) (by decide +kernel),
    (waiting_woken (outcome_driven _ _).reachable).2.2, by decide +kernel⟩

/-- As long as the clients hold at most `k` frames, the pool has at most two frames more
than the clients and the streams. -/
theorem frames_bounded {k : ℕ} (h : Within k s) : s.manager.pool.frames ≤ n+k+2 := by
  induction h with
  | init => exact Nat.zero_le _
  | step h he ht hheld ih =>
    obtain ⟨hreachable, hbefore⟩ := h.reachable
    cases (keeps hreachable he ht).frames with
    | inl hsame => exact hsame ▸ ih
    | inr hgrown =>
      obtain ⟨hone, hfull⟩ := hgrown
      omega

/-- Two frames are held at the end. -/
theorem frames_bounded_threeFrames :
    (threeFramesAt 25).1.manager.pool.frames ≤ 1+2+2 ∧ (threeFramesAt 25).1.manager.pool.frames = 4 ∧
      heldFrames (threeFramesAt 25).1 = {0, 2} :=
  ⟨frames_bounded (outcome_within 2 _), by decide +kernel, by decide +kernel⟩

end WaterHarp.FrameRuns
