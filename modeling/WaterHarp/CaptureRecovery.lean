import WaterHarp.CameraCapture
import WaterHarp.RunHistory

/-! Captures when `savemat` may raise. The counter and the buffer are reset after
the call, so one failed save leaves a full buffer which no later capture empties. -/
namespace WaterHarp.CaptureRecovery
open Program RunHistory CameraState CameraCapture BurstRecorder

variable {K α : Type*} [Field K] [LinearOrder K] [FloorRing K]

/-- The next call of `get_depth` fills the buffer and calls `savemat`. -/
def Attempts (c : DepthCamera K α) : Prop := c.saveDepth.length+1 = c.savecnt

instance (c : DepthCamera K α) : Decidable (Attempts c) := inferInstanceAs (Decidable (_ = _))

/-- One of the first `n` calls of `get_depth` in `later` tries to save. -/
def AttemptsWithin (n : ℕ) (before later : List (Event K α)) : Prop :=
  ∃ between dmap saves rest, later = between ++ .getDepth dmap saves :: rest ∧
    (frames between).length < n ∧ Attempts (after (before ++ between))

/-- A capture message is followed by an attempt to save within twenty calls, and
between calls the buffer is never full. -/
structure Recovers (events : List (Event K α)) : Prop where
  attempts : ∀ before later, events = before ++ .message (.capture (.number 1)) :: later →
    20 ≤ (frames later).length →
    AttemptsWithin 20 (before ++ [.message (.capture (.number 1))]) later
  bounded : ∀ before later, events = before ++ later → (after before).saveDepth.length < 20

/-- No `savemat` which the run calls raises. -/
def EverySaveSucceeds (events : List (Event K α)) : Prop :=
  Along (fun before e => ∀ dmap saves, e = .getDepth dmap saves →
    Attempts (after before) → saves = true) events

omit [Field K] [LinearOrder K] [FloorRing K] in
lemma recordFrame_failed {c : DepthCamera K α} (h : Attempts c) (dmap : α) :
    recordFrame dmap false c = .raised .osError { c with saveDepth := c.saveDepth ++ [dmap] } := by
  unfold Attempts at h
  simp only [recordFrame]
  rw [if_pos (by omega), if_pos (by simpa using h)]
  rfl

omit [Field K] [LinearOrder K] [FloorRing K] in
/-- Without an attempt it does not matter whether `savemat` would succeed. -/
lemma recordFrame_saves {c : DepthCamera K α} {saves : Bool} (h : Attempts c → saves = true) (dmap : α) :
    recordFrame dmap saves c = recordFrame dmap true c := by
  by_cases hattempt : Attempts c
  · rw [h hattempt]
  · have hnot : ¬ (c.saveDepth ++ [dmap]).length = c.savecnt := by simpa [Attempts] using hattempt
    simp only [recordFrame, if_neg hnot]

omit [Field K] [LinearOrder K] [FloorRing K] in
lemma recordFrame_kept {c : DepthCamera K α} (hlen : c.saveDepth.length < c.savecnt)
    (h : ¬ Attempts c) (dmap : α) (saves : Bool) :
    recordFrame dmap saves c = .done { c with saveDepth := c.saveDepth ++ [dmap] } := by
  have hnot : ¬ (c.saveDepth ++ [dmap]).length = c.savecnt := by simpa [Attempts] using h
  simp only [recordFrame, if_pos hlen, if_neg hnot]

omit [Field K] [LinearOrder K] [FloorRing K] in
lemma recordFrame_savecnt (dmap : α) (saves : Bool) (c : DepthCamera K α) :
    (recordFrame dmap saves c).state.savecnt = c.savecnt ∨ (recordFrame dmap saves c).state.savecnt = 0 := by
  simp only [recordFrame]
  split_ifs
  · exact .inr rfl
  · exact .inl rfl
  · exact .inl rfl
  · exact .inl rfl

omit [FloorRing K] in
lemma handleMessage_capture (m : Message K) (c : DepthCamera K α) :
    (handleMessage m c).saveDepth = c.saveDepth ∧
    ((handleMessage m c).savecnt = c.savecnt ∨ (handleMessage m c).savecnt = 20) := by
  cases m with
  | capture arg =>
    simp only [handleMessage, captureHandler]
    split_ifs
    · exact ⟨rfl, .inr rfl⟩
    · exact ⟨rfl, .inl rfl⟩
  | rangeMin x => exact ⟨rfl, .inl rfl⟩
  | rangeMax x => exact ⟨rfl, .inl rfl⟩
  | zoom x => exact ⟨rfl, .inl rfl⟩
  | aim x y => exact ⟨rfl, .inl rfl⟩

/-- Also after failures the counter holds one of two values. -/
lemma savecnt_after (events : List (Event K α)) :
    (after events).savecnt = 0 ∨ (after events).savecnt = 20 := by
  induction events using List.reverseRecOn with
  | nil => exact .inl rfl
  | append_singleton events e ih =>
    rw [after_append_singleton]
    cases e with
    | message m =>
      have hmessage := (handleMessage_capture m (after events)).2
      simp only [handle, Outcome.state_done]
      omega
    | getDepth dmap saves =>
      have hrecord := recordFrame_savecnt dmap saves (after events)
      rw [handle, (getDepth_recorded dmap saves (after events)).1]
      omega

/-! A failed save. -/

def Stuck (c : DepthCamera K α) : Prop := c.savecnt = 20 ∧ c.saveDepth.length = 20

lemma stuck_of_failed {before : List (Event K α)} (h : Attempts (after before)) (dmap : α) :
    Stuck (after (before ++ [.getDepth dmap false])) := by
  obtain ⟨hcnt, hbuf, -⟩ := getDepth_recorded dmap false (after before)
  have hsave := savecnt_after before
  rw [recordFrame_failed h, Outcome.state_raised] at hcnt hbuf
  unfold Attempts at h
  rw [after_append_singleton, handle]
  constructor
  · exact hcnt.trans (by dsimp only; omega)
  · rw [hbuf, List.length_append, List.length_singleton]
    omega

lemma Stuck.handle {c : DepthCamera K α} (h : Stuck c) (e : Event K α) :
    Stuck (CameraState.handle e c).state := by
  obtain ⟨hcnt, hlen⟩ := h
  cases e with
  | message m =>
    have hmessage := handleMessage_capture m c
    constructor
    · simp only [CameraState.handle, Outcome.state_done]
      omega
    · simp only [CameraState.handle, Outcome.state_done, hmessage.1, hlen]
  | getDepth dmap saves =>
    obtain ⟨hcnt', hbuf', -⟩ := getDepth_recorded dmap saves c
    have hidle : recordFrame dmap saves c = .done c := by simp [recordFrame, hcnt, hlen]
    rw [hidle, Outcome.state_done] at hcnt' hbuf'
    exact ⟨hcnt'.trans hcnt, by rw [CameraState.handle, hbuf', hlen]⟩

/-- After a failed save no later event makes an attempt. -/
theorem stuck_forever {before : List (Event K α)} (h : Stuck (after before)) (later : List (Event K α)) :
    Stuck (after (before ++ later)) ∧ ¬ Attempts (after (before ++ later)) := by
  have hstuck : Stuck (after (before ++ later)) := by
    induction later using List.reverseRecOn with
    | nil => simpa using h
    | append_singleton later e ih =>
      rw [← List.append_assoc, after_append_singleton]
      exact ih.handle e
  refine ⟨hstuck, ?_⟩
  unfold Attempts
  rw [hstuck.1, hstuck.2]
  norm_num

/-! Runs in which every save succeeds. -/

lemma consistent_after {events : List (Event K α)} (h : EverySaveSucceeds events) :
    Consistent (after events) := by
  induction events using List.reverseRecOn with
  | nil => exact .inl ⟨rfl, rfl⟩
  | append_singleton events e ih =>
    have hcons := ih h.earlier
    rw [after_append_singleton]
    cases e with
    | message m => exact (handle_refines (e := .message m) hcons trivial).1
    | getDepth dmap saves =>
      have hsaves := recordFrame_saves (h.last dmap saves rfl) dmap
      have hgood : handle (.getDepth dmap saves) (after events) =
          handle (.getDepth dmap true) (after events) := by
        rw [handle, handle, getDepth, getDepth, hsaves]
      rw [hgood]
      exact (handle_refines (e := .getDepth dmap true) hcons rfl).1

omit [Field K] [LinearOrder K] [FloorRing K] in
lemma length_lt_of_consistent {c : DepthCamera K α} (h : Consistent c) : c.saveDepth.length < 20 := by
  cases h with
  | inl hidle => simp [hidle.2]
  | inr hpending => exact hpending.2

omit [FloorRing K] in
lemma frames_message (m : Message K) (later : List (Event K α)) :
    frames (.message m :: later) = frames later := by
  cases m with
  | capture arg => by_cases harg : arg = .number 1 <;> simp [frames, input, items, harg]
  | rangeMin x => rfl
  | rangeMax x => rfl
  | zoom x => rfl
  | aim x y => rfl

omit [FloorRing K] in
lemma frames_getDepth (dmap : α) (saves : Bool) (later : List (Event K α)) :
    frames (.getDepth dmap saves :: later) = dmap :: frames later := rfl

/-- While a capture is pending each frame brings the attempt nearer. -/
lemma attemptsWithin_of_pending {before later : List (Event K α)} {n : ℕ}
    (hcnt : (after before).savecnt = 20) (hlen : (after before).saveDepth.length+n = 20) (hn : 0 < n)
    (hframes : n ≤ (frames later).length) : AttemptsWithin n before later := by
  induction later generalizing before n with
  | nil => simp [frames, items] at hframes; omega
  | cons e later ih =>
    have hnext := after_append_singleton before e
    cases e with
    | message m =>
      obtain ⟨hbuf, hcnt'⟩ := handleMessage_capture m (after before)
      rw [handle, Outcome.state_done] at hnext
      have hrest : AttemptsWithin n (before ++ [.message m]) later :=
        ih (by rw [hnext]; omega) (by rw [hnext, hbuf, hlen]) hn (by rwa [frames_message] at hframes)
      obtain ⟨between, dmap, saves, rest, hlater, hshort, hattempt⟩ := hrest
      refine ⟨.message m :: between, dmap, saves, rest, by rw [hlater]; rfl, ?_, ?_⟩
      · rwa [frames_message]
      · rwa [List.append_cons]
    | getDepth dmap saves =>
      by_cases hattempt : Attempts (after before)
      · exact ⟨[], dmap, saves, later, rfl, hn, by rwa [List.append_nil]⟩
      · obtain ⟨hcnt', hbuf', -⟩ := getDepth_recorded dmap saves (after before)
        rw [recordFrame_kept (by omega) hattempt, Outcome.state_done] at hcnt' hbuf'
        rw [handle] at hnext
        rw [← hnext] at hcnt' hbuf'
        rw [frames_getDepth, List.length_cons] at hframes
        have hlen' : (after (before ++ [.getDepth dmap saves])).saveDepth.length+(n-1) = 20 := by
          rw [hbuf', List.length_append, List.length_singleton]
          omega
        have hn' : 0 < n-1 := by
          unfold Attempts at hattempt
          omega
        obtain ⟨between, d, s, rest, hlater, hshort, hlast⟩ :=
          ih (hcnt'.trans hcnt) hlen' hn' (by omega)
        refine ⟨.getDepth dmap saves :: between, d, s, rest, by rw [hlater]; rfl, ?_, ?_⟩
        · rw [frames_getDepth, List.length_cons]
          omega
        · rwa [List.append_cons]

lemma AttemptsWithin.mono {n m : ℕ} {before later : List (Event K α)} (h : AttemptsWithin n before later)
    (hnm : n ≤ m) : AttemptsWithin m before later := by
  obtain ⟨between, dmap, saves, rest, hlater, hshort, hattempt⟩ := h
  exact ⟨between, dmap, saves, rest, hlater, hshort.trans_le hnm, hattempt⟩

/-- Capture recovers in exactly the runs in which no call of `savemat` raises. -/
theorem recovers_iff (events : List (Event K α)) : Recovers events ↔ EverySaveSucceeds events := by
  constructor
  · rintro h before _ later hsplit dmap saves rfl hattempt
    cases saves with
    | true => rfl
    | false =>
      have hlt := h.bounded (before ++ [.getDepth dmap false]) later (by rw [hsplit, List.append_cons])
      rw [(stuck_of_failed hattempt dmap).2] at hlt
      exact absurd hlt (lt_irrefl 20)
  · intro h
    constructor
    · intro before later hsplit hframes
      have hcons : Consistent (after before) := by
        rw [hsplit] at h
        exact consistent_after h.earlier
      have hlt := length_lt_of_consistent hcons
      have hcapture : after (before ++ [.message (.capture (.number 1))]) =
          { after before with savecnt := 20 } := by
        rw [after_append_singleton]
        simp [handle, handleMessage, captureHandler]
      have hbuf : (after (before ++ [.message (.capture (.number 1))])).saveDepth =
          (after before).saveDepth := by rw [hcapture]
      have hpending : AttemptsWithin (20-(after before).saveDepth.length)
          (before ++ [.message (.capture (.number 1))]) later :=
        attemptsWithin_of_pending (by rw [hcapture]) (by rw [hbuf]; omega) (by omega) (by omega)
      exact hpending.mono (Nat.sub_le _ _)
    · intro before later hsplit
      rw [hsplit] at h
      exact length_lt_of_consistent (consistent_after h.earlier)

def failedSave : List (Event ℚ ℕ) :=
  .message (.capture (.number 1)) :: (List.range 19).map (.getDepth · true) ++ [.getDepth 19 false]

/-- After a save which raised the buffer stays full, and the next request is never served. -/
theorem not_recovers_failedSave :
    ¬ Recovers failedSave ∧
    ∀ later, ¬ AttemptsWithin 20 (failedSave ++ [.message (.capture (.number 1))]) later := by
  have hstuck : Stuck (after failedSave) := by unfold Stuck; decide +kernel
  constructor
  · intro h
    have hlt := h.bounded failedSave [] (by simp)
    rw [hstuck.2] at hlt
    exact absurd hlt (lt_irrefl 20)
  · rintro later ⟨between, dmap, saves, rest, -, -, hattempt⟩
    rw [List.append_assoc] at hattempt
    exact (stuck_forever hstuck _).2 hattempt

end WaterHarp.CaptureRecovery
