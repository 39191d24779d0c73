import WaterHarp.BurstRecorder
import WaterHarp.CameraState

/-! The capture of raw frames by `DepthCamera`: while every `savemat` succeeds,
the counter and the buffer implement a recorder of bursts of twenty frames. -/
namespace WaterHarp.CameraCapture
open Program CameraState BurstRecorder

variable {K α : Type*} [Field K] [LinearOrder K] [FloorRing K]

/-- The call of `savemat`, if the event makes one, succeeds. -/
def Saves : Event K α → Prop
  | .getDepth _ saves => saves = true
  | .message _ => True

def input : Event K α → Input α
  | .message (.capture arg) => if arg = .number 1 then .trigger else .skip
  | .message _ => .skip
  | .getDepth dmap _ => .item dmap

def Consistent (c : DepthCamera K α) : Prop :=
  c.savecnt = 0 ∧ c.saveDepth = [] ∨ c.savecnt = 20 ∧ c.saveDepth.length < 20

/-- The counter and the buffer as one optional recording. -/
def recorder (c : DepthCamera K α) : Recorder α :=
  ⟨if c.savecnt = 0 then none else some c.saveDepth, c.files⟩

omit [Field K] [LinearOrder K] [FloorRing K] in
lemma recordFrame_refines {c : DepthCamera K α} (h : Consistent c) (dmap : α) :
    Consistent (recordFrame dmap true c).state ∧
    recorder (recordFrame dmap true c).state = step 20 (recorder c) (.item dmap) := by
  rcases h with ⟨hcnt, hbuf⟩ | ⟨hcnt, hlen⟩
  · have hidle : recordFrame dmap true c = .done c := by simp [recordFrame, hcnt]
    rw [hidle, Outcome.state_done]
    exact ⟨Or.inl ⟨hcnt, hbuf⟩, by simp [recorder, hcnt, step]⟩
  · by_cases hfull : c.saveDepth.length+1 = 20
    · have hsave : recordFrame dmap true c = .done { c with
          files := c.files ++ [c.saveDepth ++ [dmap]], saveDepth := [], savecnt := 0 } := by
        simp [recordFrame, hcnt, hlen, hfull]
      rw [hsave, Outcome.state_done]
      exact ⟨Or.inl ⟨rfl, rfl⟩, by simp [recorder, hcnt, step, hfull]⟩
    · have hkeep : recordFrame dmap true c = .done { c with saveDepth := c.saveDepth ++ [dmap] } := by
        simp [recordFrame, hcnt, hlen, hfull]
      rw [hkeep, Outcome.state_done]
      refine ⟨Or.inr ⟨hcnt, by simp; omega⟩, by simp [recorder, hcnt, step, hfull]⟩

omit [FloorRing K] in
lemma handleMessage_refines {c : DepthCamera K α} (h : Consistent c) (m : Message K) :
    Consistent (handleMessage m c) ∧
    recorder (handleMessage m c) = step 20 (recorder c) (input (.message m : Event K α)) := by
  cases m with
  | capture arg =>
    by_cases harg : arg = .number 1
    · simp only [handleMessage, captureHandler, if_pos harg, input]
      rcases h with ⟨hcnt, hbuf⟩ | ⟨hcnt, hlen⟩
      · exact ⟨Or.inr ⟨rfl, by simp [hbuf]⟩, by simp [recorder, hcnt, hbuf, step]⟩
      · exact ⟨Or.inr ⟨rfl, hlen⟩, by simp [recorder, hcnt, step]⟩
    · simp only [handleMessage, captureHandler, if_neg harg, input]
      exact ⟨h, rfl⟩
  | rangeMin x => exact ⟨h, rfl⟩
  | rangeMax x => exact ⟨h, rfl⟩
  | zoom x => exact ⟨h, rfl⟩
  | aim x y => exact ⟨h, rfl⟩

lemma handle_refines {c : DepthCamera K α} (h : Consistent c) {e : Event K α} (he : Saves e) :
    Consistent (handle e c).state ∧ recorder (handle e c).state = step 20 (recorder c) (input e) := by
  cases e with
  | message m => exact handleMessage_refines h m
  | getDepth dmap saves =>
    obtain rfl : saves = true := he
    obtain ⟨hcnt, hbuf, hfiles⟩ := getDepth_recorded dmap true c
    obtain ⟨hcons, hrec⟩ := recordFrame_refines h dmap
    refine ⟨?_, ?_⟩
    · rw [Consistent, handle, hcnt, hbuf]
      exact hcons
    · rw [recorder, handle, hcnt, hbuf, hfiles]
      exact hrec

theorem after_refines {events : List (Event K α)} (h : ∀ e ∈ events, Saves e) :
    Consistent (after events) ∧ recorder (after events) = run 20 (events.map input) := by
  induction events using List.reverseRecOn with
  | nil => exact ⟨Or.inl ⟨rfl, rfl⟩, rfl⟩
  | append_singleton events e ih =>
    obtain ⟨hcons, hrec⟩ := ih fun x hx => h x (by simp [hx])
    obtain ⟨hcons', hrec'⟩ := handle_refines hcons (h e (by simp))
    rw [after_append_singleton, List.map_append, List.map_singleton, run_append_singleton, ← hrec]
    exact ⟨hcons', hrec'⟩

def frames (events : List (Event K α)) : List α := items (events.map input)

/-- A capture message with argument 1 came when none was pending and `p` frames had been read. -/
def CaptureBegan (events : List (Event K α)) (p : ℕ) : Prop :=
  ∃ earlier later, events = earlier ++ .message (.capture (.number 1)) :: later ∧
    (after earlier).savecnt = 0 ∧ (frames earlier).length = p

omit [FloorRing K] in
lemma input_eq_trigger {e : Event K α} (h : input e = .trigger) :
    e = .message (.capture (.number 1)) := by
  match e, h with
  | .message (.capture arg), h =>
    by_cases harg : arg = .number 1
    · rw [harg]
    · simp [input, harg] at h

lemma captureBegan_of_began {events : List (Event K α)} (h : ∀ e ∈ events, Saves e) {p : ℕ}
    (hp : Began 20 (events.map input) p) : CaptureBegan events p := by
  obtain ⟨before, later, hsplit, hidle, hlen⟩ := hp
  obtain ⟨earlier, rest, rfl, rfl, hrest⟩ := List.map_eq_append_iff.mp hsplit
  obtain ⟨e, later, rfl, he, rfl⟩ := List.map_eq_cons_iff.mp hrest
  obtain rfl := input_eq_trigger he
  refine ⟨earlier, later, rfl, ?_, hlen⟩
  have hearlier : ∀ x ∈ earlier, Saves x := fun x hx => h x (List.mem_append_left _ hx)
  rw [← (after_refines hearlier).2, recorder] at hidle
  by_contra hne
  simp [hne] at hidle

/-- Between calls the counter and the buffer agree. Every file holds the twenty frames which
follow the message that began its capture, no frame is in two files, the buffer holds the
frames read since its own message, and without a pending capture a frame is not recorded. -/
theorem captures_recorded (events : List (Event K α)) (h : ∀ e ∈ events, Saves e) :
    Consistent (after events) ∧
    (∃ starts, List.Forall₂ (fun p file => CaptureBegan events p ∧ file.length = 20 ∧
          file = ((frames events).drop p).take 20) starts (after events).files ∧
        starts.Pairwise (fun p q => p+20 ≤ q) ∧
        ((after events).savecnt = 20 → ∃ p, CaptureBegan events p ∧
          (after events).saveDepth = (frames events).drop p ∧ ∀ q ∈ starts, q+20 ≤ p)) ∧
    ∀ dmap, (after events).savecnt = 0 →
      (after (events ++ [.getDepth dmap true])).saveDepth = [] ∧
      (after (events ++ [.getDepth dmap true])).files = (after events).files := by
  obtain ⟨hcons, hrec⟩ := after_refines h
  obtain ⟨starts, hist⟩ := run_history (by norm_num : 0 < 20) (events.map input)
  have hfiles : (after events).files = (run 20 (events.map input)).batches := by rw [← hrec]; rfl
  refine ⟨hcons, ⟨starts, ?_, hist.apart, fun hcnt => ?_⟩, fun dmap hcnt => ?_⟩
  · rw [hfiles]
    exact hist.bursts.imp fun p file hb => ⟨captureBegan_of_began h hb.1, hb.length, hb.2.2⟩
  · have hcur : (run 20 (events.map input)).current = some (after events).saveDepth := by
      rw [← hrec, recorder, hcnt]
      rfl
    obtain ⟨-, p, hbegan, -, hdrop, hstarts⟩ := hist.current _ hcur
    exact ⟨p, captureBegan_of_began h hbegan, hdrop, hstarts⟩
  · obtain ⟨hcnt', hbuf', hfiles'⟩ := getDepth_recorded dmap true (after events)
    have hidle : recordFrame dmap true (after events) = .done (after events) := by
      simp [recordFrame, hcnt]
    rw [hidle, Outcome.state_done] at hbuf' hfiles'
    have hempty : (after events).saveDepth = [] := by
      rcases hcons with ⟨-, hbuf⟩ | ⟨hcnt'', -⟩
      · exact hbuf
      · omega
    rw [after_append_singleton]
    exact ⟨hbuf'.trans hempty, hfiles'⟩

theorem captures_recorded_twice :
    let events : List (Event ℚ ℕ) := .message (.capture (.number 1)) ::
      (List.range 10).map (.getDepth · true) ++ .message (.capture (.number 1)) ::
      (List.range 11).map (.getDepth · true)
    (Consistent (after events) ∧
    (∃ starts, List.Forall₂ (fun p file => CaptureBegan events p ∧ file.length = 20 ∧
          file = ((frames events).drop p).take 20) starts (after events).files ∧
        starts.Pairwise (fun p q => p+20 ≤ q) ∧
        ((after events).savecnt = 20 → ∃ p, CaptureBegan events p ∧
          (after events).saveDepth = (frames events).drop p ∧ ∀ q ∈ starts, q+20 ≤ p)) ∧
    ∀ dmap, (after events).savecnt = 0 →
      (after (events ++ [.getDepth dmap true])).saveDepth = [] ∧
      (after (events ++ [.getDepth dmap true])).files = (after events).files) ∧
    (after events).files = [List.range 10 ++ List.range 10] := by
  refine ⟨captures_recorded _ fun e he => ?_, by decide +kernel⟩
  simp only [List.mem_append, List.mem_cons, List.mem_map] at he
  rcases he with (rfl | ⟨k, -, rfl⟩) | rfl | ⟨k, -, rfl⟩ <;> trivial

end WaterHarp.CameraCapture
