import WaterHarp.HarpRun

/-! What the harp sends, told without the harp: after each frame a message for
every stream whose touch has begun or ended since the frame before. -/
namespace WaterHarp.NoteEdges
open Program Rounding PythonValues StreamDetector AudioNotes VideoTexture HarpRun

/-- The streams touched in the frame before, none when there was no frame. -/
def touchedIn : Option DMap → ℕ → Prop
  | none, _ => False
  | some dmap, i => Touched dmap i

instance decidableTouchedIn : (last : Option DMap) → (i : ℕ) → Decidable (touchedIn last i)
  | none, _ => instDecidableFalse
  | some dmap, i => inferInstanceAs (Decidable (Touched dmap i))

def startOf (dmap : DMap) (i : ℕ) : PortCall :=
  .send ⟨.noteOn, 0, scaleNote i, max (trunc (127*indicator dmap i)) 40⟩

def stopOf (i : ℕ) : PortCall := .send ⟨.noteOff, 0, scaleNote i, 127⟩

def edge (last : Option DMap) (dmap : DMap) (i : ℕ) : List PortCall :=
  if Touched dmap i ∧ ¬ touchedIn last i then [startOf dmap i]
  else if ¬ Touched dmap i ∧ touchedIn last i then [stopOf i]
  else []

def AnyTouched (dmap : DMap) : Prop := ∃ i ∈ List.range 16, Touched dmap i

instance (dmap : DMap) : Decidable (AnyTouched dmap) := inferInstanceAs (Decidable (∃ i ∈ _, _))

/-- The messages of one frame, in the order of the streams; an untouched frame resets the port. -/
def frameCalls (last : Option DMap) (dmap : DMap) : List PortCall :=
  if AnyTouched dmap then (List.range 16).flatMap (edge last dmap) else [.reset]

def calls : Option DMap → List DMap → List PortCall
  | _, [] => []
  | last, dmap :: frames => frameCalls last dmap ++ calls (some dmap) frames

/-- The volumes which the object has recorded. -/
def volumes : Option DMap → List ℚ
  | none => List.replicate 16 0
  | some dmap => indicators dmap

lemma volumes_getElem (last : Option DMap) {i : ℕ} (hi : i < 16) :
    ∃ volume, (volumes last)[i]? = some volume ∧
      (touchedIn last i ∧ 1/1000 < volume ∨ ¬ touchedIn last i ∧ volume < 1/1000) := by
  cases last with
  | none =>
    have hzero : (volumes none)[i]? = some 0 := by rw [volumes, List.getElem?_replicate, if_pos hi]
    exact ⟨0, hzero, Or.inr ⟨id, by norm_num⟩⟩
  | some dmap =>
    have hvol : (volumes (some dmap))[i]? = some (indicator dmap i) := by
      simp [volumes, indicators, hi]
    refine ⟨_, hvol, ?_⟩
    by_cases h : Touched dmap i
    · exact Or.inl ⟨h, indicator_pos_iff.mpr h⟩
    · rw [indicator_of_not_touched h]
      exact Or.inr ⟨h, by norm_num⟩

/-- The object of `run` after the frame `last`, with what it has sent so far. -/
def audioAfter (last : Option DMap) (sent : List PortCall) : WaterHarpAudio :=
  ⟨List.replicate 16 none, volumes last, sent⟩

lemma playStream_edge (last : Option DMap) (dmap : DMap) (sent : List PortCall) {i : ℕ} (hi : i < 16) :
    playStream i (indicator dmap i) (audioAfter last sent) =
      .done (audioAfter last (sent ++ edge last dmap i)) := by
  obtain ⟨volume, hvolume, hlast⟩ := volumes_getElem last hi
  have hidle : ∀ sent', turnOffStream i (indicator dmap i) volume (audioAfter last sent') =
      .done (audioAfter last sent') := fun _ => turnOffStream_idle rfl hi _ _
  have hrec : (audioAfter last sent).lastKinectArray[i]? = some volume := hvolume
  simp only [playStream, hrec]
  by_cases hnow : Touched dmap i
  · have hpos := indicator_pos_iff.mpr hnow
    rcases hlast with ⟨hwas, hv⟩ | ⟨hwas, hv⟩
    · rw [if_neg (fun h => absurd h.2 (by linarith)), if_neg (fun h => absurd h.1 (by linarith)),
        Outcome.bind_done, hidle]
      simp [edge, hnow, hwas]
    · have hquiet : ¬ Loud (indicator dmap i) := by
        have := (indicator_of_touched hnow).2
        unfold Loud
        linarith
      rw [if_pos ⟨hpos, hv.le⟩, playNote_eq _ hi hquiet, Outcome.bind_done]
      simp only [edge, hnow, hwas, not_false_eq_true, and_self, if_true]
      exact hidle _
  · have hzero : indicator dmap i = 0 := indicator_of_not_touched hnow
    rcases hlast with ⟨hwas, hv⟩ | ⟨hwas, hv⟩
    · rw [if_neg (fun h => absurd h.1 (by rw [hzero]; norm_num)),
        if_pos ⟨by rw [hzero]; norm_num, hv.le⟩, stopNote, sendNote_eq _ hi (by norm_num),
        Outcome.bind_done]
      simp only [edge, hnow, hwas, false_and, if_false, not_false_eq_true, and_self, if_true]
      exact hidle _
    · rw [if_neg (fun h => absurd h.1 (by rw [hzero]; norm_num)),
        if_neg (fun h => absurd h.2 (by linarith)), Outcome.bind_done, hidle]
      simp [edge, hnow, hwas]

lemma playStreams_edges (last : Option DMap) (dmap : DMap) (sent : List PortCall) :
    forEach playStream 0 (indicators dmap) (audioAfter last sent) =
      .done (audioAfter last (sent ++ (List.range 16).flatMap (edge last dmap))) := by
  have hlen : (indicators dmap).length = 16 := by simp [indicators]
  have hloop := forEach_invariant playStream (indicators dmap)
    (fun n a => a = audioAfter last (sent ++ (List.range n).flatMap (edge last dmap))) ?_
  · obtain ⟨a, ha, rfl⟩ := hloop (audioAfter last sent) (by simp)
    rw [ha, hlen]
  · rintro n hn a rfl
    rw [hlen] at hn
    have hget : (indicators dmap)[n] = indicator dmap n := by simp [indicators]
    refine ⟨_, (congrArg (playStream n · _) hget).trans (playStream_edge last dmap _ hn), ?_⟩
    simp [List.range_succ]

lemma sum_small_iff (dmap : DMap) : (indicators dmap).sum < 5/10000 ↔ ¬ AnyTouched dmap := by
  constructor
  · rintro hsum ⟨i, hi, htouched⟩
    have hle := (indicators_volumes dmap).getD_le_sum i
    have hlow := (indicator_of_touched htouched).1
    rw [indicators_getD dmap (List.mem_range.mp hi)] at hle
    linarith
  · intro hnone
    have hzero : indicators dmap = List.replicate 16 0 := by
      rw [List.eq_replicate_iff]
      refine ⟨by simp [indicators], fun volume hv => ?_⟩
      obtain ⟨i, hi, rfl⟩ := List.mem_map.mp hv
      exact indicator_of_not_touched (fun h => hnone ⟨i, hi, h⟩)
    rw [hzero]
    norm_num

lemma playNotes_frame (last : Option DMap) (dmap : DMap) (sent : List PortCall) :
    playNotes (indicators dmap) (audioAfter last sent) =
      .done (audioAfter (some dmap) (sent ++ frameCalls last dmap)) := by
  by_cases hany : AnyTouched dmap
  · have hsum : ¬ (indicators dmap).sum < 5/10000 := fun h => (sum_small_iff dmap).mp h hany
    simp only [playNotes, hsum, if_false, playStreams_edges, Outcome.bind_done, frameCalls, if_pos hany]
    rfl
  · have hsum := (sum_small_iff dmap).mpr hany
    simp only [playNotes, hsum, if_true, allNotesOff, Outcome.bind_done, frameCalls, if_neg hany]
    rfl

lemma runFrame_calls (last : Option DMap) (dmap : DMap) (dtex : Texture 320 240) (sent : List PortCall) :
    ∃ dtex', runFrame dmap ⟨dtex, audioAfter last sent⟩ =
      .done ⟨dtex', audioAfter (some dmap) (sent ++ frameCalls last dmap)⟩ := by
  obtain ⟨dtex', hdtex⟩ := playVideo_done dmap dtex
  have hscan : scan dmap = .done ⟨indicators dmap, 0⟩ := scan_spec dmap
  refine ⟨dtex', ?_⟩
  simp only [runFrame, hdtex, Outcome.map_done, Outcome.bind_done, hscan, playNotes_frame]

lemma runFrames_calls (frames : List DMap) (last : Option DMap) (dtex : Texture 320 240)
    (sent : List PortCall) :
    ∃ s, runAll runFrame frames ⟨dtex, audioAfter last sent⟩ = .done s ∧
      s.audio.midiOutport = sent ++ calls last frames := by
  induction frames generalizing last dtex sent with
  | nil => exact ⟨_, rfl, by simp [calls, audioAfter]⟩
  | cons dmap frames ih =>
    obtain ⟨dtex', hframe⟩ := runFrame_calls last dmap dtex sent
    obtain ⟨s, hs, hsent⟩ := ih (some dmap) dtex' (sent ++ frameCalls last dmap)
    refine ⟨s, by rw [runAll_cons, hframe, Outcome.bind_done, hs], ?_⟩
    rw [hsent, calls, List.append_assoc]

/-- The whole stream of a run, message for message. -/
theorem run_calls (frames : List DMap) :
    ∃ s, run frames = .done s ∧ s.audio.midiOutport = calls none frames := by
  obtain ⟨s, hs, hsent⟩ := runFrames_calls frames none blank []
  exact ⟨s, hs, hsent⟩

lemma edge_held (dmap : DMap) (i : ℕ) : edge (some dmap) dmap i = [] := by
  by_cases h : Touched dmap i <;> simp [edge, touchedIn, h]

lemma calls_append_singleton (last : Option DMap) (frames : List DMap) (dmap : DMap) :
    calls last (frames ++ [dmap]) = calls last frames ++ frameCalls (frames.getLast?.or last) dmap := by
  induction frames generalizing last with
  | nil => simp [calls]
  | cons frame frames ih =>
    have hlast : frames.getLast?.or (some frame) = (frame :: frames).getLast? := by
      cases frames with
      | nil => rfl
      | cons f fs => simp [List.getLast?_cons]
    rw [List.cons_append, calls, ih, hlast, calls, List.append_assoc]
    cases h : (frame :: frames).getLast? with
    | none => simp at h
    | some f => rfl

/-- While a touched picture does not change nothing is sent, and an untouched one resets again. -/
theorem held_frame (frames : List DMap) (dmap : DMap) :
    ∃ s t, run (frames ++ [dmap]) = .done s ∧ run (frames ++ [dmap] ++ [dmap]) = .done t ∧
      t.audio.midiOutport =
        s.audio.midiOutport ++ if AnyTouched dmap then [] else [PortCall.reset] := by
  obtain ⟨s, hs, hsent⟩ := run_calls (frames ++ [dmap])
  obtain ⟨t, ht, htsent⟩ := run_calls (frames ++ [dmap] ++ [dmap])
  refine ⟨s, t, hs, ht, ?_⟩
  have hedges : (List.range 16).flatMap (edge (some dmap) dmap) = [] :=
    List.flatMap_eq_nil_iff.mpr fun i _ => edge_held dmap i
  rw [htsent, calls_append_singleton, hsent, List.getLast?_append]
  simp [frameCalls, hedges]

end WaterHarp.NoteEdges
