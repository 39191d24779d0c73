import WaterHarp.AudioNotes
import WaterHarp.VideoTexture

/-! `WaterHarp.run`: every frame from the camera is drawn, scanned and played.
The notes which sound after a frame are a function of that frame alone. -/
namespace WaterHarp.HarpRun
open Program NoteStream PythonValues StreamDetector AudioNotes VideoTexture

/-- The `WaterHarp` object, the camera apart. -/
structure Harp where
  dtex : Texture 320 240
  audio : WaterHarpAudio

def fresh : Harp := ⟨blank, init⟩

def runFrame (dmap : DMap) (s : Harp) : Outcome PyError Harp :=
  ((playVideo dmap s.dtex).map fun dtex => { s with dtex }).bind fun s =>
    match scan dmap with
    | .raised e _ => .raised e s
    | .done v => (playNotes v.streamIndicators s.audio).map fun audio => { s with audio }

def run (frames : List DMap) : Outcome PyError Harp := runAll runFrame frames fresh

def indicators (dmap : DMap) : List ℚ := (List.range 16).map (indicator dmap)

lemma indicators_getD (dmap : DMap) {i : ℕ} (hi : i < 16) :
    (indicators dmap).getD i 0 = indicator dmap i := by
  rw [List.getD_eq_getElem _ _ (by simpa [indicators] using hi)]
  simp [indicators]

lemma indicators_volumes (dmap : DMap) : Volumes (indicators dmap) := by
  refine ⟨by simp [indicators], fun volume hv => ?_⟩
  obtain ⟨i, -, rfl⟩ := List.mem_map.mp hv
  rcases indicator_range dmap i with h | h
  · exact h.ge
  · linarith [h.1]

lemma indicators_not_loud (dmap : DMap) (last : List ℚ) {i : ℕ} (hi : i < 16) :
    ¬ StartsLoud last (indicators dmap) i := by
  rintro ⟨-, hl⟩
  unfold Loud at hl
  rw [indicators_getD dmap hi] at hl
  rcases indicator_range dmap i with h | h <;> linarith

lemma indicators_ne_threshold (dmap : DMap) {i : ℕ} (hi : i < 16) :
    (indicators dmap).getD i 0 ≠ 1/1000 := by
  rw [indicators_getD dmap hi]
  rcases indicator_range dmap i with h | h
  · rw [h]
    norm_num
  · exact fun he => by linarith [h.1]

lemma indicator_pos_iff {dmap : DMap} {i : ℕ} : 1/1000 < indicator dmap i ↔ Touched dmap i := by
  by_cases h : Touched dmap i
  · exact iff_of_true (by linarith [(indicator_of_touched h).1]) h
  · exact iff_of_false (by rw [indicator_of_not_touched h]; norm_num) h

structure Live (s : Harp) (array : List ℚ) : Prop where
  ready : Ready s.audio array
  stops : StopsOnly s.audio
  offThreshold : ∀ i < 16, array.getD i 0 ≠ 1/1000

lemma fresh_live : Live fresh (List.replicate 16 0) := by
  refine ⟨init_ready, trivial, fun i hi => ?_⟩
  rw [List.getD_eq_getElem _ _ (by simpa using hi), List.getElem_replicate]
  norm_num

lemma playVideo_done (dmap : DMap) (dtex : Texture 320 240) : ∃ t, playVideo dmap dtex = .done t := by
  by_cases hflat : Flat dmap
  · exact ⟨dtex, playVideo_flat (by norm_num) (by norm_num) hflat dtex⟩
  · obtain ⟨-, -, t, -, -, ht, -⟩ := playVideo_drawn (by norm_num) (by norm_num) hflat dtex
    exact ⟨t, ht⟩

theorem runFrame_spec {s : Harp} {array : List ℚ} (h : Live s array) (dmap : DMap) :
    ∃ t, runFrame dmap s = .done t ∧ playVideo dmap s.dtex = .done t.dtex ∧
      Live t (indicators dmap) := by
  obtain ⟨dtex, hdtex⟩ := playVideo_done dmap s.dtex
  obtain ⟨b, hb, hrec, hsync, hstops⟩ := playNotes_spec h.ready (indicators_volumes dmap)
    (fun i hi => indicators_not_loud dmap array hi)
  refine ⟨⟨dtex, b⟩, ?_, hdtex, ⟨hrec, by simp [indicators], hsync.congr fun i hi => ?_⟩,
    hstops h.offThreshold h.stops, fun i hi => indicators_ne_threshold dmap hi⟩
  · have hscan : scan dmap = .done ⟨indicators dmap, 0⟩ := scan_spec dmap
    simp only [runFrame, hdtex, hscan, Outcome.map_done, Outcome.bind_done, hb]
  · exact heard_iff.mpr fun hs => indicators_ne_threshold dmap hi hs.2

lemma run_append_singleton (frames : List DMap) (dmap : DMap) :
    run (frames ++ [dmap]) = (run frames).bind (runFrame dmap) :=
  runAll_append_singleton ..

theorem run_live (frames : List DMap) : ∃ s array, run frames = .done s ∧ Live s array := by
  induction frames using List.reverseRecOn with
  | nil => exact ⟨fresh, _, rfl, fresh_live⟩
  | append_singleton frames dmap ih =>
    obtain ⟨s, array, hs, hlive⟩ := ih
    obtain ⟨t, ht, -, htlive⟩ := runFrame_spec hlive dmap
    exact ⟨t, _, by rw [run_append_singleton, hs, Outcome.bind_done, ht], htlive⟩

theorem run_last (frames : List DMap) (dmap : DMap) :
    ∃ s t, run frames = .done s ∧ run (frames ++ [dmap]) = .done t ∧
      playVideo dmap s.dtex = .done t.dtex ∧ Live t (indicators dmap) := by
  obtain ⟨s, array, hs, hlive⟩ := run_live frames
  obtain ⟨t, ht, hvideo, htlive⟩ := runFrame_spec hlive dmap
  exact ⟨s, t, hs, by rw [run_append_singleton, hs, Outcome.bind_done, ht], hvideo, htlive⟩

/-- After every frame exactly the notes of the streams touched in that frame sound. -/
theorem sounding_after_frame (frames : List DMap) (dmap : DMap) :
    ∃ s, run (frames ++ [dmap]) = .done s ∧
      sounding s.audio = {note | ∃ i < 16, Touched dmap i ∧ note = scaleNote i} := by
  obtain ⟨-, t, -, ht, -, hlive⟩ := run_last frames dmap
  refine ⟨t, ht, ?_⟩
  rw [hlive.ready.synced.sounding_eq]
  ext note
  constructor
  · rintro ⟨i, hi, hon, hnote⟩
    rw [indicators_getD dmap hi, indicator_pos_iff] at hon
    exact ⟨i, hi, hon, hnote⟩
  · rintro ⟨i, hi, htouched, hnote⟩
    refine ⟨i, hi, ?_, hnote⟩
    rwa [indicators_getD dmap hi, indicator_pos_iff]

/-- A run never raises, its messages are well formed, no start repeats and no stop is orphaned. -/
theorem run_messages (frames : List DMap) :
    ∃ s, run frames = .done s ∧ (∀ c ∈ s.audio.midiOutport, WellFormed c) ∧
      Throughout Orderly ∅ (commands s.audio) ∧
      ∀ note v w before between after,
        commands s.audio = before ++ .on note v :: between ++ .on note w :: after →
        ∃ c ∈ between, Ends note c := by
  obtain ⟨s, array, hs, hlive⟩ := run_live frames
  have hstarts := hlive.ready.synced.starts
  refine ⟨s, hs, hlive.ready.synced.wellFormed, hstarts.and hlive.stops, ?_⟩
  intro note v w before between after he
  rw [he] at hstarts
  exact ended_between_starts hstarts

end WaterHarp.HarpRun
