import WaterHarp.AudioNotes

/-! Runs of `play_notes` over arbitrary volumes. The comparison which stops a
note is strict where the others are not, so a stream which falls exactly onto
the threshold keeps sounding. The runs without such a step are characterised. -/
namespace WaterHarp.AudioThreshold
open Program NoteStream AudioNotes

/-- The object after these calls by a caller which survives their exceptions. -/
def afterCalls (calls : List (List ℚ)) : WaterHarpAudio := persist playNotes calls init

/-- After every call exactly the streams above the threshold sound, and no
sounding note is ever started. -/
def FollowsVolumes (calls : List (List ℚ)) : Prop :=
  (∀ before array after, calls = before ++ array :: after → ∀ i < 16,
    (scaleNote i ∈ sounding (afterCalls (before ++ [array])) ↔ 1/1000 < array.getD i 0)) ∧
  Throughout StartsSilent ∅ (commands (afterCalls calls))

/-- From one array to the next no stream falls exactly onto the threshold, and none starts loud. -/
def Clean (last array : List ℚ) : Prop := ∀ i < 16,
  ¬ (1/1000 < last.getD i 0 ∧ array.getD i 0 = 1/1000) ∧ ¬ StartsLoud last array i

def CleanCalls (calls : List (List ℚ)) : Prop := List.IsChain Clean (List.replicate 16 0 :: calls)

lemma afterCalls_append_singleton (calls : List (List ℚ)) (array : List ℚ) :
    afterCalls (calls ++ [array]) = (playNotes array (afterCalls calls)).state :=
  persist_append_singleton ..

def lastArray (calls : List (List ℚ)) : List ℚ := calls.getLastD (List.replicate 16 0)

lemma cleanCalls_append_singleton {calls : List (List ℚ)} {array : List ℚ} :
    CleanCalls (calls ++ [array]) ↔ CleanCalls calls ∧ Clean (lastArray calls) array := by
  rw [CleanCalls, ← List.cons_append, List.isChain_append]
  simp [CleanCalls, lastArray, List.getLast?_cons]

lemma CleanCalls.earlier {calls later : List (List ℚ)} (h : CleanCalls (calls ++ later)) :
    CleanCalls calls := by
  rw [CleanCalls, ← List.cons_append] at h
  exact h.left_of_append

lemma clean_call {a : WaterHarpAudio} {last array : List ℚ} (h : Ready a last) (harray : Volumes array)
    (hclean : Clean last array) : Ready (playNotes array a).state array := by
  obtain ⟨b, hb, hrec, hsync, -⟩ := playNotes_spec h harray (fun i hi => (hclean i hi).2)
  rw [hb, Outcome.state_done]
  exact ⟨hrec, harray.1, hsync.congr fun i hi => heard_iff.mpr (hclean i hi).1⟩

lemma unclean_call {a : WaterHarpAudio} {last array : List ℚ} (h : Ready a last) (harray : Volumes array)
    (hclean : ¬ Clean last array) :
    ∃ i < 16, ¬ (scaleNote i ∈ sounding (playNotes array a).state ↔ 1/1000 < array.getD i 0) := by
  by_cases hloud : ∃ i < 16, StartsLoud last array i
  · obtain ⟨i, hi, hl⟩ := hloud
    obtain ⟨b, hb, j, hj, hlj, hsilent⟩ := playNotes_loud h harray hi hl
    refine ⟨j, hj, fun hiff => ?_⟩
    rw [hb, Outcome.state_raised] at hiff
    exact hsilent (hiff.mpr (lt_of_lt_of_le (by norm_num) hlj.2))
  · push Not at hloud
    obtain ⟨b, hb, -, hsync, -⟩ := playNotes_spec h harray hloud
    have hslip : ∃ i < 16, 1/1000 < last.getD i 0 ∧ array.getD i 0 = 1/1000 := by
      by_contra hn
      push Not at hn
      exact hclean fun i hi => ⟨fun hs => hn i hi hs.1 hs.2, hloud i hi⟩
    obtain ⟨i, hi, hs⟩ := hslip
    refine ⟨i, hi, ?_⟩
    rw [hb, Outcome.state_done, hsync.tracks i hi]
    exact fun hiff => heard_iff.mp hiff hs

lemma cleanCalls_ready {calls : List (List ℚ)} (harrays : ∀ array ∈ calls, Volumes array)
    (h : CleanCalls calls) : Ready (afterCalls calls) (lastArray calls) := by
  induction calls using List.reverseRecOn with
  | nil => exact init_ready
  | append_singleton calls array ih =>
    obtain ⟨hcalls, hclean⟩ := cleanCalls_append_singleton.mp h
    have hready := ih (fun x hx => harrays x (by simp [hx])) hcalls
    rw [afterCalls_append_singleton, lastArray, List.getLastD_concat]
    exact clean_call hready (harrays array (by simp)) hclean

lemma cleanCalls_of_sounding {calls : List (List ℚ)} (harrays : ∀ array ∈ calls, Volumes array)
    (h : ∀ before array after, calls = before ++ array :: after → ∀ i < 16,
      (scaleNote i ∈ sounding (afterCalls (before ++ [array])) ↔ 1/1000 < array.getD i 0)) :
    CleanCalls calls := by
  induction calls using List.reverseRecOn with
  | nil => exact List.isChain_singleton _
  | append_singleton calls array ih =>
    have hinit : ∀ x ∈ calls, Volumes x := fun x hx => harrays x (by simp [hx])
    have hcalls := ih hinit fun before x after he =>
      h before x (after ++ [array]) (by rw [he, List.append_assoc, List.cons_append])
    refine cleanCalls_append_singleton.mpr ⟨hcalls, ?_⟩
    by_contra hn
    obtain ⟨i, hi, hwrong⟩ :=
      unclean_call (cleanCalls_ready hinit hcalls) (harrays array (by simp)) hn
    apply hwrong
    rw [← afterCalls_append_singleton]
    exact h calls array [] rfl i hi

/-- The sounding notes follow the volumes in exactly the clean runs. -/
theorem followsVolumes_iff (calls : List (List ℚ)) (harrays : ∀ array ∈ calls, Volumes array) :
    FollowsVolumes calls ↔ CleanCalls calls := by
  constructor
  · exact fun h => cleanCalls_of_sounding harrays h.1
  · intro h
    refine ⟨?_, (cleanCalls_ready harrays h).synced.starts⟩
    rintro before array after rfl i hi
    rw [List.append_cons] at h harrays
    have hready := cleanCalls_ready (fun x hx => harrays x (List.mem_append_left _ hx)) h.earlier
    rw [hready.synced.tracks i hi, lastArray, List.getLastD_concat]

/-- A note which starts, stops and starts again. -/
theorem followsVolumes_iff_half :
    FollowsVolumes [(1/2 : ℚ) :: List.replicate 15 0, List.replicate 16 0, 1/2 :: List.replicate 15 0] ↔
      CleanCalls [(1/2 : ℚ) :: List.replicate 15 0, List.replicate 16 0, 1/2 :: List.replicate 15 0] :=
  followsVolumes_iff _ (by
    intro array harray
    simp only [List.mem_cons, List.not_mem_nil, or_false] at harray
    rcases harray with rfl | rfl | rfl <;> exact ⟨rfl, by simp⟩)

/-- A note which falls to exactly the threshold sounds on. -/
theorem not_followsVolumes_at_threshold :
    ¬ ∀ calls : List (List ℚ), (∀ array ∈ calls, Volumes array) → FollowsVolumes calls := by
  intro h
  have hcalls := h [1/2 :: List.replicate 15 0, 1/1000 :: List.replicate 15 0] (by
    intro array harray
    simp only [List.mem_cons, List.not_mem_nil, or_false] at harray
    rcases harray with rfl | rfl <;> exact ⟨rfl, by simp⟩)
  have hport : (afterCalls [1/2 :: List.replicate 15 0, 1/1000 :: List.replicate 15 0]).midiOutport =
      [.send ⟨.noteOn, 0, 48, 63⟩] := by decide +kernel
  have hnot := hcalls.1 [1/2 :: List.replicate 15 0] _ [] rfl 0 (by norm_num)
  rw [List.singleton_append, sounding, commands, hport] at hnot
  have hon : scaleNote 0 ∈ active ∅ ([PortCall.send ⟨.noteOn, 0, 48, 63⟩].map PortCall.command) := by
    simp [PortCall.command, scaleNote, cMixolydianScale]
  exact absurd (hnot.mp hon) (by norm_num)

end WaterHarp.AudioThreshold
