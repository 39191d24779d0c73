import WaterHarp.MelodyImage

/-! Melodies with rests. The comment of `notes2file` allows the note 0, but its row
is computed like that of any other note and lies outside of the image. -/
namespace WaterHarp.MelodyRests
open Program Rounding OctaveImage MelodyImage

/-- A melody as the comment documents it. -/
structure RestMelody (notes : List ℤ) (durs : List ℕ) : Prop where
  length : durs.length = notes.length
  pitches : ∀ note ∈ notes, note = 0 ∨ 58 ≤ note ∧ note ≤ 73
  frames : ∀ d ∈ durs, 1 ≤ d

/-- The melody is written, all rows are idle in the intervals of its rests, and the
interval of a pitched note holds that note alone. -/
structure RestsSilent (ofile : List Char) (notes : List ℤ) (beatdurs : List ℚ) (durs : List ℕ)
    (im : Mat) : Prop where
  drawn : notesImage notes beatdurs = .done im
  written : ∃ text, notes2file ofile notes beatdurs = .done text
  dimensions : im.rows = 16 ∧ im.cols = durs.sum
  bits : ∀ j i, im.entry j i = 0 ∨ im.entry j i = 1
  rests : ∀ k, ∀ hk : k < notes.length, notes[k] = 0 → ∀ i, InInterval durs k i →
    ∀ j, im.entry j i = 0
  pitched : ∀ k, ∀ hk : k < notes.length, notes[k] ≠ 0 → ∀ i, InInterval durs k i →
    ∀ j, (im.entry j i = 1 ↔ (j : ℤ) = notes[k]-57 ∧ (i : ℤ) ≤ soundsTo durs k)

variable {notes : List ℤ} {durs : List ℕ}

lemma RestMelody.melody (h : RestMelody notes durs) (hrest : 0 ∉ notes) : Melody notes durs where
  length := h.length
  pitches := by
    intro note hnote
    cases h.pitches note hnote with
    | inl hzero => exact absurd (hzero ▸ hnote) hrest
    | inr hrange => exact hrange
  frames := h.frames

/-- The row of a rest is -57, whatever has been drawn before. -/
lemma drawNote_rest {k : ℕ} (hk : k < durs.length) (im : Mat) :
    drawNote (durs.map fun d : ℕ => (d : ℚ)) k 0 im = .raised .badIndex im := by
  simp only [drawNote, sumTo_cast hk.le, sumTo_cast hk]
  rw [assignOnes, if_pos (by norm_num [basenote, middleC])]

lemma notesImage_rest (h : RestMelody notes durs) (hrest : 0 ∈ notes) {beatdurs : List ℚ}
    (hdurs : durations beatdurs = durs.map fun d : ℕ => (d : ℚ)) (im : Mat) :
    notesImage notes beatdurs ≠ .done im := by
  intro hdone
  obtain ⟨before, later, rfl⟩ := List.append_of_mem hrest
  simp only [notesImage, hdurs] at hdone
  split_ifs at hdone
  obtain ⟨u, v, hround⟩ := forEach_done hdone
  have hk : before.length < durs.length := by
    rw [h.length, List.length_append, List.length_cons]
    omega
  rw [Nat.zero_add, drawNote_rest hk] at hround
  cases hround

/-- Exactly the melodies without a rest are written as documented. -/
theorem rests_silent_iff (h : RestMelody notes durs) (beatdurs : List ℚ)
    (hdurs : durations beatdurs = durs.map fun d : ℕ => (d : ℚ)) (ofile : List Char) :
    (∃ im, RestsSilent ofile notes beatdurs durs im) ↔ 0 ∉ notes := by
  constructor
  · rintro ⟨im, him⟩ hrest
    exact notesImage_rest h hrest hdurs im him.drawn
  · intro hrest
    obtain ⟨im, text, ws, him, hdraws, htext, -⟩ := melody_plays (h.melody hrest) beatdurs hdurs ofile
    refine ⟨im, him, ⟨text, htext⟩, ⟨hdraws.rows, hdraws.cols⟩, hdraws.bits, ?_, ?_⟩
    · intro k hk hzero
      exact absurd (hzero ▸ List.getElem_mem hk) hrest
    · exact fun k hk _ i hi j => hdraws.active k hk j i hi

theorem rests_silent_iff_pause :
    (∃ im, RestsSilent "pause.h".toList [62, 0, 60] [1, 1, 1] [50, 50, 50] im) ↔
      0 ∉ [(62 : ℤ), 0, 60] :=
  rests_silent_iff ⟨rfl, by decide, by decide⟩ _ (by norm_num [durations, bpm, framePeriod]) _

/-- A melody with a rest between two notes is not written. -/
theorem not_rests_silent_pause :
    ¬ ∃ im, RestsSilent "pause.h".toList [62, 0, 60] [1, 1, 1] [50, 50, 50] im := by
  have h : RestMelody [62, 0, 60] [50, 50, 50] := ⟨rfl, by decide, by decide⟩
  rintro ⟨im, him⟩
  exact notesImage_rest h (by decide) (by norm_num [durations, bpm, framePeriod]) im him.drawn

end WaterHarp.MelodyRests
