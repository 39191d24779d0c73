import WaterHarp.HeaderRoundTrip
import WaterHarp.Rounding
import WaterHarp.Timeline

/-! `notes2file.m` draws a melody as an image, one row for each pitch and one
column for each frame, and prints the inverted image with `convert`. -/
namespace WaterHarp.MelodyImage
open Program EventLog Rounding Timeline OctaveImage SketchWorld Showline HeaderRoundTrip

def framePeriod : ℚ := 1/100
def bpm : ℚ := 120
def middleC : ℤ := 60
def basenote : ℤ := middleC-2

def durations (beatdurs : List ℚ) : List ℚ := beatdurs.map fun d => d*60/bpm/framePeriod

/-- `sum(durs(1:i))`. -/
def sumTo (durs : List ℚ) (i : ℕ) : Option ℚ := if i ≤ durs.length then some (durs.take i).sum else none

/-- `im(row,first:last)=1` with the indices as computed. -/
def assignOnes (im : Mat) (row : ℤ) (first : ℚ) (last : ℤ) : Outcome OctaveError Mat :=
  if row < 1 then .raised .badIndex im
  else if (last : ℚ) < first then .done im
  else if first < 1 ∨ first.den ≠ 1 then .raised .badIndex im
  else .done (im.setOnes row.toNat first.num.toNat last.toNat)

/-- The round of the loop for the note of index `n+1`. -/
def drawNote (durs : List ℚ) (n : ℕ) (note : ℤ) (im : Mat) : Outcome OctaveError Mat :=
  match sumTo durs n, sumTo durs (n+1) with
  | some before, some finish =>
    let start := before+1
    assignOnes im (note-basenote+1) start (halfAway ((start*3+finish)/4))
  | _, _ => .raised .badIndex im

def notesImage (notes : List ℤ) (beatdurs : List ℚ) : Outcome OctaveError Mat :=
  let durs := durations beatdurs
  if durs.sum.den = 1 then forEach (drawNote durs) 0 notes (Mat.zeros 16 durs.sum.num.toNat)
  else .raised .badIndex (Mat.zeros 0 0)

def notes2file (ofile : List Char) (notes : List ℤ) (beatdurs : List ℚ) :
    Outcome OctaveError (List Char) :=
  match notesImage notes beatdurs with
  | .done im => convert im.oneMinus ofile
  | .raised e _ => .raised e []

/-! Notes and their frames. -/

/-- The first and the last frame of note `k`, counted from 0, and where it stops sounding. -/
def start (durs : List ℕ) (k : ℕ) : ℕ := startOf durs k+1
def finish (durs : List ℕ) (k : ℕ) : ℕ := startOf durs (k+1)
def soundsTo (durs : List ℕ) (k : ℕ) : ℤ := halfAway ((3*(start durs k : ℚ)+finish durs k)/4)

structure Melody (notes : List ℤ) (durs : List ℕ) : Prop where
  length : durs.length = notes.length
  pitches : ∀ note ∈ notes, 58 ≤ note ∧ note ≤ 73
  frames : ∀ d ∈ durs, 1 ≤ d

variable {notes : List ℤ} {durs : List ℕ}

lemma soundsTo_eq (durs : List ℕ) (k : ℕ) :
    soundsTo durs k = ((3*start durs k+finish durs k+2)/4 : ℕ) := by
  rw [soundsTo, ← halfAway_quarters (K := ℚ)]
  push_cast
  rfl

lemma finish_eq (h : Melody notes durs) {k : ℕ} (hk : k < notes.length) :
    ∃ hd : k < durs.length, start durs k+durs[k] = finish durs k+1 ∧ 1 ≤ durs[k] := by
  have hd : k < durs.length := h.length ▸ hk
  refine ⟨hd, ?_, h.frames _ (List.getElem_mem hd)⟩
  rw [start, finish, startOf_succ hd]
  omega

lemma soundsTo_range (h : Melody notes durs) {k : ℕ} (hk : k < notes.length) :
    (start durs k : ℤ) ≤ soundsTo durs k ∧ soundsTo durs k ≤ finish durs k := by
  obtain ⟨_, hfinish, hpos⟩ := finish_eq h hk
  rw [soundsTo_eq]
  omega

lemma soundsTo_lt (h : Melody notes durs) {k : ℕ} (hk : k < notes.length)
    (hd : 2 ≤ durs.getD k 0) : soundsTo durs k < finish durs k := by
  obtain ⟨hlt, hfinish, _⟩ := finish_eq h hk
  rw [List.getD_eq_getElem _ _ hlt] at hd
  rw [soundsTo_eq]
  omega

def Strikes (durs : List ℕ) (k i : ℕ) : Prop := start durs k ≤ i ∧ (i : ℤ) ≤ soundsTo durs k

def InInterval (durs : List ℕ) (k i : ℕ) : Prop := start durs k ≤ i ∧ i ≤ finish durs k

lemma inInterval_unique {i k l : ℕ} (hk : InInterval durs k i) (hl : InInterval durs l i) : k = l := by
  obtain ⟨hk1, hk2⟩ := hk
  obtain ⟨hl1, hl2⟩ := hl
  rw [start] at hk1 hl1
  rw [finish] at hk2 hl2
  have hk' : startOf durs k ≤ i-1 ∧ i-1 < startOf durs (k+1) := by omega
  have hl' : startOf durs l ≤ i-1 ∧ i-1 < startOf durs (l+1) := by omega
  exact interval_unique hk' hl'

lemma Strikes.inInterval (h : Melody notes durs) {k i : ℕ} (hk : k < notes.length)
    (hs : Strikes durs k i) : InInterval durs k i := by
  have := (soundsTo_range h hk).2
  have := hs.2
  exact ⟨hs.1, by omega⟩

lemma exists_inInterval (h : Melody notes durs) {i : ℕ} (h1 : 1 ≤ i) (hi : i ≤ durs.sum) :
    ∃ k < notes.length, InInterval durs k i := by
  obtain ⟨k, hk, hlow, hhigh⟩ := exists_interval durs (show i-1 < durs.sum by omega)
  refine ⟨k, h.length ▸ hk, ?_, ?_⟩
  · rw [start]
    omega
  · rw [finish]
    omega

/-! The loop draws one note after the other. -/

lemma sumTo_cast {k : ℕ} (hk : k ≤ durs.length) :
    sumTo (durs.map fun d : ℕ => (d : ℚ)) k = some ((startOf durs k : ℕ) : ℚ) := by
  rw [sumTo, if_pos (by simpa using hk), ← List.map_take, startOf, Nat.cast_list_sum]

lemma drawNote_eq (h : Melody notes durs) {k : ℕ} (hk : k < notes.length) (im : Mat) :
    drawNote (durs.map fun d : ℕ => (d : ℚ)) k notes[k] im =
      .done (im.setOnes (notes[k]-57).toNat (start durs k) (soundsTo durs k).toNat) := by
  have hd : k < durs.length := h.length ▸ hk
  obtain ⟨hlow, -⟩ := h.pitches _ (List.getElem_mem hk)
  obtain ⟨hfirst, -⟩ := soundsTo_range h hk
  have hstart : ((startOf durs k : ℕ) : ℚ)+1 = (start durs k : ℕ) := by
    rw [start]
    push_cast
    rfl
  have hround : halfAway ((((start durs k : ℕ) : ℚ)*3+(startOf durs (k+1) : ℕ))/4) = soundsTo durs k := by
    rw [soundsTo, finish, mul_comm]
  have hrow : notes[k]-basenote+1 = notes[k]-57 := by
    simp only [basenote, middleC]
    ring
  have hle : ((start durs k : ℕ) : ℚ) ≤ (soundsTo durs k : ℤ) := by exact_mod_cast hfirst
  have hone : (1 : ℚ) ≤ (start durs k : ℕ) := by
    rw [start]
    exact_mod_cast Nat.le_add_left 1 _
  simp only [drawNote, sumTo_cast hd.le, sumTo_cast hd, hstart, hround, hrow]
  rw [assignOnes, if_neg (by omega), if_neg (not_lt.mpr hle), if_neg]
  · simp
  · simp [not_lt.mpr hone]

structure Drawn (notes : List ℤ) (durs : List ℕ) (n : ℕ) (im : Mat) : Prop where
  rows : im.rows = 16
  cols : im.cols = durs.sum
  bits : ∀ j i, im.entry j i = 0 ∨ im.entry j i = 1
  ones : ∀ j i, im.entry j i = 1 ↔
    ∃ k, ∃ hk : k < notes.length, k < n ∧ (j : ℤ) = notes[k]-57 ∧ Strikes durs k i

lemma finish_le_sum (h : Melody notes durs) {k : ℕ} (hk : k < notes.length) :
    finish durs k ≤ durs.sum := by
  rw [finish, ← startOf_length]
  exact startOf_mono durs (h.length ▸ hk)

lemma Drawn.step (h : Melody notes durs) {k : ℕ} (hk : k < notes.length) {im : Mat}
    (hdrawn : Drawn notes durs k im) :
    Drawn notes durs (k+1) (im.setOnes (notes[k]-57).toNat (start durs k) (soundsTo durs k).toNat) := by
  obtain ⟨hlow, hhigh⟩ := h.pitches _ (List.getElem_mem hk)
  obtain ⟨hfirst, hlast⟩ := soundsTo_range h hk
  have hsum := finish_le_sum h hk
  have hstart : 1 ≤ start durs k := Nat.le_add_left 1 _
  constructor
  · simp only [Mat.setOnes, hdrawn.rows]
    omega
  · simp only [Mat.setOnes, hdrawn.cols]
    omega
  · intro j i
    simp only [Mat.setOnes]
    split_ifs
    · exact .inr rfl
    · exact hdrawn.bits j i
  · intro j i
    have hnew : (j = (notes[k]-57).toNat ∧ 1 ≤ j ∧ start durs k ≤ i ∧ i ≤ (soundsTo durs k).toNat ∧ 1 ≤ i) ↔
        (j : ℤ) = notes[k]-57 ∧ Strikes durs k i := by
      rw [Strikes]
      omega
    simp only [Mat.setOnes]
    split_ifs with hstrike
    · exact ⟨fun _ => ⟨k, hk, by omega, hnew.mp hstrike⟩, fun _ => rfl⟩
    · rw [hdrawn.ones]
      constructor
      · rintro ⟨l, hl, hlk, hstruck⟩
        exact ⟨l, hl, by omega, hstruck⟩
      · rintro ⟨l, hl, hlk, hstruck⟩
        have hne : l ≠ k := by
          rintro rfl
          exact hstrike (hnew.mpr hstruck)
        exact ⟨l, hl, by omega, hstruck⟩

lemma drawn_zeros (notes : List ℤ) (durs : List ℕ) : Drawn notes durs 0 (Mat.zeros 16 durs.sum) where
  rows := rfl
  cols := rfl
  bits _ _ := .inl rfl
  ones j i := by simp [Mat.zeros]

lemma notesImage_drawn (h : Melody notes durs) {beatdurs : List ℚ}
    (hdurs : durations beatdurs = durs.map fun d : ℕ => (d : ℚ)) :
    ∃ im, notesImage notes beatdurs = .done im ∧ Drawn notes durs notes.length im := by
  have hsum : (durs.map fun d : ℕ => (d : ℚ)).sum = (durs.sum : ℕ) := by rw [Nat.cast_list_sum]
  obtain ⟨im, him, hdrawn⟩ := forEach_invariant (drawNote (durs.map fun d : ℕ => (d : ℚ))) notes
    (Drawn notes durs) (fun k hk im hdrawn => ⟨_, drawNote_eq h hk im, hdrawn.step h hk⟩)
    (Mat.zeros 16 durs.sum) (drawn_zeros notes durs)
  refine ⟨im, ?_, hdrawn⟩
  have hnum : ((durs.sum : ℕ) : ℚ).num.toNat = durs.sum := by rw [Rat.num_natCast, Int.toNat_natCast]
  simp only [notesImage, hdurs]
  rw [hsum, if_pos (Rat.den_natCast _), hnum, him]

/-- The image of a melody: each frame of a note's interval has the note's row active
until the note stops sounding, and no other row. -/
structure Draws (notes : List ℤ) (durs : List ℕ) (im : Mat) : Prop where
  rows : im.rows = 16
  cols : im.cols = durs.sum
  bits : ∀ j i, im.entry j i = 0 ∨ im.entry j i = 1
  single : ∀ i j j', im.entry j i = 1 → im.entry j' i = 1 → j = j'
  active : ∀ k, ∀ hk : k < notes.length, ∀ j i, InInterval durs k i →
    (im.entry j i = 1 ↔ (j : ℤ) = notes[k]-57 ∧ (i : ℤ) ≤ soundsTo durs k)
  sounds : ∀ k < notes.length, (start durs k : ℤ) ≤ soundsTo durs k ∧ soundsTo durs k ≤ finish durs k
  covered : ∀ i, 1 ≤ i → i ≤ durs.sum → ∃ k < notes.length, InInterval durs k i
  disjoint : ∀ i k l, InInterval durs k i → InInterval durs l i → k = l
  idle : ∀ k < notes.length, 2 ≤ durs.getD k 0 →
    soundsTo durs k < finish durs k ∧ ∀ j, im.entry j (finish durs k) = 0

lemma Drawn.active (h : Melody notes durs) {im : Mat} (hdrawn : Drawn notes durs notes.length im)
    {k : ℕ} (hk : k < notes.length) {i : ℕ} (hi : InInterval durs k i) (j : ℕ) :
    im.entry j i = 1 ↔ (j : ℤ) = notes[k]-57 ∧ (i : ℤ) ≤ soundsTo durs k := by
  rw [hdrawn.ones]
  constructor
  · rintro ⟨l, hl, -, hrow, hstruck⟩
    obtain rfl : k = l := inInterval_unique hi (hstruck.inInterval h hl)
    exact ⟨hrow, hstruck.2⟩
  · rintro ⟨hrow, hto⟩
    exact ⟨k, hk, hk, hrow, hi.1, hto⟩

lemma Drawn.draws (h : Melody notes durs) {im : Mat} (hdrawn : Drawn notes durs notes.length im) :
    Draws notes durs im where
  rows := hdrawn.rows
  cols := hdrawn.cols
  bits := hdrawn.bits
  single i j j' hj hj' := by
    obtain ⟨k, hk, -, hrow, hstruck⟩ := (hdrawn.ones j i).mp hj
    have hrow' := ((hdrawn.active h hk (hstruck.inInterval h hk) j').mp hj').1
    omega
  active _ hk j _ hi := hdrawn.active h hk hi j
  sounds _ hk := soundsTo_range h hk
  covered _ h1 hi := exists_inInterval h h1 hi
  disjoint _ _ _ hk hl := inInterval_unique hk hl
  idle k hk hd := by
    have hlt := soundsTo_lt h hk hd
    obtain ⟨_, hfinish, hpos⟩ := finish_eq h hk
    refine ⟨hlt, fun j => (hdrawn.bits j _).resolve_right fun hone => ?_⟩
    have := ((hdrawn.active h hk ⟨by omega, le_rfl⟩ j).mp hone).2
    omega

lemma bitImage_oneMinus {im : Mat} (h : Draws notes durs im) : BitImage im.oneMinus where
  rows := h.rows
  bits j i := by
    simp only [Mat.oneMinus]
    split_ifs
    · rcases h.bits j i with hb | hb <;> simp [hb]
    · exact .inl rfl

lemma pixel_oneMinus {im : Mat} (h : Draws notes durs im) {i : ℕ} (h1 : 1 ≤ i) (hi : i ≤ durs.sum)
    (r : Fin 16) : pixel im.oneMinus (r+1) i = !decide (im.entry (r+1) i = 1) := by
  have hin : 1 ≤ r.val+1 ∧ r.val+1 ≤ im.rows ∧ 1 ≤ i ∧ i ≤ im.cols := by
    rw [h.rows, h.cols]
    omega
  simp only [pixel, Mat.oneMinus, if_pos hin]
  rcases h.bits (r+1) i with hb | hb <;> simp [hb]

/-- The melody is drawn, printed, read and shown frame by frame: in the interval of note
`k` only solenoid `ord (note-58)` is driven to 0, and only until the note stops sounding. -/
def Plays (ofile : List Char) (notes : List ℤ) (beatdurs : List ℚ) (durs : List ℕ) : Prop :=
  ∃ im text ws, notesImage notes beatdurs = .done im ∧ Draws notes durs im ∧
    notes2file ofile notes beatdurs = .done text ∧ readArray (stripHeader ofile) text = some ws ∧
    ws.length = durs.sum ∧
    ∀ k, ∀ hk : k < notes.length, ∀ i, InInterval durs k i → ∀ hi : i-1 < ws.length,
      ∀ (b : Board) (w : World), Performs sketchLog (showline b ws[i-1]) w fun es w' =>
        ∀ r : Fin 16, writesTo b (ord r) es =
            [!decide ((r : ℤ) = notes[k]-58 ∧ (i : ℤ) ≤ soundsTo durs k)] ∧
          w'.level (b.solenoidEnables (ord r)) =
            !decide ((r : ℤ) = notes[k]-58 ∧ (i : ℤ) ≤ soundsTo durs k)

/-- Every melody whose notes last whole numbers of frames is played. -/
theorem melody_plays (h : Melody notes durs) (beatdurs : List ℚ)
    (hdurs : durations beatdurs = durs.map fun d : ℕ => (d : ℚ)) (ofile : List Char) :
    Plays ofile notes beatdurs durs := by
  obtain ⟨im, him, hdrawn⟩ := notesImage_drawn h hdurs
  have hdraws := hdrawn.draws h
  have hbits := bitImage_oneMinus hdraws
  obtain ⟨text, htext, hread⟩ := readArray_convert hbits.rows (columnValue_nonneg hbits) ofile
  have hshow := words_show hbits
  refine ⟨im, text, words im.oneMinus, him, hdraws, ?_, hread, hshow.length.trans hdraws.cols, ?_⟩
  · rw [notes2file, him]
    exact htext
  · intro k hk i hi hlt b w
    have h1 : 1 ≤ i := le_trans (Nat.le_add_left 1 _) hi.1
    have hsum := hi.2.trans (finish_le_sum h hk)
    refine (hshow.line b w (i-1) hlt).conseq fun es w' hline r => ?_
    have hpixel : pixel im.oneMinus (r+1) i =
        !decide ((r : ℤ) = notes[k]-58 ∧ (i : ℤ) ≤ soundsTo durs k) := by
      have hrow : ((r.val+1 : ℕ) : ℤ) = notes[k]-57 ↔ (r : ℤ) = notes[k]-58 := by omega
      have hactive := hdraws.active k hk (r+1) i hi
      rw [hrow] at hactive
      rw [pixel_oneMinus hdraws h1 hsum, decide_eq_decide.mpr hactive]
    rw [← hpixel]
    simpa only [Nat.sub_add_cancel h1] using hline.2 r

theorem melody_plays_mary : Plays "mary.h".toList [62, 61, 60] [1, 1, 1] [50, 50, 50] :=
  melody_plays ⟨rfl, by decide, by decide⟩ _ (by norm_num [durations, bpm, framePeriod]) _

end WaterHarp.MelodyImage
