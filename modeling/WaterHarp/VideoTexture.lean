import WaterHarp.StreamDetector

/-! `WaterHarp.play_video`: a depth frame is drawn into the texture, which has
the columns of the frame first and keeps its contents between frames. -/
namespace WaterHarp.VideoTexture
open Program PythonValues StreamDetector

structure Rgb where
  red : ℕ
  green : ℕ
  blue : ℕ
  deriving DecidableEq, Repr

abbrev Texture (w h : ℕ) := Matrix (Fin w) (Fin h) Rgb

/-- `np.zeros((len(dmap[0]), len(dmap), 3), int32)`. -/
def blank {w h : ℕ} : Texture w h := fun _ _ => ⟨0, 0, 0⟩

variable {w h : ℕ}

/-- The texture and the two counters kept by hand. -/
structure Cursor (w h : ℕ) where
  dtex : Texture w h
  currrow : ℕ
  currcol : ℕ

def rowsOf (dmap : Matrix (Fin h) (Fin w) UInt16) : List (List UInt16) :=
  List.ofFn fun r => List.ofFn fun c => dmap r c

def depths (dmap : Matrix (Fin h) (Fin w) UInt16) : List ℕ := (rowsOf dmap).flatten.map UInt16.toNat

/-- `255 if WaterHarp.NEARTHRESH<col<WaterHarp.THRESHOLD else 0`. -/
def greenOf (col : UInt16) : ℕ :=
  if nearthresh < (col.toNat : ℚ) ∧ col.toNat < threshold then 255 else 0

/-- What is drawn over a texel for a depth: its blue channel is not written. -/
def shade (minval maxval : ℕ) (col : UInt16) (old : Rgb) : Rgb :=
  ⟨(col.toNat-minval)*255/(maxval-minval), greenOf col, old.blue⟩

def drawPixel (minval maxval : ℕ) (col : UInt16) (s : Cursor w h) : Outcome PyError (Cursor w h) :=
  if s.currcol < w ∧ s.currrow < h then
    .done { s with
      dtex := fun x y =>
        if x.val = s.currcol ∧ y.val = s.currrow then shade minval maxval col (s.dtex x y) else s.dtex x y
      currcol := s.currcol+1 }
  else .raised .indexError s

def drawRow (minval maxval : ℕ) (row : List UInt16) (s : Cursor w h) : Outcome PyError (Cursor w h) :=
  (runAll (drawPixel minval maxval) row { s with currcol := 0 }).bind
    fun t => .done { t with currrow := t.currrow+1 }

/-- The two tests for NaN are left out: an integer is never one. -/
def playVideo (dmap : Matrix (Fin h) (Fin w) UInt16) (dtex : Texture w h) :
    Outcome PyError (Texture w h) :=
  match (depths dmap).min?, (depths dmap).max? with
  | some minval, some maxval =>
    if minval = maxval then .done dtex
    else (runAll (drawRow minval maxval) (rowsOf dmap) ⟨dtex, 0, 0⟩).map Cursor.dtex
  | _, _ => .raised .valueError dtex

lemma mem_depths {dmap : Matrix (Fin h) (Fin w) UInt16} {d : ℕ} :
    d ∈ depths dmap ↔ ∃ r c, (dmap r c).toNat = d := by
  simp [depths, rowsOf, List.mem_ofFn]

def RowDrawn (minval maxval : ℕ) (row : Fin w → UInt16) (old : Texture w h) (y0 n : ℕ)
    (s : Cursor w h) : Prop :=
  s.currrow = y0 ∧ s.currcol = n ∧ ∀ x y, s.dtex x y =
    if x.val < n ∧ y.val = y0 then shade minval maxval (row x) (old x y) else old x y

lemma drawRow_spec (minval maxval : ℕ) (row : Fin w → UInt16) {s : Cursor w h} (hy : s.currrow < h) :
    ∃ t, drawRow minval maxval (List.ofFn row) s = .done t ∧ t.currrow = s.currrow+1 ∧
      ∀ x y, t.dtex x y =
        if y.val = s.currrow then shade minval maxval (row x) (s.dtex x y) else s.dtex x y := by
  have hstep : ∀ n (hn : n < (List.ofFn row).length),
      Establishes (RowDrawn minval maxval row s.dtex s.currrow n)
        (drawPixel minval maxval (List.ofFn row)[n])
        (RowDrawn minval maxval row s.dtex s.currrow (n+1)) := by
    rintro n hn t ⟨hrow, hcol, htex⟩
    have hw : n < w := by simpa using hn
    refine ⟨_, if_pos (by omega), hrow, by simp [hcol], fun x y => ?_⟩
    simp only [htex, hrow, hcol, List.getElem_ofFn]
    by_cases hx : x.val = n
    · obtain rfl : x = ⟨n, hw⟩ := Fin.ext hx
      by_cases hyy : y.val = s.currrow <;> simp [hyy]
    · simp only [hx, false_and, if_false, show x.val < n+1 ↔ x.val < n by omega]
  obtain ⟨t, ht, hrow, hcol, htex⟩ := forEach_invariant _ _ _ hstep { s with currcol := 0 }
    ⟨rfl, rfl, fun x y => by simp⟩
  refine ⟨{ t with currrow := t.currrow+1 }, ?_, by simp [hrow], fun x y => ?_⟩
  · rw [drawRow, runAll, ht, Outcome.bind_done]
  · simp [htex]

lemma drawRows_spec (minval maxval : ℕ) (dmap : Matrix (Fin h) (Fin w) UInt16) (dtex : Texture w h) :
    ∃ t, runAll (drawRow minval maxval) (rowsOf dmap) ⟨dtex, 0, 0⟩ = .done t ∧
      ∀ x y, t.dtex x y = shade minval maxval (dmap y x) (dtex x y) := by
  have hstep : ∀ n (hn : n < (rowsOf dmap).length),
      Establishes
        (fun s : Cursor w h => s.currrow = n ∧ ∀ x y, s.dtex x y =
          if y.val < n then shade minval maxval (dmap y x) (dtex x y) else dtex x y)
        (drawRow minval maxval (rowsOf dmap)[n])
        (fun s => s.currrow = n+1 ∧ ∀ x y, s.dtex x y =
          if y.val < n+1 then shade minval maxval (dmap y x) (dtex x y) else dtex x y) := by
    rintro n hn s ⟨hrow, htex⟩
    have hh : n < h := by simpa [rowsOf] using hn
    obtain ⟨t, ht, htrow, httex⟩ := drawRow_spec minval maxval (dmap ⟨n, hh⟩) (s := s) (by omega)
    refine ⟨t, ?_, by omega, fun x y => ?_⟩
    · simpa [rowsOf] using ht
    · rw [httex, htex]
      by_cases hy : y.val = n
      · obtain rfl : y = ⟨n, hh⟩ := Fin.ext hy
        simp [hrow]
      · simp only [hrow, hy, if_false, show y.val < n+1 ↔ y.val < n by omega]
  obtain ⟨t, ht, -, htex⟩ := forEach_invariant _ _ _ hstep ⟨dtex, 0, 0⟩ ⟨rfl, fun x y => by simp⟩
  refine ⟨t, ht, fun x y => ?_⟩
  rw [htex, if_pos (by simp [rowsOf])]

def Flat (dmap : Matrix (Fin h) (Fin w) UInt16) : Prop :=
  ∀ r c r' c', (dmap r c).toNat = (dmap r' c').toNat

lemma exists_bounds (dmap : Matrix (Fin h) (Fin w) UInt16) (hh : 0 < h) (hw : 0 < w) :
    ∃ m M, (depths dmap).min? = some m ∧ (depths dmap).max? = some M ∧
      m ∈ depths dmap ∧ M ∈ depths dmap ∧ ∀ d ∈ depths dmap, m ≤ d ∧ d ≤ M := by
  have hne : depths dmap ≠ [] := List.ne_nil_of_mem (mem_depths.mpr ⟨⟨0, hh⟩, ⟨0, hw⟩, rfl⟩)
  obtain ⟨m, hm⟩ := Option.isSome_iff_exists.mp (List.isSome_min?_of_ne_nil hne)
  obtain ⟨M, hM⟩ := Option.isSome_iff_exists.mp (List.isSome_max?_of_ne_nil hne)
  obtain ⟨hmmem, hmle⟩ := List.min?_eq_some_iff.mp hm
  obtain ⟨hMmem, hMle⟩ := List.max?_eq_some_iff.mp hM
  exact ⟨m, M, hm, hM, hmmem, hMmem, fun d hd => ⟨hmle d hd, hMle d hd⟩⟩

theorem playVideo_flat {dmap : Matrix (Fin h) (Fin w) UInt16} (hh : 0 < h) (hw : 0 < w)
    (hflat : Flat dmap) (dtex : Texture w h) : playVideo dmap dtex = .done dtex := by
  obtain ⟨m, M, hm, hM, hmmem, hMmem, -⟩ := exists_bounds dmap hh hw
  obtain ⟨r, c, rfl⟩ := mem_depths.mp hmmem
  obtain ⟨r', c', rfl⟩ := mem_depths.mp hMmem
  simp only [playVideo, hm, hM]
  rw [if_pos (hflat r c r' c')]

/-- Any other frame is drawn whole, its green channel from that frame alone. -/
theorem playVideo_drawn {dmap : Matrix (Fin h) (Fin w) UInt16} (hh : 0 < h) (hw : 0 < w)
    (hflat : ¬ Flat dmap) (dtex : Texture w h) :
    ∃ m M t, (depths dmap).min? = some m ∧ (depths dmap).max? = some M ∧
      playVideo dmap dtex = .done t ∧ ∀ x y, t x y = shade m M (dmap y x) (dtex x y) := by
  obtain ⟨m, M, hm, hM, -, -, hbounds⟩ := exists_bounds dmap hh hw
  have hne : m ≠ M := by
    rintro rfl
    refine hflat fun r c r' c' => ?_
    have h1 := hbounds _ (mem_depths.mpr ⟨r, c, rfl⟩)
    have h2 := hbounds _ (mem_depths.mpr ⟨r', c', rfl⟩)
    omega
  obtain ⟨t, ht, htex⟩ := drawRows_spec m M dmap dtex
  refine ⟨m, M, t.dtex, hm, hM, ?_, htex⟩
  simp only [playVideo, hm, hM]
  rw [if_neg hne, ht, Outcome.map_done]

lemma greenOf_eq {col : UInt16} : greenOf col = 255 ↔ 455 < col.toNat ∧ col.toNat < 910 := by
  have hnear : nearthresh < (col.toNat : ℚ) ↔ 455 < col.toNat := by
    rw [nearthresh_eq]
    exact_mod_cast Iff.rfl
  simp only [greenOf, hnear, threshold]
  split_ifs with hg
  · exact iff_of_true rfl hg
  · exact iff_of_false (by norm_num) hg

end WaterHarp.VideoTexture
