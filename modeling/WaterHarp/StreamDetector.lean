import WaterHarp.Program
import WaterHarp.Rounding
import WaterHarp.MatrixWindow
import WaterHarp.PythonValues

/-! The detector of `WaterHarp.run`: one depth frame is cut into a bin for each
water stream, and the near pixels of a bin give the volume of its stream. -/
namespace WaterHarp.StreamDetector
open Program Rounding MatrixWindow PythonValues

abbrev DMap := Matrix (Fin 240) (Fin 320) UInt16

def numStreams : ℕ := 16
def leftStreamIndex : ℕ := 54
def rightStreamIndex : ℕ := 295
def top : ℕ := 10
def bottom : ℕ := 230
def background : UInt16 := 50000
def threshold : ℕ := 910
def nearthresh : ℚ := threshold/2

def xBins : List ℤ := (linspace leftStreamIndex rightStreamIndex (numStreams+1)).map trunc

/-- `dmap[dmap < NEARTHRESH] = BACKGROUND`. -/
def maskNear (dmap : DMap) : DMap :=
  dmap.map fun d => if (d.toNat : ℚ) < nearthresh then background else d

/-- `subarray < THRESHOLD`. -/
def BelowThreshold (d : UInt16) : Prop := d.toNat < threshold

instance : DecidablePred BelowThreshold := fun _ => inferInstanceAs (Decidable (_ < _))

/-- The variables of the loop over the bins. -/
structure Scan where
  streamIndicators : List ℚ
  lastNumBelow : ℕ
  deriving DecidableEq, Repr

def belowThreshold (dmap : DMap) (leftIdx rightIdx : ℤ) : List (ℕ × ℕ) :=
  (positions BelowThreshold (slice dmap top bottom leftIdx.toNat rightIdx.toNat)).map
    fun q => (q.1.val, q.2.val)

def scanBin (dmap : DMap) (xBinsIdx : ℕ) (leftIdx : ℤ) (s : Scan) : Outcome PyError Scan :=
  match xBins[xBinsIdx+1]? with
  | none => .raised .indexError s
  | some rightIdx =>
    let below := belowThreshold dmap leftIdx rightIdx
    let numBelow := below.length
    if 50 < numBelow then
      let height := mean (below.map fun q => (q.1 : ℚ))
      let volume := roundTo 100 (13/10-height/(bottom-top : ℕ))
      if s.lastNumBelow < numBelow then
        .done { s with streamIndicators := s.streamIndicators ++ [min volume 1] }
      else .done s
    else .done { s with streamIndicators := s.streamIndicators ++ [0] }

def scan (dmap : DMap) : Outcome PyError Scan :=
  forEach (scanBin (maskNear dmap)) 0 xBins.dropLast ⟨[], 0⟩

lemma xBins_eq : xBins =
    [54, 69, 84, 99, 114, 129, 144, 159, 174, 189, 204, 219, 234, 249, 264, 279, 295] := by
  decide +kernel

/-- The left edge of bin `k`, and the right edge of bin `k-1`. -/
def xBin (k : ℕ) : ℕ := (xBins.getD k 0).toNat

def binPixels (dmap : DMap) (i : ℕ) : Finset (Fin 240 × Fin 320) :=
  Finset.univ.filter fun q => (10 ≤ q.1.val ∧ q.1.val ≤ 229) ∧
    (xBin i ≤ q.2.val ∧ q.2.val < xBin (i+1)) ∧
    455 ≤ (dmap q.1 q.2).toNat ∧ (dmap q.1 q.2).toNat < 910

lemma mem_binPixels {dmap : DMap} {i : ℕ} {q : Fin 240 × Fin 320} : q ∈ binPixels dmap i ↔
    (10 ≤ q.1.val ∧ q.1.val ≤ 229) ∧ (xBin i ≤ q.2.val ∧ q.2.val < xBin (i+1)) ∧
    455 ≤ (dmap q.1 q.2).toNat ∧ (dmap q.1 q.2).toNat < 910 := by
  simp only [binPixels, Finset.mem_filter, Finset.mem_univ, true_and]

/-- A stream is touched when more than fifty pixels of its bin are. -/
def Touched (dmap : DMap) (i : ℕ) : Prop := 50 < (binPixels dmap i).card

instance (dmap : DMap) (i : ℕ) : Decidable (Touched dmap i) := inferInstanceAs (Decidable (_ < _))

def meanRow (dmap : DMap) (i : ℕ) : ℚ :=
  (∑ q ∈ binPixels dmap i, ((q.1.val : ℚ)-10))/(binPixels dmap i).card

/-- The volume of stream `i`, zero when it is not touched. -/
def indicator (dmap : DMap) (i : ℕ) : ℚ :=
  if Touched dmap i then min (roundTo 100 (13/10-meanRow dmap i/220)) 1 else 0

lemma nearthresh_eq : nearthresh = 455 := by norm_num [nearthresh, threshold]

lemma belowThreshold_maskNear (dmap : DMap) (r : Fin 240) (c : Fin 320) :
    BelowThreshold (maskNear dmap r c) ↔ 455 ≤ (dmap r c).toNat ∧ (dmap r c).toNat < 910 := by
  have hd : ((dmap r c).toNat : ℚ) < nearthresh ↔ (dmap r c).toNat < 455 := by
    rw [nearthresh_eq]
    exact_mod_cast Iff.rfl
  simp only [BelowThreshold, maskNear, Matrix.map_apply, hd, threshold]
  split_ifs with h
  · have hb : background.toNat = 50000 := rfl
    omega
  · omega

lemma window_eq_binPixels (dmap : DMap) (i : ℕ) :
    (Finset.univ.filter fun q : Fin 240 × Fin 320 => Covers top bottom (xBin i) (xBin (i+1)) q ∧
      BelowThreshold (maskNear dmap q.1 q.2)) = binPixels dmap i := by
  ext q
  simp only [binPixels, Finset.mem_filter, Finset.mem_univ, true_and, Covers, top, bottom,
    belowThreshold_maskNear]
  omega

-- no unifier is to enumerate the frame
attribute [irreducible] binPixels

lemma length_belowThreshold (dmap : DMap) {i : ℕ} {l r : ℤ} (hl : l.toNat = xBin i)
    (hr : r.toNat = xBin (i+1)) :
    (belowThreshold (maskNear dmap) l r).length = (binPixels dmap i).card := by
  rw [belowThreshold, List.length_map, length_positions_slice, hl, hr, window_eq_binPixels]

lemma mean_belowThreshold (dmap : DMap) {i : ℕ} {l r : ℤ} (hl : l.toNat = xBin i)
    (hr : r.toNat = xBin (i+1)) :
    mean ((belowThreshold (maskNear dmap) l r).map fun q => (q.1 : ℚ)) = meanRow dmap i := by
  have hrow : ∀ k : ℕ, ((top+k : ℕ) : ℚ)-10 = k := by
    intro k
    push_cast [top]
    ring
  have hsum := sum_positions_slice BelowThreshold (maskNear dmap) top bottom (xBin i) (xBin (i+1))
    (fun r _ => (r : ℚ)-10)
  rw [window_eq_binPixels] at hsum
  simp only [hrow] at hsum
  rw [mean, List.length_map, length_belowThreshold dmap hl hr, meanRow, ← hsum, belowThreshold,
    List.map_map, hl, hr]
  rfl

/-- One round appends the indicator of its bin, and the branch which appends nothing is dead. -/
lemma scanBin_spec (dmap : DMap) {n : ℕ} {leftIdx rightIdx : ℤ} {s : Scan}
    (hleft : leftIdx.toNat = xBin n) (hright : xBins[n+1]? = some rightIdx)
    (hlast : s.lastNumBelow = 0) :
    scanBin (maskNear dmap) n leftIdx s =
      .done { s with streamIndicators := s.streamIndicators ++ [indicator dmap n] } := by
  have hr : rightIdx.toNat = xBin (n+1) := by
    simp [xBin, List.getD_eq_getElem?_getD, hright]
  simp only [scanBin, hright, length_belowThreshold dmap hleft hr, mean_belowThreshold dmap hleft hr]
  by_cases hn : 50 < (binPixels dmap n).card
  · have hpos : s.lastNumBelow < (binPixels dmap n).card := by omega
    simp [hn, hpos, indicator, Touched, top, bottom]
  · simp [hn, indicator, Touched]

theorem scan_spec (dmap : DMap) :
    scan dmap = .done ⟨(List.range 16).map (indicator dmap), 0⟩ := by
  have hlen : xBins.dropLast.length = 16 := by rw [xBins_eq]; rfl
  have hloop := forEach_invariant (scanBin (maskNear dmap)) xBins.dropLast
    (fun n s => s = ⟨(List.range n).map (indicator dmap), 0⟩) ?_
  · obtain ⟨t, ht, rfl⟩ := hloop ⟨[], 0⟩ rfl
    rw [scan, ht, hlen]
  · rintro n hn s rfl
    have hright : n+1 < xBins.length := by rw [List.length_dropLast] at hn; omega
    refine ⟨_, scanBin_spec dmap ?_ (List.getElem?_eq_getElem hright) rfl, ?_⟩
    · rw [List.getElem_dropLast, xBin, List.getD_eq_getElem _ _ (by omega)]
    · simp [List.range_succ]

lemma meanRow_bounds {dmap : DMap} {i : ℕ} (h : Touched dmap i) :
    0 ≤ meanRow dmap i ∧ meanRow dmap i ≤ 219 := by
  have hpos : 0 < (binPixels dmap i).card := (Nat.zero_le 50).trans_lt h
  have hcard : (0 : ℚ) < (binPixels dmap i).card := Nat.cast_pos.mpr hpos
  have hrow : ∀ q ∈ binPixels dmap i, (0 : ℚ) ≤ (q.1.val : ℚ)-10 ∧ (q.1.val : ℚ)-10 ≤ 219 := by
    intro q hq
    obtain ⟨⟨hlo, hhi⟩, -⟩ := mem_binPixels.mp hq
    have hlo' : (10 : ℚ) ≤ q.1.val := by exact_mod_cast hlo
    have hhi' : (q.1.val : ℚ) ≤ 229 := by exact_mod_cast hhi
    constructor <;> linarith
  have hsum := Finset.sum_le_card_nsmul _ _ _ (fun q hq => (hrow q hq).2)
  rw [nsmul_eq_mul] at hsum
  refine ⟨div_nonneg (Finset.sum_nonneg fun q hq => (hrow q hq).1) hcard.le, ?_⟩
  exact (div_le_iff₀ hcard).mpr (by linarith)

theorem indicator_of_touched {dmap : DMap} {i : ℕ} (h : Touched dmap i) :
    3/10 ≤ indicator dmap i ∧ indicator dmap i ≤ 1 := by
  obtain ⟨-, hhi⟩ := meanRow_bounds h
  have hlow : ((30 : ℤ) : ℚ)/(100 : ℕ) ≤ 13/10-meanRow dmap i/220 := by
    push_cast
    linarith
  have hvol := le_roundTo (by norm_num) hlow
  rw [indicator, if_pos h]
  refine ⟨le_min ?_ (by norm_num), min_le_right _ _⟩
  exact le_trans (by norm_num) hvol

@[simp] lemma indicator_of_not_touched {dmap : DMap} {i : ℕ} (h : ¬ Touched dmap i) :
    indicator dmap i = 0 := if_neg h

/-- Every indicator is zero or far above the threshold of a note. -/
theorem indicator_range (dmap : DMap) (i : ℕ) :
    indicator dmap i = 0 ∨ 3/10 ≤ indicator dmap i ∧ indicator dmap i ≤ 1 := by
  by_cases h : Touched dmap i
  · exact Or.inr (indicator_of_touched h)
  · exact Or.inl (indicator_of_not_touched h)

end WaterHarp.StreamDetector
