import Mathlib

/-! Conversions of a fraction to an integer: truncation, rounding half to even
and rounding half away from zero, over any ordered field with a floor. -/
namespace WaterHarp.Rounding

variable {K : Type*} [Field K] [LinearOrder K] [IsStrictOrderedRing K] [FloorRing K]

def trunc (x : K) : ℤ := if 0 ≤ x then ⌊x⌋ else ⌈x⌉

/-- The nearer of the two integers around `x`, or `tie` in the middle of them. -/
def nearest (tie : ℤ) (x : K) : ℤ :=
  if Int.fract x < 1-Int.fract x then ⌊x⌋
  else if 1-Int.fract x < Int.fract x then ⌊x⌋+1
  else tie

/-- Nearest integer, a tie going to the even one. -/
def halfEven (x : K) : ℤ := nearest (if Even ⌊x⌋ then ⌊x⌋ else ⌊x⌋+1) x

/-- Nearest integer, a tie going away from zero. -/
def halfAway (x : K) : ℤ := nearest (if 0 ≤ x then ⌊x⌋+1 else ⌊x⌋) x

def roundTo (scale : ℕ) (x : K) : K := (halfEven (x*scale) : K)/scale

omit [IsStrictOrderedRing K] in
lemma trunc_of_nonneg {x : K} (hx : 0 ≤ x) : trunc x = ⌊x⌋ := if_pos hx

@[simp] lemma trunc_intCast (n : ℤ) : trunc (n : K) = n := by
  unfold trunc
  split_ifs <;> simp

omit [IsStrictOrderedRing K] in
lemma trunc_mono {x y : K} (hxy : x ≤ y) : trunc x ≤ trunc y := by
  unfold trunc
  split_ifs with hx hy hy
  · exact Int.floor_mono hxy
  · exact absurd (hx.trans hxy) hy
  · exact (Int.ceil_le.mpr (by simpa using (not_le.mp hx).le)).trans (Int.floor_nonneg.mpr hy)
  · exact Int.ceil_mono hxy

lemma nearest_sub_le {tie : ℤ} {x : K} (htie : tie = ⌊x⌋ ∨ tie = ⌊x⌋+1) :
    |(nearest tie x : K) - x| ≤ 1/2 := by
  have hfloor : (⌊x⌋ : K) = x - Int.fract x := by rw [Int.fract]; ring
  have h0 := Int.fract_nonneg x
  have h1 := Int.fract_lt_one x
  unfold nearest
  rw [abs_le]
  split_ifs with hlt hgt
  · rw [hfloor]
    constructor <;> linarith
  · push_cast
    rw [hfloor]
    constructor <;> linarith
  · rcases htie with rfl | rfl <;> push_cast <;> rw [hfloor] <;> constructor <;> linarith

lemma halfEven_sub_le (x : K) : |(halfEven x : K) - x| ≤ 1/2 := by
  refine nearest_sub_le ?_
  split_ifs
  · exact .inl rfl
  · exact .inr rfl

@[simp] lemma halfEven_intCast (n : ℤ) : halfEven (n : K) = n := by
  simp [halfEven, nearest]

theorem halfEven_mono {x y : K} (hxy : x ≤ y) : halfEven x ≤ halfEven y := by
  by_contra hn
  have hstep : (halfEven y : K) + 1 ≤ halfEven x := by exact_mod_cast not_le.mp hn
  have hx := abs_le.mp (halfEven_sub_le x)
  have hy := abs_le.mp (halfEven_sub_le y)
  -- the two roundings can differ the wrong way only at one common midpoint
  have he : x = y := by linarith [hx.2, hy.1]
  exact hn (he ▸ le_rfl)

lemma le_halfEven {n : ℤ} {x : K} (h : (n : K) ≤ x) : n ≤ halfEven x := by
  simpa using halfEven_mono h

theorem roundTo_mono {scale : ℕ} {x y : K} (hxy : x ≤ y) : roundTo scale x ≤ roundTo scale y := by
  have hs : (0 : K) ≤ scale := Nat.cast_nonneg scale
  have h : (halfEven (x*scale) : K) ≤ halfEven (y*scale) := by
    exact_mod_cast halfEven_mono (mul_le_mul_of_nonneg_right hxy hs)
  exact div_le_div_of_nonneg_right h hs

lemma le_roundTo {scale : ℕ} (hs : 0 < scale) {n : ℤ} {x : K} (h : (n : K)/scale ≤ x) :
    (n : K)/scale ≤ roundTo scale x := by
  have hs' : (0 : K) < scale := by exact_mod_cast hs
  have hn : n ≤ halfEven (x*scale) := le_halfEven ((div_le_iff₀ hs').mp h)
  exact div_le_div_of_nonneg_right (by exact_mod_cast hn) hs'.le

/-- From a half on, a non-negative number is rounded up. -/
lemma halfAway_of_nonneg {x : K} (hx : 0 ≤ x) : halfAway x = ⌊x+1/2⌋ := by
  have hfloor : x = ⌊x⌋ + Int.fract x := (Int.floor_add_fract x).symm
  have h0 := Int.fract_nonneg x
  have h1 := Int.fract_lt_one x
  rw [halfAway, if_pos hx, nearest, eq_comm, Int.floor_eq_iff]
  split_ifs <;> push_cast <;> constructor <;> linarith

lemma halfAway_quarters (n : ℕ) : halfAway ((n : K)/4) = ((n+2)/4 : ℕ) := by
  rw [halfAway_of_nonneg (by positivity)]
  have he : (n : K)/4+1/2 = ((n+2 : ℕ) : K)/(4 : ℕ) := by push_cast; ring
  rw [he, ← Int.natCast_floor_eq_floor (by positivity), Nat.floor_div_natCast, Nat.floor_natCast]

end WaterHarp.Rounding
