import Mathlib

/-! Positional numerals: Horner's rule from the most significant digit on, the
digits of a number padded to a width, and their text in an alphabet of digits. -/
namespace WaterHarp.Numerals

section Horner
variable {R : Type*} [CommSemiring R]

/-- The value of digits in base `b`, most significant first. -/
def horner (b : R) (ds : List R) : R := ds.foldl (fun v d => v*b+d) 0

lemma horner_append_singleton (b : R) (ds : List R) (d : R) :
    horner b (ds ++ [d]) = horner b ds*b+d := by
  simp [horner]

lemma horner_natCast (b : ℕ) (ds : List ℕ) :
    horner (b : R) (ds.map (fun d : ℕ => (d : R))) = (horner b ds : ℕ) := by
  induction ds using List.reverseRecOn with
  | nil => simp [horner]
  | append_singleton ds d ih =>
    rw [List.map_append, List.map_singleton, horner_append_singleton, horner_append_singleton, ih]
    push_cast
    ring

lemma horner_eq_ofDigits (b : ℕ) (ds : List ℕ) : horner b ds = Nat.ofDigits b ds.reverse := by
  induction ds using List.reverseRecOn with
  | nil => rfl
  | append_singleton ds d ih =>
    rw [horner_append_singleton, ih, List.reverse_append, List.reverse_singleton,
      List.singleton_append, Nat.ofDigits_cons]
    ring

end Horner

section Bits

def bitsValue (bs : List Bool) : ℕ := horner 2 (bs.map Bool.toNat)

lemma bitsValue_append_singleton (bs : List Bool) (c : Bool) :
    bitsValue (bs ++ [c]) = 2*bitsValue bs+c.toNat := by
  rw [bitsValue, List.map_append, List.map_singleton, horner_append_singleton, bitsValue, mul_comm]

theorem testBit_bitsValue (bs : List Bool) (k : ℕ) :
    (bitsValue bs).testBit k = bs.reverse.getD k false := by
  induction bs using List.reverseRecOn generalizing k with
  | nil => simp [bitsValue, horner]
  | append_singleton bs c ih =>
    rw [bitsValue_append_singleton, List.reverse_append, List.reverse_singleton, List.singleton_append]
    cases k with
    | zero => cases c <;> simp [Nat.add_mod]
    | succ k =>
      have hhalf : (2*bitsValue bs+c.toNat)/2 = bitsValue bs := by
        have := Bool.toNat_lt c
        omega
      rw [Nat.testBit_succ, hhalf, ih, List.getD_cons_succ]

end Bits

section Text

/-- Characters for the digits of a base. Reading may know further characters. -/
structure Alphabet (base : ℕ) where
  one_lt : 1 < base
  char : ℕ → Char
  value : Char → Option ℕ
  value_char : ∀ d < base, value (char d) = some d

variable {base : ℕ} (A : Alphabet base)

def paddedDigits (base width n : ℕ) : List ℕ := ((Nat.digits base n).rightpad width 0).reverse

def render (width n : ℕ) : List Char := (paddedDigits base width n).map A.char

def scan (v : ℕ) : List Char → ℕ × List Char
  | [] => (v, [])
  | c :: text =>
    match A.value c with
    | some d => scan (v*base+d) text
    | none => (v, c :: text)

lemma horner_paddedDigits (width n : ℕ) : horner base (paddedDigits base width n) = n := by
  rw [horner_eq_ofDigits, paddedDigits, List.reverse_reverse, List.rightpad, Nat.ofDigits_append,
    Nat.ofDigits_digits, Nat.ofDigits_replicate_zero, mul_zero, add_zero]

variable {A}

lemma paddedDigits_lt (A : Alphabet base) {width n d : ℕ} (hd : d ∈ paddedDigits base width n) :
    d < base := by
  rw [paddedDigits, List.mem_reverse, List.rightpad, List.mem_append] at hd
  rcases hd with hd | hd
  · exact Nat.digits_lt_base A.one_lt hd
  · rw [List.eq_of_mem_replicate hd]
    exact Nat.zero_lt_of_lt A.one_lt

lemma scan_digits {ds : List ℕ} (hds : ∀ d ∈ ds, d < base) (v : ℕ) (rest : List Char) :
    scan A v (ds.map A.char ++ rest) = scan A (ds.foldl (fun v d => v*base+d) v) rest := by
  induction ds generalizing v with
  | nil => rfl
  | cons d ds ih =>
    rw [List.map_cons, List.cons_append, scan, A.value_char d (hds d (by simp))]
    exact ih (fun e he => hds e (by simp [he])) _

def Ends (A : Alphabet base) (rest : List Char) : Prop := ∀ c ∈ rest.head?, A.value c = none

lemma scan_of_ends {rest : List Char} (h : Ends A rest) (v : ℕ) : scan A v rest = (v, rest) := by
  cases rest with
  | nil => rfl
  | cons c text => rw [scan, h c (by simp)]

/-- A number is read back from its text. -/
theorem scan_render (width n : ℕ) {rest : List Char} (h : Ends A rest) :
    scan A 0 (render A width n ++ rest) = (n, rest) := by
  have hvalue : (paddedDigits base width n).foldl (fun v d => v*base+d) 0 = n :=
    horner_paddedDigits width n
  rw [render, scan_digits (fun d hd => paddedDigits_lt A hd), hvalue, scan_of_ends h]

lemma length_render (width n : ℕ) : width ≤ (render A width n).length := by
  rw [render, List.length_map, paddedDigits, List.length_reverse, List.length_rightpad]
  exact le_max_left _ _

lemma value_of_mem_render {width n : ℕ} {c : Char} (hc : c ∈ render A width n) : A.value c ≠ none := by
  obtain ⟨d, hd, rfl⟩ := List.mem_map.mp hc
  rw [A.value_char d (paddedDigits_lt A hd)]
  exact Option.some_ne_none d

end Text

end WaterHarp.Numerals
