import WaterHarp.Numerals

/-! Numbers on the serial line: what the `print` of the Arduino core writes for them,
in decimal or in capital hexadecimal digits, and a reader of these texts. -/
namespace WaterHarp.SerialPrint
open Numerals

def dec : Alphabet 10 where
  one_lt := by decide
  char := Nat.digitChar
  value c := if '0' ≤ c ∧ c ≤ '9' then some (c.toNat-48) else none
  value_char := by decide

lemma one_lt_sixteen : 1 < 16 := by decide

def hex : Alphabet 16 where
  one_lt := one_lt_sixteen
  char d := if d < 10 then Char.ofNat ('0'.toNat+d) else Char.ofNat ('A'.toNat+d-10)
  value c :=
    if '0' ≤ c ∧ c ≤ '9' then some (c.toNat-48)
    else if 'A' ≤ c ∧ c ≤ 'F' then some (c.toNat-55)
    else none
  value_char := by decide

variable {base : ℕ} (A : Alphabet base)

/-- `print(n, base)` of a number which is not negative. -/
def printNumber (n : ℕ) : List Char := render A 1 n

/-- `print(n)`. -/
def printInt (n : ℤ) : List Char :=
  if n < 0 then '-' :: printNumber dec n.natAbs else printNumber dec n.natAbs

def readNumber (text : List Char) : Option ℕ :=
  match text, scan A 0 text with
  | _ :: _, (n, []) => some n
  | _, _ => none

lemma readNumber_printNumber (n : ℕ) : readNumber A (printNumber A n) = some n := by
  have hscan : scan A 0 (printNumber A n) = (n, []) := by
    simpa [printNumber] using scan_render (A := A) 1 n (by simp [Ends] : Ends A [])
  obtain ⟨c, text, htext⟩ : ∃ c text, printNumber A n = c :: text :=
    List.exists_cons_of_length_pos (length_render 1 n)
  rw [htext] at hscan ⊢
  simp only [readNumber, hscan]

variable {A}

lemma not_mem_printNumber {c : Char} (hc : A.value c = none) (n : ℕ) : c ∉ printNumber A n :=
  fun hmem => value_of_mem_render hmem hc

end WaterHarp.SerialPrint
