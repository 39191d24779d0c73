import Mathlib

/-! The least and the greatest element of a growing list, kept by folding over it
from the two ends of the order. -/
namespace WaterHarp.RunningRange

variable {α : Type*} [LinearOrder α]

def low (top : α) (xs : List α) : α := xs.foldl min top
def high (bottom : α) (xs : List α) : α := xs.foldl max bottom

@[simp] lemma low_append_singleton (top : α) (xs : List α) (x : α) :
    low top (xs ++ [x]) = min (low top xs) x := by
  simp [low]

@[simp] lemma high_append_singleton (bottom : α) (xs : List α) (x : α) :
    high bottom (xs ++ [x]) = max (high bottom xs) x := by
  simp [high]

lemma le_high (bottom : α) (xs : List α) : bottom ≤ high bottom xs ∧ ∀ x ∈ xs, x ≤ high bottom xs := by
  induction xs using List.reverseRecOn with
  | nil => simp [high]
  | append_singleton xs x ih =>
    rw [high_append_singleton]
    constructor
    · exact ih.1.trans (le_max_left _ _)
    · intro y hy
      rw [List.mem_append, List.mem_singleton] at hy
      cases hy with
      | inl hy => exact (ih.2 y hy).trans (le_max_left _ _)
      | inr hy => exact hy ▸ le_max_right _ _

lemma high_mem (bottom : α) (xs : List α) : high bottom xs = bottom ∨ high bottom xs ∈ xs := by
  induction xs using List.reverseRecOn with
  | nil => exact .inl rfl
  | append_singleton xs x ih =>
    rw [high_append_singleton, List.mem_append, List.mem_singleton]
    cases max_choice (high bottom xs) x with
    | inl hmax =>
      rw [hmax]
      exact ih.imp_right .inl
    | inr hmax => exact .inr (.inr hmax)

lemma low_le (top : α) (xs : List α) : low top xs ≤ top ∧ ∀ x ∈ xs, low top xs ≤ x :=
  le_high (α := αᵒᵈ) top xs

/-- An element which has been counted before changes neither end. -/
lemma low_of_mem {top x : α} {xs : List α} (hx : x ∈ xs) : low top (xs ++ [x]) = low top xs := by
  rw [low_append_singleton]
  exact min_eq_left ((low_le top xs).2 x hx)

lemma high_of_mem {bottom x : α} {xs : List α} (hx : x ∈ xs) :
    high bottom (xs ++ [x]) = high bottom xs := by
  rw [high_append_singleton]
  exact max_eq_left ((le_high bottom xs).2 x hx)

theorem isGreatest_high {bottom : α} {xs : List α} (hne : xs ≠ []) (hbottom : ∀ x ∈ xs, bottom ≤ x) :
    IsGreatest {x | x ∈ xs} (high bottom xs) := by
  refine ⟨?_, (le_high bottom xs).2⟩
  cases high_mem bottom xs with
  | inl heq =>
    -- the fold has kept its start, so that every element is equal to it
    obtain ⟨x, hx⟩ := List.exists_mem_of_ne_nil xs hne
    have hle := (le_high bottom xs).2 x hx
    rw [heq] at hle ⊢
    exact le_antisymm hle (hbottom x hx) ▸ hx
  | inr hmem => exact hmem

theorem isLeast_low {top : α} {xs : List α} (hne : xs ≠ []) (htop : ∀ x ∈ xs, x ≤ top) :
    IsLeast {x | x ∈ xs} (low top xs) :=
  isGreatest_high (α := αᵒᵈ) hne htop

end WaterHarp.RunningRange
