import Mathlib

/-! Texts made of items which end in a mark, and their items read back one by one. -/
namespace WaterHarp.TextItems

section Marks
variable {α : Type*} [DecidableEq α] {mark : α}

/-- Each item followed by the mark. -/
def terminated (mark : α) (items : List (List α)) : List α := items.flatMap fun item => item ++ [mark]

omit [DecidableEq α] in
lemma terminated_append (items : List (List α)) (last : List α) :
    terminated mark items ++ last = [mark].intercalate (items ++ [last]) := by
  induction items with
  | nil => simp [terminated]
  | cons item items ih =>
    rw [List.cons_append, List.intercalate_cons_of_ne_nil (by simp), ← ih]
    simp [terminated]

lemma splitOn_terminated {items : List (List α)} {last : List α}
    (h : ∀ item ∈ items ++ [last], mark ∉ item) :
    (terminated mark items ++ last).splitOn mark = items ++ [last] := by
  rw [terminated_append, List.splitOn_intercalate mark h (by simp)]

omit [DecidableEq α] in
lemma mem_terminated {items : List (List α)} {x : α} (h : x ∈ terminated mark items) :
    x = mark ∨ ∃ item ∈ items, x ∈ item := by
  obtain ⟨item, hitem, hx⟩ := List.mem_flatMap.mp h
  rw [List.mem_append, List.mem_singleton] at hx
  cases hx with
  | inl hx => exact .inr ⟨item, hitem, hx⟩
  | inr hx => exact .inl hx

/-- A text is cut at the first occurrence of a mark. -/
lemma cut_at_mark {text : List α} (h : mark ∉ text) (rest : List α) :
    (text ++ mark :: rest).takeWhile (· ≠ mark) = text ∧
    (text ++ mark :: rest).dropWhile (· ≠ mark) = mark :: rest := by
  have hne : ∀ x ∈ text, decide (x ≠ mark) = true := by
    intro x hx
    rw [decide_eq_true_eq]
    rintro rfl
    exact h hx
  constructor
  · rw [List.takeWhile_append_of_pos hne]
    simp
  · rw [List.dropWhile_append_of_pos hne]
    simp

end Marks

lemma mapM_some {α β : Type*} {f : α → Option β} {g : α → β} {xs : List α}
    (h : ∀ x ∈ xs, f x = some (g x)) : xs.mapM f = some (xs.map g) := by
  induction xs with
  | nil => rfl
  | cons x xs ih =>
    rw [List.mapM_cons, h x (by simp), ih fun y hy => h y (by simp [hy])]
    rfl

end WaterHarp.TextItems
