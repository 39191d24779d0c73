import Mathlib

/-! Properties of the steps of a run, each stated with the history before it. -/
namespace WaterHarp.RunHistory

variable {α : Type*} {P Q : List α → α → Prop} {xs ys : List α} {x : α}

/-- Every step of the run meets `P` after its history. -/
def Along (P : List α → α → Prop) (xs : List α) : Prop :=
  ∀ before x later, xs = before ++ x :: later → P before x

lemma Along.earlier (h : Along P (xs ++ ys)) : Along P xs := by
  intro before x later hsplit
  exact h before x (later ++ ys) (by rw [hsplit, List.append_assoc, List.cons_append])

lemma Along.last (h : Along P (xs ++ [x])) : P xs x := h xs x [] rfl

lemma Along.imp (h : Along P xs) (hpq : ∀ before x, P before x → Q before x) : Along Q xs :=
  fun before x later hsplit => hpq before x (h before x later hsplit)

end WaterHarp.RunHistory
