import Mathlib

/-! Tokens read off the front of a list while it is long enough for one, and
decoders which stop early and keep the rest. -/
namespace WaterHarp.TokenReader

variable {β γ σ τ : Type*}

/-- `next` takes one token off the front, or nothing while the list is too short for one. -/
structure Reader (β τ : Type*) where
  next : List β → Option (τ × List β)
  shorter : ∀ {xs t rest}, next xs = some (t, rest) → rest.length < xs.length
  extend : ∀ {xs t rest} (ys), next xs = some (t, rest) → next (xs ++ ys) = some (t, rest ++ ys)

namespace Reader

/-- The tokens of a list, and what is left of it. -/
def read (r : Reader β τ) (xs : List β) : List τ × List β :=
  match h : r.next xs with
  | none => ([], xs)
  | some (t, rest) =>
    have := r.shorter h
    (t :: (r.read rest).1, (r.read rest).2)
termination_by xs.length

variable {r : Reader β τ}

lemma read_of_none {xs : List β} (h : r.next xs = none) : r.read xs = ([], xs) := by
  rw [read]
  split
  · rfl
  · next heq => simp [h] at heq

lemma read_of_some {xs rest : List β} {t : τ} (h : r.next xs = some (t, rest)) :
    r.read xs = (t :: (r.read rest).1, (r.read rest).2) := by
  rw [read]
  split
  · next heq => simp [h] at heq
  · next heq =>
    obtain ⟨rfl, rfl⟩ := Prod.mk.inj (Option.some.inj (h.symm.trans heq))
    rfl

/-- What is left after one list is read again in front of the next. -/
theorem read_append (r : Reader β τ) (xs ys : List β) :
    r.read (xs ++ ys) =
      ((r.read xs).1 ++ (r.read ((r.read xs).2 ++ ys)).1, (r.read ((r.read xs).2 ++ ys)).2) := by
  induction hn : xs.length using Nat.strong_induction_on generalizing xs with
  | _ n ih =>
    cases h : r.next xs with
    | none => simp [read_of_none h]
    | some p =>
      obtain ⟨t, rest⟩ := p
      have hrest := ih rest.length (hn ▸ r.shorter h) rest rfl
      rw [read_of_some h, read_of_some (r.extend ys h), hrest, List.cons_append]

/-- Groups of a fixed size. -/
def groups {size : ℕ} (hsize : 0 < size) : Reader β (List β) where
  next xs := if size ≤ xs.length then some (xs.take size, xs.drop size) else none
  shorter := by
    intro xs t rest h
    split_ifs at h with hle
    cases h
    rw [List.length_drop]
    omega
  extend := by
    intro xs t rest ys h
    split_ifs at h with hle
    cases h
    rw [if_pos (by rw [List.length_append]; omega), List.take_append_of_le_length hle,
      List.drop_append_of_le_length hle]

section Groups
variable {size : ℕ} (hsize : 0 < size) {xs : List β}

lemma groups_short (h : xs.length < size) : (groups hsize).read xs = ([], xs) :=
  read_of_none (if_neg (not_le.mpr h))

lemma groups_long (h : size ≤ xs.length) :
    (groups hsize).read xs =
      (xs.take size :: ((groups hsize).read (xs.drop size)).1, ((groups hsize).read (xs.drop size)).2) :=
  read_of_some (if_pos h)

lemma groups_left (xs : List β) : ((groups hsize).read xs).2.length < size := by
  induction hn : xs.length using Nat.strong_induction_on generalizing xs with
  | _ n ih =>
    by_cases h : size ≤ xs.length
    · rw [groups_long hsize h]
      exact ih (xs.drop size).length (by rw [List.length_drop]; omega) _ rfl
    · rw [groups_short hsize (not_le.mp h)]
      exact not_le.mp h

end Groups

end Reader

/-- What a sequence of tokens puts out, each acting on the state left by the one before. -/
def outputs (act : σ → τ → List γ × σ) : σ → List τ → List γ
  | _, [] => []
  | s, t :: ts => (act s t).1 ++ outputs act (act s t).2 ts

@[simp] lemma outputs_nil (act : σ → τ → List γ × σ) (s : σ) : outputs act s [] = [] := rfl
@[simp] lemma outputs_cons (act : σ → τ → List γ × σ) (s : σ) (t : τ) (ts : List τ) :
    outputs act s (t :: ts) = (act s t).1 ++ outputs act (act s t).2 ts := rfl

lemma outputs_append (act : σ → τ → List γ × σ) (s : σ) (ts us : List τ) :
    outputs act s (ts ++ us) =
      outputs act s ts ++ outputs act (ts.foldl (fun s t => (act s t).2) s) us := by
  induction ts generalizing s with
  | nil => rfl
  | cons t ts ih => simp [ih]

/-- Having put out `out` the decoder may forget `xs` but for `rest`. -/
def Resumes (whole : List β → List γ) (xs : List β) (out : List γ) (rest : List β) : Prop :=
  ∀ ys, whole (xs ++ ys) = out ++ whole (rest ++ ys)

namespace Resumes
variable {whole : List β → List γ} {xs rest rest' piece : List β} {out out' : List γ}

lemma refl (xs : List β) : Resumes whole xs [] xs := fun _ => rfl

lemma whole_eq (h : Resumes whole xs out rest) : whole xs = out ++ whole rest := by
  simpa only [List.append_nil] using h []

/-- One more piece, behind what was kept. -/
lemma feed (h : Resumes whole xs out rest) (hpiece : Resumes whole (rest ++ piece) out' rest') :
    Resumes whole (xs ++ piece) (out ++ out') rest' := by
  intro ys
  rw [List.append_assoc, h, ← List.append_assoc rest, hpiece, List.append_assoc]

end Resumes

end WaterHarp.TokenReader
