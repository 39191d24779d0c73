import Mathlib

/-! Rectangular windows of a matrix, cut off at its edges, and the row-major
list of the positions in them at which a predicate holds. -/
namespace WaterHarp.MatrixWindow

variable {h w : ℕ} {α M : Type*}

/-- `a[top:bottom, left:right]`. -/
def slice (a : Matrix (Fin h) (Fin w) α) (top bottom left right : ℕ) :
    Matrix (Fin (min bottom h-top)) (Fin (min right w-left)) α :=
  fun r c => a ⟨top+r, by omega⟩ ⟨left+c, by omega⟩

/-- The positions at which `p` holds, row by row. -/
def positions (p : α → Prop) [DecidablePred p] (a : Matrix (Fin h) (Fin w) α) : List (Fin h × Fin w) :=
  (List.finRange h ×ˢ List.finRange w).filter fun q => p (a q.1 q.2)

def Covers (top bottom left right : ℕ) (q : Fin h × Fin w) : Prop :=
  (top ≤ q.1.val ∧ q.1.val < bottom) ∧ left ≤ q.2.val ∧ q.2.val < right

instance (top bottom left right : ℕ) (q : Fin h × Fin w) : Decidable (Covers top bottom left right q) :=
  inferInstanceAs (Decidable (_ ∧ _))

lemma mem_positions {p : α → Prop} [DecidablePred p] {a : Matrix (Fin h) (Fin w) α} {q : Fin h × Fin w} :
    q ∈ positions p a ↔ p (a q.1 q.2) := by
  have hq : q ∈ List.finRange h ×ˢ List.finRange w :=
    List.mem_product.mpr ⟨List.mem_finRange _, List.mem_finRange _⟩
  simp [positions, List.mem_filter, hq]

lemma positions_nodup (p : α → Prop) [DecidablePred p] (a : Matrix (Fin h) (Fin w) α) :
    (positions p a).Nodup :=
  ((List.nodup_finRange h).product (List.nodup_finRange w)).filter _

/-- Summing over the listed positions of a window is summing over the matrix positions it covers. -/
theorem sum_positions_slice [AddCommMonoid M] (p : α → Prop) [DecidablePred p]
    (a : Matrix (Fin h) (Fin w) α) (top bottom left right : ℕ) (f : ℕ → ℕ → M) :
    ((positions p (slice a top bottom left right)).map fun q => f (top+q.1) (left+q.2)).sum =
      ∑ q : Fin h × Fin w with Covers top bottom left right q ∧ p (a q.1 q.2), f q.1 q.2 := by
  rw [← List.sum_toFinset _ (positions_nodup p _)]
  refine Finset.sum_bij' (fun q _ => (⟨top+q.1, by omega⟩, ⟨left+q.2, by omega⟩))
    (fun q hq => (⟨q.1-top, ?_⟩, ⟨q.2-left, ?_⟩)) ?_ ?_ ?_ ?_ ?_
  · have := (Finset.mem_filter.mp hq).2.1
    unfold Covers at this
    omega
  · have := (Finset.mem_filter.mp hq).2.1
    unfold Covers at this
    omega
  · intro q hq
    have hp := mem_positions.mp (List.mem_toFinset.mp hq)
    refine Finset.mem_filter.mpr ⟨Finset.mem_univ _, ?_, hp⟩
    simp only [Covers]
    omega
  · intro q hq
    obtain ⟨-, hc, hp⟩ := Finset.mem_filter.mp hq
    obtain ⟨⟨ht, -⟩, hl, -⟩ := hc
    refine List.mem_toFinset.mpr (mem_positions.mpr ?_)
    simpa only [slice, Nat.add_sub_cancel' ht, Nat.add_sub_cancel' hl] using hp
  · intro q _
    simp
  · intro q hq
    obtain ⟨⟨ht, -⟩, hl, -⟩ := (Finset.mem_filter.mp hq).2.1
    simp only [Nat.add_sub_cancel' ht, Nat.add_sub_cancel' hl]
  · intro q _
    rfl

theorem length_positions_slice (p : α → Prop) [DecidablePred p] (a : Matrix (Fin h) (Fin w) α)
    (top bottom left right : ℕ) :
    (positions p (slice a top bottom left right)).length =
      (Finset.univ.filter fun q : Fin h × Fin w =>
        Covers top bottom left right q ∧ p (a q.1 q.2)).card := by
  have := sum_positions_slice p a top bottom left right (fun _ _ => 1)
  simpa using this

end WaterHarp.MatrixWindow
