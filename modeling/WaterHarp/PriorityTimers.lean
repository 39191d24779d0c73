import Mathlib

/-! Timers with periods, polled in a fixed order of priority. A poll serves the first
timer which it finds due and no other; frequent polls serve every timer in bounded time. -/
namespace WaterHarp.PriorityTimers

variable {ι T : Type*} [LinearOrder ι]

def Serves (due : ι → Prop) (i : ι) : Prop := due i ∧ ∀ j < i, ¬ due j

/-- One poll at the time `t`. -/
inductive Poll (due : ι → Prop) (last : ι → T) (t : T) : (ι → T) → Prop
  | idle (h : ∀ i, ¬ due i) : Poll due last t last
  | serve {i : ι} (h : Serves due i) : Poll due last t (Function.update last i t)

variable [AddCommMonoid T] [LinearOrder T]

/-- More than the period has passed since the timer was last served. -/
def Due (period last : ι → T) (t : T) (i : ι) : Prop := last i+period i < t

variable {period : ι → T} {due : ℕ → ι → Prop} {last : ℕ → ι → T} {t : ℕ → T} {i : ι} {n : ℕ}

omit [LinearOrder ι] in
lemma Due.later {last : ι → T} {t t' : T} (h : Due period last t i) (ht : t ≤ t') : Due period last t' i :=
  h.trans_le ht

omit [LinearOrder ι] in
/-- A timer which has been served is not due again before its period has passed. -/
lemma not_due_of_served [IsOrderedAddMonoid T] {last : ι → T} {t₀ t : T} {j : ι} (hserved : t₀ ≤ last j)
    (hspan : t ≤ t₀+period j) : ¬ Due period last t j :=
  not_lt.mpr (hspan.trans (add_le_add_left hserved _))

/-- Polls at `n` times, which find no timer due too early, and timer `i` whenever it is due
and has not been served. -/
structure Watch (period : ι → T) (due : ℕ → ι → Prop) (last : ℕ → ι → T) (t : ℕ → T) (i : ι) (n : ℕ) :
    Prop where
  polls : ∀ k < n, Poll (due k) (last k) (t k) (last (k+1))
  sound : ∀ k < n, ∀ j < i, due k j → Due period (last k) (t k) j
  complete : ∀ k < n, last k i = last 0 i → Due period (last k) (t k) i → due k i
  first : ∀ k < n, t 0 ≤ t k
  span : ∀ k < n, ∀ j < i, t k ≤ t 0+period j

/-- Until timer `i` is served, each poll serves a timer before it which no poll has served yet. -/
lemma Watch.served_or_others [IsOrderedAddMonoid T] [LocallyFiniteOrderBot ι]
    (h : Watch period due last t i n) (hdue : Due period (last 0) (t 0) i) {k : ℕ} (hk : k ≤ n) :
    (∃ m < k, Serves (due m) i) ∨
    last k i = last 0 i ∧ ∃ served ⊆ Finset.Iio i, served.card = k ∧ ∀ j ∈ served, t 0 ≤ last k j := by
  induction k with
  | zero => exact .inr ⟨rfl, ∅, Finset.empty_subset _, rfl, by simp⟩
  | succ k ih =>
    have hkn : k < n := hk
    cases ih hkn.le with
    | inl hserved =>
      obtain ⟨m, hm, hserves⟩ := hserved
      exact .inl ⟨m, by omega, hserves⟩
    | inr hothers =>
      obtain ⟨hlast, served, hsub, hcard, hages⟩ := hothers
      have hlater : Due period (last k) (t k) i := by
        rw [Due, hlast]
        exact hdue.later (h.first k hkn)
      have hduek : due k i := h.complete k hkn hlast hlater
      have hpoll := h.polls k hkn
      generalize last (k+1) = last' at hpoll
      cases hpoll with
      | idle hidle => exact absurd hduek (hidle i)
      | @serve j hserves =>
        cases lt_trichotomy j i with
        | inr hge =>
          cases hge with
          | inl heq =>
            rw [heq] at hserves
            exact .inl ⟨k, by omega, hserves⟩
          | inr hgt => exact absurd hduek (hserves.2 i hgt)
        | inl hlt =>
          have hnew : j ∉ served := fun hj =>
            not_due_of_served (hages j hj) (h.span k hkn j hlt) (h.sound k hkn j hlt hserves.1)
          refine .inr ⟨?_, insert j served, ?_, ?_, ?_⟩
          · rw [Function.update_of_ne (ne_of_gt hlt), hlast]
          · exact Finset.insert_subset (Finset.mem_Iio.mpr hlt) hsub
          · rw [Finset.card_insert_of_notMem hnew, hcard]
          · intro m hm
            by_cases hmj : m = j
            · rw [hmj, Function.update_self]
              exact h.first k hkn
            · rw [Function.update_of_ne hmj]
              exact hages m (Finset.mem_of_mem_insert_of_ne hm hmj)

/-- A timer which is due is served by one of as many polls as there are timers up to it,
when the polls are not spread over more than any period before it. -/
theorem Watch.served_within [IsOrderedAddMonoid T] [LocallyFiniteOrderBot ι]
    (h : Watch period due last t i n) (hdue : Due period (last 0) (t 0) i)
    (hn : (Finset.Iio i).card < n) : ∃ k < n, Serves (due k) i := by
  cases h.served_or_others hdue le_rfl with
  | inl hserved => exact hserved
  | inr hothers =>
    obtain ⟨-, served, hsub, hcard, -⟩ := hothers
    have hle := Finset.card_le_card hsub
    omega

end WaterHarp.PriorityTimers
