import Mathlib

/-! Durations laid end to end, and a window of time watched by a clock which is
read at irregular instants. -/
namespace WaterHarp.Timeline

section Intervals
variable (durs : List ℕ)

/-- The time before the interval of index `k`. -/
def startOf (k : ℕ) : ℕ := (durs.take k).sum

variable {durs}

lemma startOf_succ {k : ℕ} (hk : k < durs.length) : startOf durs (k+1) = startOf durs k+durs[k] := by
  rw [startOf, List.take_succ_eq_append_getElem hk, List.sum_append, List.sum_singleton, startOf]

lemma startOf_length : startOf durs durs.length = durs.sum := by rw [startOf, List.take_length]

lemma startOf_mono (durs : List ℕ) {k l : ℕ} (hkl : k ≤ l) : startOf durs k ≤ startOf durs l :=
  ((List.take_sublist_take_left hkl).sum_le_sum fun _ _ => Nat.zero_le _)

theorem exists_interval (durs : List ℕ) {i : ℕ} (hi : i < durs.sum) :
    ∃ k < durs.length, startOf durs k ≤ i ∧ i < startOf durs (k+1) := by
  have hend : i < startOf durs durs.length := by rwa [startOf_length]
  have hex : ∃ k, i < startOf durs k := ⟨_, hend⟩
  obtain ⟨k, hk⟩ : ∃ k, Nat.find hex = k+1 := by
    refine Nat.exists_eq_succ_of_ne_zero fun h0 => ?_
    have := Nat.find_spec hex
    rw [h0] at this
    exact absurd this (by simp [startOf])
  have hle : k+1 ≤ durs.length := hk ▸ Nat.find_min' hex hend
  refine ⟨k, hle, not_lt.mp (Nat.find_min hex (by omega)), ?_⟩
  rw [← hk]
  exact Nat.find_spec hex

theorem interval_unique {i k l : ℕ} (hk : startOf durs k ≤ i ∧ i < startOf durs (k+1))
    (hl : startOf durs l ≤ i ∧ i < startOf durs (l+1)) : k = l := by
  rcases lt_trichotomy k l with h | h | h
  · have := startOf_mono durs (show k+1 ≤ l by omega)
    omega
  · exact h
  · have := startOf_mono durs (show l+1 ≤ k by omega)
    omega

end Intervals

section Samples
variable {T : Type*} [LinearOrder T]

lemma exists_first {es : List T} {bound : T} (h : ∃ e ∈ es, bound ≤ e) :
    ∃ before e after, es = before ++ e :: after ∧ (∀ x ∈ before, x < bound) ∧ bound ≤ e := by
  induction es with
  | nil => simp at h
  | cons e es ih =>
    by_cases he : bound ≤ e
    · exact ⟨[], e, es, rfl, by simp, he⟩
    · have hrest : ∃ e ∈ es, bound ≤ e := by simpa [he] using h
      obtain ⟨before, f, after, rfl, hbefore, hf⟩ := ih hrest
      exact ⟨e :: before, f, after, rfl, by simpa [not_le.mp he] using hbefore, hf⟩

/-- Instants which begin before the end of a window and are not further apart than its
width meet the window before they leave it behind. -/
theorem exists_mem_window [AddCommGroup T] [IsOrderedAddMonoid T] {es : List T} {start width : T}
    (hfirst : ∀ e ∈ es.head?, e < start+width)
    (hgap : List.IsChain (fun x y => y ≤ x+width) es) (hpast : ∃ e ∈ es, start ≤ e) :
    ∃ e ∈ es, start ≤ e ∧ e < start+width := by
  obtain ⟨before, e, after, rfl, hbefore, he⟩ := exists_first hpast
  refine ⟨e, by simp, he, ?_⟩
  rcases List.eq_nil_or_concat before with rfl | ⟨before, x, rfl⟩
  · exact hfirst e (by simp)
  · have hx : x < start := hbefore x (by simp)
    have hstep : e ≤ x+width := by
      rw [List.concat_eq_append, List.append_assoc, List.singleton_append] at hgap
      exact (List.isChain_cons_cons.mp (List.isChain_append.mp hgap).2.1).1
    exact lt_of_le_of_lt hstep (add_lt_add_of_lt_of_le hx le_rfl)

lemma le_of_mem_dropWhile {es : List T} (hsorted : es.Pairwise (· ≤ ·)) (start : T) {e : T}
    (he : e ∈ es.dropWhile (· < start)) : start ≤ e := by
  induction es with
  | nil => simp at he
  | cons x es ih =>
    rw [List.pairwise_cons] at hsorted
    by_cases hx : x < start
    · exact ih hsorted.2 (by simpa [hx] using he)
    · rw [List.dropWhile_cons_of_neg (by simpa using hx)] at he
      rcases List.mem_cons.mp he with rfl | he
      · exact not_lt.mp hx
      · exact (not_lt.mp hx).trans (hsorted.1 e he)

lemma map_eq_replicate {α β : Type*} {f : α → β} {v : β} {xs : List α} (h : ∀ x ∈ xs, f x = v) :
    xs.map f = List.replicate xs.length v := by
  rw [List.map_congr_left h, List.map_const']

/-- The instants in a window follow each other without a gap. -/
theorem window_contiguous {es : List T} (hsorted : es.Pairwise (· ≤ ·)) (start stop : T) :
    ∃ p q r, es.map (fun e => decide (start ≤ e ∧ e < stop)) =
      List.replicate p false ++ (List.replicate q true ++ List.replicate r false) := by
  set late := es.dropWhile (· < start) with hlate
  have hlow := fun e (he : e ∈ late) => le_of_mem_dropWhile hsorted start he
  have hhigh := fun e (he : e ∈ late.dropWhile (· < stop)) =>
    le_of_mem_dropWhile (hsorted.sublist (List.dropWhile_sublist _)) stop he
  have hsplit : es = es.takeWhile (· < start) ++ (late.takeWhile (· < stop) ++ late.dropWhile (· < stop)) := by
    rw [List.takeWhile_append_dropWhile, hlate, List.takeWhile_append_dropWhile]
  set inside := fun e => decide (start ≤ e ∧ e < stop)
  have hearly : ∀ e ∈ es.takeWhile (· < start), inside e = false := by
    intro e he
    have hlt := List.mem_takeWhile_imp he
    simp only [decide_eq_true_eq] at hlt
    simp [inside, not_le.mpr hlt]
  have hmiddle : ∀ e ∈ late.takeWhile (· < stop), inside e = true := by
    intro e he
    have hlt := List.mem_takeWhile_imp he
    simp only [decide_eq_true_eq] at hlt
    simp [inside, hlt, hlow e ((List.takeWhile_sublist _).subset he)]
  have hafter : ∀ e ∈ late.dropWhile (· < stop), inside e = false := by
    intro e he
    simp [inside, not_lt.mpr (hhigh e he)]
  refine ⟨(es.takeWhile (· < start)).length, (late.takeWhile (· < stop)).length,
    (late.dropWhile (· < stop)).length, ?_⟩
  rw [← map_eq_replicate hearly, ← map_eq_replicate hmiddle, ← map_eq_replicate hafter,
    ← List.map_append, ← List.map_append, ← hsplit]

end Samples

end WaterHarp.Timeline
