import Mathlib

/-! Run-length coding of a list, one element after the other: a pending run grows
with equal elements and is emitted before the first different one. -/
namespace WaterHarp.RunLength

variable {α : Type*}

def expand (runs : List (α × ℕ)) : List α := runs.flatMap fun r => List.replicate r.2 r.1

@[simp] lemma expand_nil : expand ([] : List (α × ℕ)) = [] := rfl

lemma expand_append_singleton (runs : List (α × ℕ)) (x : α) (n : ℕ) :
    expand (runs ++ [(x, n)]) = expand runs ++ List.replicate n x := by
  simp [expand]

/-- The runs emitted, and the pending run, which may be empty. -/
structure Coder (α : Type*) where
  emitted : List (α × ℕ)
  value : α
  count : ℕ

def Coder.flush (c : Coder α) : List (α × ℕ) :=
  if 0 < c.count then c.emitted ++ [(c.value, c.count)] else c.emitted

/-- The elements have been coded: only before the first one the pending run is empty. -/
structure Codes (c : Coder α) (xs : List α) : Prop where
  expands : expand c.flush = xs
  chain : c.flush.IsChain fun r s => r.1 ≠ s.1
  positive : ∀ r ∈ c.flush, 0 < r.2
  started : c.count = 0 → c.emitted = []

variable [DecidableEq α]

def Coder.step (c : Coder α) (x : α) : Coder α :=
  if c.value ≠ x then ⟨c.flush, x, 1⟩ else { c with count := c.count+1 }

/-- Coding starts from an empty run of an arbitrary value. -/
def coder (start : α) (xs : List α) : Coder α := xs.foldl Coder.step ⟨[], start, 0⟩

lemma coder_append_singleton (start : α) (xs : List α) (x : α) :
    coder start (xs ++ [x]) = (coder start xs).step x := by
  simp [coder]

omit [DecidableEq α] in
lemma codes_singleton (x : α) : Codes ⟨[], x, 1⟩ [x] where
  expands := rfl
  chain := List.isChain_singleton _
  positive r hr := by
    rw [List.mem_singleton.mp hr]
    exact Nat.one_pos
  started hzero := absurd hzero one_ne_zero

omit [DecidableEq α] in
lemma Codes.grow {c : Coder α} {xs : List α} (h : Codes c xs) :
    Codes { c with count := c.count+1 } (xs ++ [c.value]) := by
  have hflush : Coder.flush { c with count := c.count+1 } = c.emitted ++ [(c.value, c.count+1)] :=
    if_pos (Nat.succ_pos _)
  by_cases hpos : 0 < c.count
  · have hold : c.flush = c.emitted ++ [(c.value, c.count)] := if_pos hpos
    constructor
    · rw [hflush, expand_append_singleton, List.replicate_succ', ← List.append_assoc,
        ← expand_append_singleton, ← hold, h.expands]
    · have hchain := h.chain
      rw [hold, List.isChain_append] at hchain
      rw [hflush, List.isChain_append]
      refine ⟨hchain.1, List.isChain_singleton _, ?_⟩
      simpa using hchain.2.2
    · intro r hr
      rw [hflush, List.mem_append, List.mem_singleton] at hr
      cases hr with
      | inl hr => exact h.positive r (by simp [hold, hr])
      | inr hr => simp [hr]
    · intro hzero
      exact absurd hzero (Nat.succ_ne_zero _)
  · have hzero : c.count = 0 := Nat.eq_zero_of_not_pos hpos
    have hempty : xs = [] := by rw [← h.expands, Coder.flush, if_neg hpos, h.started hzero, expand_nil]
    rw [h.started hzero, hzero, hempty]
    exact codes_singleton c.value

omit [DecidableEq α] in
lemma Codes.emit {c : Coder α} {xs : List α} (h : Codes c xs) {x : α} (hx : c.value ≠ x) :
    Codes ⟨c.flush, x, 1⟩ (xs ++ [x]) := by
  have hflush : Coder.flush ⟨c.flush, x, 1⟩ = c.flush ++ [(x, 1)] := if_pos Nat.one_pos
  constructor
  · rw [hflush, expand_append_singleton, h.expands]
    rfl
  · rw [hflush, List.isChain_append]
    refine ⟨h.chain, List.isChain_singleton _, ?_⟩
    intro r hr s hs
    rw [List.head?_cons, Option.mem_some_iff] at hs
    rw [← hs]
    -- the last run emitted is the pending one, and there is none before the first element
    unfold Coder.flush at hr
    split_ifs at hr with hpos
    · rw [List.getLast?_concat, Option.mem_some_iff] at hr
      rw [← hr]
      exact hx
    · rw [h.started (Nat.eq_zero_of_not_pos hpos)] at hr
      cases hr
  · intro r hr
    rw [hflush, List.mem_append, List.mem_singleton] at hr
    cases hr with
    | inl hr => exact h.positive r hr
    | inr hr => simp [hr]
  · intro hzero
    exact absurd hzero one_ne_zero

lemma Codes.step {c : Coder α} {xs : List α} (h : Codes c xs) (x : α) : Codes (c.step x) (xs ++ [x]) := by
  unfold Coder.step
  split_ifs with hx
  · exact h.emit hx
  · rw [← not_not.mp hx]
    exact h.grow

/-- A list is coded without loss, in maximal runs. -/
theorem coder_codes (start : α) (xs : List α) : Codes (coder start xs) xs := by
  induction xs using List.reverseRecOn with
  | nil => exact ⟨rfl, .nil, by simp [coder, Coder.flush], fun _ => rfl⟩
  | append_singleton xs x ih =>
    rw [coder_append_singleton]
    exact ih.step x

lemma count_le_length (start : α) (xs : List α) : (coder start xs).count ≤ xs.length := by
  induction xs using List.reverseRecOn with
  | nil => exact le_rfl
  | append_singleton xs x ih =>
    rw [coder_append_singleton, Coder.step, List.length_append, List.length_singleton]
    split_ifs
    · exact Nat.le_add_left 1 _
    · exact Nat.succ_le_succ ih

end WaterHarp.RunLength
