import Mathlib

/-! A recorder which, once triggered, collects the next `n` items of a stream
into a batch. Triggers during a recording do nothing. -/
namespace WaterHarp.BurstRecorder

inductive Input (α : Type*)
  | trigger
  | item (x : α)
  | skip
  deriving DecidableEq, Repr

structure Recorder (α : Type*) where
  current : Option (List α)
  batches : List (List α)
  deriving DecidableEq, Repr

variable {α : Type*}

def start : Recorder α := ⟨none, []⟩

def step (n : ℕ) (r : Recorder α) : Input α → Recorder α
  | .trigger => { r with current := some (r.current.getD []) }
  | .skip => r
  | .item x =>
    match r.current with
    | none => r
    | some xs =>
      if xs.length+1 = n then ⟨none, r.batches ++ [xs ++ [x]]⟩ else ⟨some (xs ++ [x]), r.batches⟩

def run (n : ℕ) (ins : List (Input α)) : Recorder α := ins.foldl (step n) start

def items (ins : List (Input α)) : List α :=
  ins.filterMap fun
    | .item x => some x
    | _ => none

/-- A trigger found the recorder idle after exactly `p` items. -/
def Began (n : ℕ) (ins : List (Input α)) (p : ℕ) : Prop :=
  ∃ before after, ins = before ++ .trigger :: after ∧ (run n before).current = none ∧
    (items before).length = p

@[simp] lemma run_append_singleton (n : ℕ) (ins : List (Input α)) (i : Input α) :
    run n (ins ++ [i]) = step n (run n ins) i := by
  simp [run]

@[simp] lemma items_append (ins ins' : List (Input α)) : items (ins ++ ins') = items ins ++ items ins' :=
  List.filterMap_append

@[simp] lemma items_trigger : items ([.trigger] : List (Input α)) = [] := rfl
@[simp] lemma items_skip : items ([.skip] : List (Input α)) = [] := rfl
@[simp] lemma items_item (x : α) : items [.item x] = [x] := rfl

lemma Began.append {n : ℕ} {ins : List (Input α)} {p : ℕ} (h : Began n ins p) (later : List (Input α)) :
    Began n (ins ++ later) p := by
  obtain ⟨before, after, rfl, hidle, hp⟩ := h
  exact ⟨before, after ++ later, by simp, hidle, hp⟩

def IsBurst (n : ℕ) (ins : List (Input α)) (p : ℕ) (batch : List α) : Prop :=
  Began n ins p ∧ p+n ≤ (items ins).length ∧ batch = ((items ins).drop p).take n

lemma IsBurst.append {n : ℕ} {ins : List (Input α)} {p : ℕ} {batch : List α}
    (h : IsBurst n ins p batch) (later : List (Input α)) : IsBurst n (ins ++ later) p batch := by
  obtain ⟨hbegan, hlen, rfl⟩ := h
  refine ⟨hbegan.append later, by simp; omega, ?_⟩
  rw [items_append, List.drop_append_of_le_length (by omega), List.take_append_of_le_length]
  rw [List.length_drop]
  omega

lemma IsBurst.length {n : ℕ} {ins : List (Input α)} {p : ℕ} {batch : List α}
    (h : IsBurst n ins p batch) : batch.length = n := by
  obtain ⟨-, hlen, rfl⟩ := h
  rw [List.length_take, List.length_drop]
  omega

/-- The history of a run: where each batch started, and where the unfinished one did. -/
structure History (n : ℕ) (ins : List (Input α)) (starts : List ℕ) : Prop where
  bursts : List.Forall₂ (IsBurst n ins) starts (run n ins).batches
  apart : starts.Pairwise fun p q => p+n ≤ q
  current : ∀ xs, (run n ins).current = some xs → xs.length < n ∧
    ∃ p, Began n ins p ∧ p ≤ (items ins).length ∧ xs = (items ins).drop p ∧ ∀ q ∈ starts, q+n ≤ p

lemma History.le_items {n : ℕ} {ins : List (Input α)} {starts : List ℕ} (h : History n ins starts) :
    ∀ q ∈ starts, q+n ≤ (items ins).length := by
  intro q hq
  have hall : ∀ {ps : List ℕ} {bs : List (List α)}, List.Forall₂ (IsBurst n ins) ps bs →
      ∀ p ∈ ps, p+n ≤ (items ins).length := by
    intro ps bs hf
    induction hf with
    | nil => simp
    | cons hb _ ih => exact List.forall_mem_cons.mpr ⟨hb.2.1, ih⟩
  exact hall h.bursts q hq

lemma History.bursts_append {n : ℕ} {ins : List (Input α)} {starts : List ℕ} (h : History n ins starts)
    (later : List (Input α)) :
    List.Forall₂ (IsBurst n (ins ++ later)) starts (run n ins).batches :=
  h.bursts.imp fun _ _ hb => hb.append later

lemma History.keep {n : ℕ} {ins : List (Input α)} {starts : List ℕ} (h : History n ins starts)
    {i : Input α} (hrun : step n (run n ins) i = run n ins) (hcur : (run n ins).current = none ∨ items [i] = []) :
    History n (ins ++ [i]) starts := by
  refine ⟨?_, h.apart, fun xs hxs => ?_⟩
  · rw [run_append_singleton, hrun]
    exact h.bursts_append [i]
  · rw [run_append_singleton, hrun] at hxs
    rcases hcur with hnone | hitem
    · simp [hnone] at hxs
    · obtain ⟨hlen, p, hbegan, hle, hdrop, hstarts⟩ := h.current xs hxs
      refine ⟨hlen, p, hbegan.append [i], ?_, ?_, hstarts⟩
      · simpa [hitem] using hle
      · simpa [hitem] using hdrop

lemma History.trigger {n : ℕ} (hn : 0 < n) {ins : List (Input α)} {starts : List ℕ}
    (h : History n ins starts) : History n (ins ++ [.trigger]) starts := by
  cases hc : (run n ins).current with
  | some xs =>
    refine h.keep ?_ (Or.inr rfl)
    rw [step, hc, Option.getD_some, ← hc]
  | none =>
    refine ⟨?_, h.apart, fun xs hxs => ?_⟩
    · rw [run_append_singleton, step]
      exact h.bursts_append [.trigger]
    · simp only [run_append_singleton, step, hc, Option.getD_none, Option.some.injEq] at hxs
      subst hxs
      refine ⟨hn, (items ins).length, ⟨ins, [], rfl, hc, rfl⟩, by simp, by simp, h.le_items⟩

lemma History.item {n : ℕ} {ins : List (Input α)} {starts : List ℕ} (h : History n ins starts) (x : α) :
    ∃ starts', History n (ins ++ [.item x]) starts' := by
  cases hc : (run n ins).current with
  | none => exact ⟨starts, h.keep (by rw [step, hc]) (Or.inl hc)⟩
  | some xs =>
    obtain ⟨hlen, p, hbegan, hle, hdrop, hstarts⟩ := h.current xs hc
    have hxs : xs.length = (items ins).length-p := by rw [hdrop, List.length_drop]
    have hnext : xs ++ [x] = (items (ins ++ [.item x])).drop p := by
      rw [items_append, items_item, List.drop_append_of_le_length hle, hdrop]
    by_cases hfull : xs.length+1 = n
    · refine ⟨starts ++ [p], ?_, ?_, fun ys hys => ?_⟩
      · simp only [run_append_singleton, step, hc, if_pos hfull]
        refine List.rel_append (h.bursts_append _) (List.Forall₂.cons ⟨hbegan.append _, ?_, ?_⟩ .nil)
        · simp only [items_append, items_item, List.length_append, List.length_singleton]
          omega
        · rw [← hnext, List.take_of_length_le (by simp; omega)]
      · refine List.pairwise_append.mpr ⟨h.apart, List.pairwise_singleton _ _, ?_⟩
        intro q hq p' hp'
        rw [List.mem_singleton.mp hp']
        exact hstarts q hq
      · simp [step, hc, hfull] at hys
    · refine ⟨starts, ?_, h.apart, fun ys hys => ?_⟩
      · simp only [run_append_singleton, step, hc, if_neg hfull]
        exact h.bursts_append _
      · simp only [run_append_singleton, step, hc, if_neg hfull, Option.some.injEq] at hys
        subst hys
        refine ⟨by simp; omega, p, hbegan.append _, ?_, hnext, hstarts⟩
        rw [items_append, List.length_append]
        omega

/-- Every run has a history: its batches are disjoint bursts of the stream. -/
theorem run_history {n : ℕ} (hn : 0 < n) (ins : List (Input α)) : ∃ starts, History n ins starts := by
  induction ins using List.reverseRecOn with
  | nil => exact ⟨[], .nil, .nil, fun xs hxs => by simp [run, start] at hxs⟩
  | append_singleton ins i ih =>
    obtain ⟨starts, h⟩ := ih
    cases i with
    | trigger => exact ⟨starts, h.trigger hn⟩
    | skip => exact ⟨starts, h.keep rfl (Or.inr rfl)⟩
    | item x => exact h.item x

end WaterHarp.BurstRecorder
