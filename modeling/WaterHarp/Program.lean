import Mathlib

/-! Commands over an explicit state which either finish or raise. A raised
exception keeps the changes made before it, as in an imperative language.
Loops are enumerated, and each has one invariant rule. -/
namespace WaterHarp.Program

/-- How a command leaves its state. -/
inductive Outcome (ε σ : Type*)
  | done (s : σ)
  | raised (e : ε) (s : σ)
  deriving DecidableEq, Repr

namespace Outcome
variable {ε σ τ : Type*}

def state : Outcome ε σ → σ
  | done s => s
  | raised _ s => s

def bind (o : Outcome ε σ) (f : σ → Outcome ε σ) : Outcome ε σ :=
  match o with
  | done s => f s
  | raised e s => raised e s

def map (f : σ → τ) : Outcome ε σ → Outcome ε τ
  | done s => done (f s)
  | raised e s => raised e (f s)

@[simp] lemma state_done (s : σ) : (done s : Outcome ε σ).state = s := rfl
@[simp] lemma state_raised (e : ε) (s : σ) : (raised e s).state = s := rfl
@[simp] lemma bind_done (s : σ) (f : σ → Outcome ε σ) : (done s).bind f = f s := rfl
@[simp] lemma bind_raised (e : ε) (s : σ) (f : σ → Outcome ε σ) :
    (raised e s).bind f = raised e s := rfl
@[simp] lemma map_done (f : σ → τ) (s : σ) : (done s : Outcome ε σ).map f = done (f s) := rfl

lemma bind_assoc (o : Outcome ε σ) (f g : σ → Outcome ε σ) :
    (o.bind f).bind g = o.bind (fun s => (f s).bind g) := by
  cases o <;> rfl

end Outcome

variable {ε σ α : Type*}

/-- `for i, x in enumerate(xs, start)`. -/
def forEach (body : ℕ → α → σ → Outcome ε σ) : ℕ → List α → σ → Outcome ε σ
  | _, [], s => .done s
  | i, x :: xs, s => (body i x s).bind (forEach body (i+1) xs)

@[simp] lemma forEach_nil (body : ℕ → α → σ → Outcome ε σ) (i : ℕ) (s : σ) :
    forEach body i [] s = .done s := rfl

@[simp] lemma forEach_cons (body : ℕ → α → σ → Outcome ε σ) (i : ℕ) (x : α) (xs : List α) (s : σ) :
    forEach body i (x :: xs) s = (body i x s).bind (forEach body (i+1) xs) := rfl

lemma forEach_append (body : ℕ → α → σ → Outcome ε σ) (i : ℕ) (xs ys : List α) (s : σ) :
    forEach body i (xs ++ ys) s =
      (forEach body i xs s).bind (forEach body (i+xs.length) ys) := by
  induction xs generalizing i s with
  | nil => simp
  | cons x xs ih =>
    simp only [List.cons_append, forEach_cons, Outcome.bind_assoc, List.length_cons]
    congr 1
    funext t
    rw [ih, show i+1+xs.length = i+(xs.length+1) by omega]

/-- A loop which finishes has finished each of its rounds. -/
lemma forEach_done {body : ℕ → α → σ → Outcome ε σ} {i : ℕ} {xs ys : List α} {x : α} {s t : σ}
    (h : forEach body i (xs ++ x :: ys) s = .done t) : ∃ u v, body (i+xs.length) x u = .done v := by
  rw [forEach_append] at h
  cases hxs : forEach body i xs s with
  | raised e u => simp [hxs] at h
  | done u =>
    rw [hxs, Outcome.bind_done, forEach_cons] at h
    cases hx : body (i+xs.length) x u with
    | raised e v => simp [hx] at h
    | done v => exact ⟨u, v, hx⟩

/-- Total correctness: from every state with `P` the command finishes in one with `Q`. -/
def Establishes (P : σ → Prop) (c : σ → Outcome ε σ) (Q : σ → Prop) : Prop :=
  ∀ s, P s → ∃ t, c s = .done t ∧ Q t

namespace Establishes
variable {P Q : σ → Prop} {c : σ → Outcome ε σ}

lemma conseq {P' Q' : σ → Prop} (h : Establishes P c Q) (hp : ∀ s, P' s → P s)
    (hq : ∀ s, Q s → Q' s) : Establishes P' c Q' := by
  intro s hs
  obtain ⟨t, ht, hQ⟩ := h s (hp s hs)
  exact ⟨t, ht, hq t hQ⟩

end Establishes

/-- The invariant rule: `Inv n` holds once the first `n` elements have been treated. -/
theorem forEach_invariant (body : ℕ → α → σ → Outcome ε σ) (xs : List α)
    (Inv : ℕ → σ → Prop)
    (step : ∀ n (hn : n < xs.length), Establishes (Inv n) (body n xs[n]) (Inv (n+1))) :
    Establishes (Inv 0) (forEach body 0 xs) (Inv xs.length) := by
  suffices h : ∀ k (ys : List α), ys = xs.drop k → k ≤ xs.length →
      Establishes (Inv k) (forEach body k ys) (Inv xs.length) from
    h 0 xs (by simp) (Nat.zero_le _)
  intro k ys
  induction ys generalizing k with
  | nil =>
    intro hd hk s hs
    have hl : xs.length ≤ k := List.drop_eq_nil_iff.mp hd.symm
    exact ⟨s, rfl, by rwa [show xs.length = k by omega]⟩
  | cons y ys ih =>
    intro hd hk s hs
    have hlt : k < xs.length := by
      have := congrArg List.length hd
      simp only [List.length_cons, List.length_drop] at this
      omega
    obtain ⟨hy, hys⟩ := List.cons_eq_cons.mp (hd.trans (List.drop_eq_getElem_cons hlt))
    subst hy
    obtain ⟨t, ht, hinv⟩ := step k hlt s hs
    obtain ⟨u, hu, hpost⟩ := ih (k+1) hys hlt t hinv
    exact ⟨u, by simp [ht, hu], hpost⟩

def runAll (command : α → σ → Outcome ε σ) (xs : List α) (s : σ) : Outcome ε σ :=
  forEach (fun _ => command) 0 xs s

@[simp] lemma runAll_nil (command : α → σ → Outcome ε σ) (s : σ) : runAll command [] s = .done s := rfl

lemma runAll_cons (command : α → σ → Outcome ε σ) (x : α) (xs : List α) (s : σ) :
    runAll command (x :: xs) s = (command x s).bind (runAll command xs) := by
  have hshift : ∀ i (ys : List α), forEach (fun _ => command) i ys = runAll command ys := by
    intro i ys
    induction ys generalizing i with
    | nil => rfl
    | cons y ys ih =>
      funext t
      rw [forEach_cons, ih, runAll, forEach_cons, ih]
  rw [runAll, forEach_cons, hshift]

lemma runAll_append_singleton (command : α → σ → Outcome ε σ) (xs : List α) (x : α) (s : σ) :
    runAll command (xs ++ [x]) s = (runAll command xs s).bind (command x) := by
  have hone : forEach (fun _ => command) (0+xs.length) [x] = command x := by
    funext t
    simp only [forEach_cons]
    cases command x t <;> rfl
  rw [runAll, forEach_append, hone]
  rfl

theorem runAll_invariant (command : α → σ → Outcome ε σ) (xs : List α) (Inv : σ → Prop)
    (step : ∀ x ∈ xs, Establishes Inv (command x) Inv) :
    Establishes Inv (runAll command xs) Inv :=
  forEach_invariant _ xs (fun _ => Inv) (fun n hn => step xs[n] (List.getElem_mem hn))

/-- The states of a caller which carries on after an exception. -/
def persist (command : α → σ → Outcome ε σ) (xs : List α) (s : σ) : σ :=
  xs.foldl (fun t x => (command x t).state) s

lemma persist_append_singleton (command : α → σ → Outcome ε σ) (xs : List α) (x : α) (s : σ) :
    persist command (xs ++ [x]) s = (command x (persist command xs s)).state := by
  simp [persist]

end WaterHarp.Program
