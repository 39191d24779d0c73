import WaterHarp.Program

/-! Commands which log the events they perform. A claim about such a command
speaks of the new events and the state after them; the claims of a loop are
those of its rounds, one segment of the log for each round. -/
namespace WaterHarp.EventLog
open Program

variable {σ E ε α : Type*}

structure Log (σ E : Type*) where
  Acts : σ → List E → σ → Prop
  nil : ∀ s, Acts s [] s
  append : ∀ {s t u es fs}, Acts s es t → Acts t fs u → Acts s (es ++ fs) u

/-- From `s` the command finishes, and its new events and final state satisfy `Q`. -/
def Performs (L : Log σ E) (c : σ → Outcome ε σ) (s : σ) (Q : List E → σ → Prop) : Prop :=
  ∃ es t, c s = .done t ∧ L.Acts s es t ∧ Q es t

variable {L : Log σ E} {c : σ → Outcome ε σ} {s : σ} {Q R : List E → σ → Prop}

lemma performs_done {t : σ} {es : List E} (ht : c s = .done t) (hacts : L.Acts s es t)
    (hq : Q es t) : Performs L c s Q := ⟨es, t, ht, hacts, hq⟩

namespace Performs

lemma conseq (h : Performs L c s Q) (hqr : ∀ es t, Q es t → R es t) : Performs L c s R := by
  obtain ⟨es, t, ht, hacts, hq⟩ := h
  exact ⟨es, t, ht, hacts, hqr es t hq⟩

end Performs

/-- The rounds of a loop log one segment each. -/
theorem performs_runAll {command : α → σ → Outcome ε σ} {xs : List α} {Inv : σ → Prop}
    {P : α → List E → Prop} (hs : Inv s)
    (step : ∀ x ∈ xs, ∀ s, Inv s → Performs L (command x) s (fun es t => P x es ∧ Inv t)) :
    Performs L (runAll command xs) s
      (fun es t => Inv t ∧ ∃ segments, segments.flatten = es ∧ List.Forall₂ P xs segments) := by
  induction xs using List.reverseRecOn with
  | nil => exact ⟨[], s, rfl, L.nil s, hs, [], rfl, .nil⟩
  | append_singleton xs x ih =>
    obtain ⟨es, t, ht, hacts, hinv, segments, rfl, hsegments⟩ :=
      ih fun y hy => step y (by simp [hy])
    obtain ⟨fs, u, hu, hacts', hp, hinv'⟩ := step x (by simp) t hinv
    refine ⟨_, u, ?_, L.append hacts hacts', hinv', segments ++ [fs], by simp, ?_⟩
    · rw [runAll_append_singleton, ht, Outcome.bind_done, hu]
    · exact List.rel_append hsegments (.cons hp .nil)

lemma exists_of_mem_segments {P : α → List E → Prop} {xs : List α} {segments : List (List E)}
    (h : List.Forall₂ P xs segments) {es : List E} (hes : es ∈ segments) : ∃ x ∈ xs, P x es := by
  induction h with
  | nil => exact absurd hes List.not_mem_nil
  | @cons x fs xs segments hx _ ih =>
    rcases List.mem_cons.mp hes with rfl | hes
    · exact ⟨x, by simp, hx⟩
    · obtain ⟨y, hy, hp⟩ := ih hes
      exact ⟨y, by simp [hy], hp⟩

lemma filterMap_segments {β : Type*} {f : E → Option β} {g : α → List β} {xs : List α}
    {segments : List (List E)} (h : List.Forall₂ (fun x es => es.filterMap f = g x) xs segments) :
    segments.flatten.filterMap f = xs.flatMap g := by
  induction h with
  | nil => rfl
  | cons hx _ ih => rw [List.flatten_cons, List.filterMap_append, hx, ih, List.flatMap_cons]

lemma flatMap_ite {β : Type*} (p : α → Prop) [DecidablePred p] (f : α → β) (xs : List α) :
    xs.flatMap (fun x => if p x then [f x] else []) = (xs.filter p).map f := by
  induction xs with
  | nil => rfl
  | cons x xs ih => by_cases hx : p x <;> simp [List.flatMap_cons, hx, ih]

end WaterHarp.EventLog
