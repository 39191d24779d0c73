import Mathlib

/-! Streams of start and stop commands on keys, with a reset which stops every
key. The receiver's state is the set of active keys. -/
namespace WaterHarp.NoteStream

inductive Command (κ ν : Type*)
  | on (key : κ) (value : ν)
  | off (key : κ) (value : ν)
  | reset
  deriving DecidableEq, Repr

variable {κ ν : Type*}

def Command.apply (s : Set κ) : Command κ ν → Set κ
  | .on k _ => insert k s
  | .off k _ => s \ {k}
  | .reset => ∅

def active (s : Set κ) (cs : List (Command κ ν)) : Set κ := cs.foldl Command.apply s

@[simp] lemma apply_on (s : Set κ) (k : κ) (v : ν) : (Command.on k v).apply s = insert k s := rfl
@[simp] lemma apply_off (s : Set κ) (k : κ) (v : ν) : (Command.off k v).apply s = s \ {k} := rfl
@[simp] lemma apply_reset (s : Set κ) : (Command.reset : Command κ ν).apply s = ∅ := rfl
@[simp] lemma active_nil (s : Set κ) : active s ([] : List (Command κ ν)) = s := rfl
@[simp] lemma active_cons (s : Set κ) (c : Command κ ν) (cs : List (Command κ ν)) :
    active s (c :: cs) = active (c.apply s) cs := rfl

lemma active_append (s : Set κ) (cs ds : List (Command κ ν)) :
    active s (cs ++ ds) = active (active s cs) ds := List.foldl_append

lemma active_append_singleton (s : Set κ) (cs : List (Command κ ν)) (c : Command κ ν) :
    active s (cs ++ [c]) = c.apply (active s cs) := by
  rw [active_append, active_cons, active_nil]

/-- Whatever is active was active before or has been started since. -/
theorem mem_active_started {s : Set κ} {cs : List (Command κ ν)} {k : κ}
    (h : k ∈ active s cs) : k ∈ s ∨ ∃ v, Command.on k v ∈ cs := by
  induction cs generalizing s with
  | nil => exact Or.inl h
  | cons c cs ih =>
    obtain hs | ⟨v, hv⟩ := ih h
    · cases c with
      | on k' v =>
        obtain rfl | hs := hs
        · exact Or.inr ⟨v, by simp⟩
        · exact Or.inl hs
      | off k' v => exact Or.inl hs.1
      | reset => exact hs.elim
    · exact Or.inr ⟨v, by simp [hv]⟩

/-- Every command of the stream meets `P` at the moment it is sent. -/
def Throughout (P : Set κ → Command κ ν → Prop) : Set κ → List (Command κ ν) → Prop
  | _, [] => True
  | s, c :: cs => P s c ∧ Throughout P (c.apply s) cs

@[simp] lemma throughout_nil (P : Set κ → Command κ ν → Prop) (s : Set κ) : Throughout P s [] := trivial
@[simp] lemma throughout_cons (P : Set κ → Command κ ν → Prop) (s : Set κ) (c : Command κ ν)
    (cs : List (Command κ ν)) :
    Throughout P s (c :: cs) ↔ P s c ∧ Throughout P (c.apply s) cs := Iff.rfl

lemma throughout_append {P : Set κ → Command κ ν → Prop} {s : Set κ} {cs ds : List (Command κ ν)} :
    Throughout P s (cs ++ ds) ↔ Throughout P s cs ∧ Throughout P (active s cs) ds := by
  induction cs generalizing s with
  | nil => simp
  | cons c cs ih => simp [ih, and_assoc]

lemma throughout_append_singleton {P : Set κ → Command κ ν → Prop} {s : Set κ}
    {cs : List (Command κ ν)} {c : Command κ ν} :
    Throughout P s (cs ++ [c]) ↔ Throughout P s cs ∧ P (active s cs) c := by
  simp [throughout_append]

lemma Throughout.and {P Q : Set κ → Command κ ν → Prop} {s : Set κ} {cs : List (Command κ ν)}
    (hp : Throughout P s cs) (hq : Throughout Q s cs) : Throughout (fun s c => P s c ∧ Q s c) s cs := by
  induction cs generalizing s with
  | nil => trivial
  | cons c cs ih => exact ⟨⟨hp.1, hq.1⟩, ih hp.2 hq.2⟩

def StartsSilent (s : Set κ) : Command κ ν → Prop
  | .on k _ => k ∉ s
  | _ => True

def StopsActive (s : Set κ) : Command κ ν → Prop
  | .off k _ => k ∈ s
  | _ => True

/-- Neither a repeated start nor an orphan stop. -/
def Orderly (s : Set κ) (c : Command κ ν) : Prop := StartsSilent s c ∧ StopsActive s c

def Ends (k : κ) : Command κ ν → Prop
  | .off k' _ => k' = k
  | .reset => True
  | .on _ _ => False

lemma mem_active_of_not_ended {s : Set κ} {k : κ} {cs : List (Command κ ν)} (hk : k ∈ s)
    (h : ∀ c ∈ cs, ¬ Ends k c) : k ∈ active s cs := by
  induction cs generalizing s with
  | nil => exact hk
  | cons c cs ih =>
    refine ih ?_ (fun d hd => h d (by simp [hd]))
    have hc := h c (by simp)
    cases c with
    | on k' v => exact Set.mem_insert_of_mem _ hk
    | off k' v => exact ⟨hk, fun he => hc he.symm⟩
    | reset => exact (hc trivial).elim

/-- Between two starts of one key the key is ended. -/
theorem ended_between_starts {s : Set κ} {k : κ} {v w : ν} {before between after : List (Command κ ν)}
    (h : Throughout StartsSilent s (before ++ Command.on k v :: between ++ Command.on k w :: after)) :
    ∃ c ∈ between, Ends k c := by
  by_contra hn
  push Not at hn
  have hsecond := (throughout_append.mp h).2.1
  rw [active_append, active_cons] at hsecond
  exact hsecond (mem_active_of_not_ended (Set.mem_insert k _) hn)

end WaterHarp.NoteStream
