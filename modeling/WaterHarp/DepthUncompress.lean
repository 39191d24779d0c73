import WaterHarp.DepthTokens

/-! `UncompressDepthPS` writes what the tokens of its input put out, and where it
stops early it may go on with the rest and any bytes behind it. -/
namespace WaterHarp.DepthUncompress
open TokenReader DepthDecoder DepthTokens

def inputElements (i : Input) : List ℕ :=
  (if i.shouldReadByte then [] else [i.lastByte.toNat &&& 0xf]) ++ elements i.currInput

lemma getNextInput_none {i : Input} (h : getNextInput i = none) :
    inputElements i = [] ∧ i.currInput = [] := by
  obtain ⟨curr, should, last⟩ := i
  cases should with
  | false => simp [getNextInput] at h
  | true =>
    cases curr with
    | nil => simp [inputElements]
    | cons b rest => simp [getNextInput] at h

/-- The bytes from the one being read on are the end of `bytes`. -/
def Reads (bytes : List UInt8) (i : Input) : Prop :=
  if i.shouldReadByte then i.currInput <:+ bytes else i.lastByte :: i.currInput <:+ bytes

lemma Reads.currInput {bytes : List UInt8} {i : Input} (h : Reads bytes i) : i.currInput <:+ bytes := by
  unfold Reads at h
  split at h
  · exact h
  · exact (List.suffix_cons _ _).trans h

lemma getNextInput_some {bytes : List UInt8} {i i' : Input} {value : ℕ} (h : getNextInput i = some (value, i'))
    (hreads : Reads bytes i) : inputElements i = value :: inputElements i' ∧ Reads bytes i' := by
  obtain ⟨curr, should, last⟩ := i
  cases should with
  | false =>
    cases h
    exact ⟨rfl, hreads.currInput⟩
  | true =>
    cases curr with
    | nil => cases h
    | cons b rest =>
      cases h
      exact ⟨rfl, hreads⟩

section Loop
variable {table : ShiftToDepth} {room : ℕ} {bytes : List UInt8}

/-- Where the function may stop it may go on with the bytes behind the stop. -/
structure Stops (table : ShiftToDepth) (bytes : List UInt8) (s : Uncompress) : Prop where
  suffix : s.inputLastPossibleStop <:+ bytes
  resumes : Resumes (depths table) bytes s.outputLastPossibleStop s.inputLastPossibleStop

/-- The loop has read the elements `taken` of the current token. -/
structure Within (table : ShiftToDepth) (bytes : List UInt8) (taken : List ℕ) (s : Uncompress) : Prop where
  reads : Reads bytes s.input
  stops : Stops table bytes s
  follows : ∀ ys, depths table (bytes ++ ys) = s.depthOutput ++
    (shiftsFrom s.lastValue (taken ++ inputElements s.input ++ elements ys)).map table

structure Ended (table : ShiftToDepth) (bytes : List UInt8) (s : Uncompress) : Prop where
  read : getNextInput s.input = none
  stops : Stops table bytes s
  all : depths table bytes = s.depthOutput

/-- What a round leaves: an overflow only when the pixels of the whole input do not fit. -/
def Good (table : ShiftToDepth) (room : ℕ) (bytes : List UInt8) : Round → Prop
  | .next s => s.depthOutput.length ≤ room ∧ (Within table bytes [] s ∨ Ended table bytes s)
  | .stop s => s.depthOutput.length ≤ room ∧ Ended table bytes s
  | .overflow s => s.depthOutput.length = room ∧ room < (depths table bytes).length

variable {s : Uncompress} {taken : List ℕ} {t : Token}

lemma Within.act (h : Within table bytes taken s) (ht : next taken = some (t, [])) (ys : List UInt8) :
    depths table (bytes ++ ys) = s.depthOutput ++ (act s.lastValue t).1.map table ++
      (shiftsFrom (act s.lastValue t).2 (inputElements s.input ++ elements ys)).map table := by
  have hnext := (next_append ht).2 (inputElements s.input ++ elements ys)
  rw [List.nil_append] at hnext
  rw [h.follows, List.append_assoc taken, shiftsFrom_some hnext, List.map_append, List.append_assoc]

lemma Within.ended (h : Within table bytes taken s) (ht : next taken = none)
    (hget : getNextInput s.input = none) : Ended table bytes s := by
  obtain ⟨helements, -⟩ := getNextInput_none hget
  refine ⟨hget, h.stops, ?_⟩
  have hall := h.follows []
  rwa [List.append_nil, helements, elements_nil, List.append_nil, List.append_nil, shiftsFrom_none ht,
    List.map_nil, List.append_nil] at hall

lemma Within.read (h : Within table bytes taken s) {value : ℕ} {i : Input}
    (hget : getNextInput s.input = some (value, i)) :
    Within table bytes (taken ++ [value]) { s with input := i } := by
  obtain ⟨helements, hreads⟩ := getNextInput_some hget h.reads
  refine ⟨hreads, ⟨h.stops.suffix, h.stops.resumes⟩, fun ys => ?_⟩
  rw [h.follows, helements, List.append_assoc taken [value], List.singleton_append]

lemma readNext_good {rest : ℕ → Uncompress → Round} (h : Within table bytes taken s)
    (hroom : s.depthOutput.length ≤ room) (ht : next taken = none)
    (hrest : ∀ value i, getNextInput s.input = some (value, i) →
      Within table bytes (taken ++ [value]) { s with input := i } →
      Good table room bytes (rest value { s with input := i })) :
    Good table room bytes (readNext s rest) := by
  unfold readNext
  split
  · next hget => exact ⟨hroom, .inr (h.ended ht hget)⟩
  · next value i hget => exact hrest value i hget (h.read hget)

lemma outputDepth_good {value : UInt16} (h : Within table bytes taken s)
    (hroom : s.depthOutput.length ≤ room) (ht : next taken = some (t, []))
    (hact : act s.lastValue t = written value) :
    Good table room bytes (outputDepth table room { s with lastValue := value }) := by
  have hall := h.act ht
  rw [hact, written] at hall
  unfold outputDepth
  split_ifs with hfull
  · have hlen := congrArg List.length (hall [])
    simp only [List.append_nil, List.length_append, List.length_map, List.length_singleton] at hlen
    change room ≤ s.depthOutput.length at hfull
    exact ⟨le_antisymm hroom hfull, by omega⟩
  · refine ⟨?_, .inl ⟨h.reads, ⟨h.stops.suffix, h.stops.resumes⟩, fun ys => ?_⟩⟩
    · rw [List.length_append, List.length_singleton]
      exact not_le.mp hfull
    · rw [hall]
      rfl

/-- With `count` pixels of the last value still to be written. -/
lemma repeatDepth_good {count : ℕ} (hreads : Reads bytes s.input) (hstops : Stops table bytes s)
    (hroom : s.depthOutput.length ≤ room)
    (hlast : count = 0 → .ofNat (checkValue s.lastValue) = s.lastValue)
    (hall : ∀ ys, depths table (bytes ++ ys) =
      s.depthOutput ++ List.replicate count (table (checkValue s.lastValue)) ++
        (shiftsFrom (.ofNat (checkValue s.lastValue)) (inputElements s.input ++ elements ys)).map table) :
    Good table room bytes (repeatDepth table room count s) := by
  induction count generalizing s with
  | zero =>
    refine ⟨hroom, .inl ⟨hreads, hstops, fun ys => ?_⟩⟩
    rw [hall, hlast rfl, List.replicate_zero, List.append_nil, List.nil_append]
  | succ count ih =>
    rw [repeatDepth, outputDepth]
    by_cases hfull : room ≤ s.depthOutput.length
    · have hlen := congrArg List.length (hall [])
      simp only [List.append_nil, List.length_append, List.length_replicate] at hlen
      rw [if_pos hfull]
      exact ⟨le_antisymm hroom hfull, by omega⟩
    · rw [if_neg hfull]
      refine ih hreads ⟨hstops.suffix, hstops.resumes⟩ ?_ (fun _ => ?_) fun ys => ?_
      · rw [List.length_append, List.length_singleton]
        exact not_le.mp hfull
      · rw [checkValue_checkValue]
      · rw [hall, checkValue_checkValue, List.replicate_succ, List.append_cons]

/-- The two elements of one byte, read from its beginning. -/
lemma whole_byte {i i₁ i₂ : Input} {value high : ℕ} (hcan : i.shouldReadByte = true)
    (h₁ : getNextInput i = some (value, i₁)) (h₂ : getNextInput i₁ = some (high, i₂)) :
    i.currInput = i₂.lastByte :: i₂.currInput ∧
      elements i.currInput = value :: high :: elements i₂.currInput := by
  obtain ⟨curr, should, last⟩ := i
  cases hcan
  cases curr with
  | nil => cases h₁
  | cons b rest =>
    cases h₁
    cases h₂
    exact ⟨rfl, rfl⟩

lemma markStop_within {i₁ i₂ : Input} {high : ℕ} (h : Within table bytes [] s)
    (h₁ : getNextInput s.input = some (0xf, i₁)) (h₂ : getNextInput i₁ = some (high, i₂))
    (hhigh : high &&& 0x8 = 0) (hw : Within table bytes [0xf, high] { s with input := i₂ }) :
    Within table bytes [0xf, high] (markStop s.input.shouldReadByte { s with input := i₂ }) := by
  cases hcan : s.input.shouldReadByte with
  | false => exact hw
  | true =>
    obtain ⟨hcurr, helements⟩ := whole_byte hcan h₁ h₂
    have hstop : i₂.lastByte :: i₂.currInput <:+ bytes := by
      rw [← hcurr]
      exact h.reads.currInput
    refine ⟨hw.reads, ⟨hstop, fun ys => ?_⟩, hw.follows⟩
    have hall := h.follows ys
    rw [List.nil_append, inputElements, if_pos hcan, List.nil_append, helements, List.cons_append,
      List.cons_append, shiftsFrom_full hhigh] at hall
    rw [hall, depths, elements_append]
    dsimp only [markStop]
    rw [if_pos rfl, ← hcurr, helements]
    rfl

/-- One round from the beginning of a token treats the whole token. -/
theorem uncompressRound_good (h : Within table bytes [] s) (hroom : s.depthOutput.length ≤ room) :
    Good table room bytes (uncompressRound table room s) := by
  unfold uncompressRound
  split
  · next hget => exact ⟨hroom, h.ended rfl hget⟩
  next value i hget =>
  have hw := h.read hget
  dsimp only
  split_ifs with hd he hf
  · subst hd
    refine ⟨hroom, .inl ⟨hw.reads, hw.stops, fun ys => ?_⟩⟩
    have hall := hw.act (t := .dummy) rfl ys
    rw [act, List.map_nil, List.append_nil] at hall
    exact hall
  · subst he
    refine readNext_good hw hroom rfl fun count i _ hw => ?_
    have hall := hw.act (t := .again count) rfl
    simp only [act, List.map_replicate] at hall
    exact repeatDepth_good hw.reads hw.stops hroom (fun h => (Nat.succ_ne_zero _ h).elim) hall
  · subst hf
    refine readNext_good hw hroom rfl fun high i₂ hget₂ hw => ?_
    split_ifs with hhigh
    · refine readNext_good hw hroom (by simp [next, hhigh, largeToken]) fun low i _ hw => ?_
      exact outputDepth_good hw hroom (t := .largeDiff ((high-0x8) <<< 4 ||| low))
        (by simp [next, hhigh, largeToken]) rfl
    · have hhigh := not_not.mp hhigh
      have hmark := markStop_within h hget hget₂ hhigh hw
      have hroom' : (markStop s.input.shouldReadByte { s with input := i₂ }).depthOutput.length ≤ room := by
        unfold markStop
        split <;> exact hroom
      refine readNext_good hmark hroom' (by simp [next, hhigh, fullToken]) fun second i _ hw => ?_
      refine readNext_good hw hroom' (by simp [next, hhigh, fullToken]) fun third i _ hw => ?_
      refine readNext_good hw hroom' (by simp [next, hhigh, fullToken]) fun fourth i _ hw => ?_
      exact outputDepth_good hw hroom'
        (t := .full (high <<< 12 ||| second <<< 8 ||| third <<< 4 ||| fourth))
        (by simp [next, hhigh, fullToken]) rfl
  · exact outputDepth_good hw hroom (t := .diff value) (by simp [next, hd, he, hf]) rfl

/-- The result of the loop, whose output is full when it overflows. -/
def Result (table : ShiftToDepth) (room : ℕ) (bytes : List UInt8) : Status Uncompress → Prop
  | .ok s => s.depthOutput.length ≤ room ∧ Ended table bytes s
  | .outputBufferOverflow output => output.length = room ∧ room < (depths table bytes).length

lemma loop_result (h : Good table room bytes (.next s)) :
    Result table room bytes (loop table room s) := by
  induction hn : s.input.remaining using Nat.strong_induction_on generalizing s with
  | _ n ih =>
    have hround : Good table room bytes (uncompressRound table room s) := by
      cases h.2 with
      | inl hw => exact uncompressRound_good hw h.1
      | inr hended =>
        rw [uncompressRound, hended.read]
        exact ⟨h.1, hended⟩
    have hbelow := uncompressRound_below table room (s := s)
    rw [loop_eq]
    cases hnext : uncompressRound table room s with
    | stop s' =>
      rw [hnext] at hround
      exact hround
    | overflow s' =>
      rw [hnext] at hround
      exact hround
    | next s' =>
      rw [hnext] at hround hbelow
      exact ih _ (hn ▸ hbelow) hround rfl

lemma loop_uncompress (table : ShiftToDepth) (room : ℕ) (bytes : List UInt8) :
    Result table room bytes (loop table room ⟨initInput bytes, 0, [], bytes, []⟩) := by
  refine loop_result ⟨Nat.zero_le _, .inl ⟨?_, ⟨List.suffix_refl _, .refl _⟩, fun ys => ?_⟩⟩
  · exact List.suffix_refl bytes
  · rw [depths, elements_append]
    rfl

/-- The pixels which do not fit are not written. -/
lemma uncompressDepthPS_overflow (lastPart : Bool) (h : room < (depths table bytes).length) :
    ∃ output, uncompressDepthPS table bytes room lastPart = .outputBufferOverflow output ∧
      output.length = room := by
  have hloop := loop_uncompress table room bytes
  rw [uncompressDepthPS]
  cases heq : loop table room ⟨initInput bytes, 0, [], bytes, []⟩ with
  | outputBufferOverflow output =>
    rw [heq] at hloop
    exact ⟨output, rfl, hloop.1⟩
  | ok s =>
    rw [heq] at hloop
    have hlen := hloop.1
    rw [← hloop.2.all] at hlen
    omega

/-- The last part of a frame is decoded to its end. -/
theorem uncompressDepthPS_last (h : (depths table bytes).length ≤ room) :
    uncompressDepthPS table bytes room true = .ok ⟨depths table bytes, bytes.length⟩ := by
  have hloop := loop_uncompress table room bytes
  rw [uncompressDepthPS]
  cases heq : loop table room ⟨initInput bytes, 0, [], bytes, []⟩ with
  | outputBufferOverflow output =>
    rw [heq] at hloop
    exact absurd hloop.2 (not_lt.mpr h)
  | ok s =>
    rw [heq] at hloop
    obtain ⟨-, hended⟩ := hloop
    simp only [if_true, hended.all, (getNextInput_none hended.read).2, List.length_nil, Nat.sub_zero]

/-- Any other part is decoded up to a place from which decoding may go on. -/
theorem uncompressDepthPS_part (h : (depths table bytes).length ≤ room) :
    ∃ u, uncompressDepthPS table bytes room false = .ok u ∧ u.actualRead ≤ bytes.length ∧
      Resumes (depths table) bytes u.output (bytes.drop u.actualRead) := by
  have hloop := loop_uncompress table room bytes
  rw [uncompressDepthPS]
  cases heq : loop table room ⟨initInput bytes, 0, [], bytes, []⟩ with
  | outputBufferOverflow output =>
    rw [heq] at hloop
    exact absurd hloop.2 (not_lt.mpr h)
  | ok s =>
    rw [heq] at hloop
    obtain ⟨-, hended⟩ := hloop
    obtain ⟨front, hfront⟩ := hended.stops.suffix
    refine ⟨_, rfl, Nat.sub_le _ _, ?_⟩
    have hdrop : bytes.drop (bytes.length-s.inputLastPossibleStop.length) = s.inputLastPossibleStop := by
      rw [← hfront, List.length_append, Nat.add_sub_cancel, List.drop_left]
    rw [hdrop]
    exact hended.stops.resumes

end Loop

end WaterHarp.DepthUncompress
