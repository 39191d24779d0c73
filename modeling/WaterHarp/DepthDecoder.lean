import WaterHarp.TokenReader

/-! `XnPSCompressedDepthProcessor::UncompressDepthPS`: depth pixels packed in
elements of four bits. A pointer into the input is the list of the bytes from
it to the end. -/
namespace WaterHarp.DepthDecoder
open TokenReader

abbrev OniDepthPixel := UInt16

def maxShiftValue : ℕ := 2048

/-- An index of the table of depths. -/
abbrev Shift := Fin maxShiftValue
abbrev ShiftToDepth := Shift → OniDepthPixel

def noDepthValue : Shift := ⟨0, by decide⟩

/-- The variables of `INIT_INPUT`. -/
structure Input where
  currInput : List UInt8
  shouldReadByte : Bool
  lastByte : UInt8

def initInput (input : List UInt8) : Input := ⟨input, true, 0⟩

/-- `GET_NEXT_INPUT`: the high four bits of a byte, then the low ones. -/
def getNextInput (i : Input) : Option (ℕ × Input) :=
  if i.shouldReadByte then
    match i.currInput with
    | [] => none
    | b :: rest => some (b.toNat >>> 4, ⟨rest, false, b⟩)
  else some (i.lastByte.toNat &&& 0xf, { i with shouldReadByte := true })

/-- The variables of the loop; the pixels are those in front of a pointer. -/
structure Uncompress where
  input : Input
  lastValue : UInt16
  depthOutput : List OniDepthPixel
  inputLastPossibleStop : List UInt8
  outputLastPossibleStop : List OniDepthPixel

/-- How a round of the loop ends: `stop` leaves the loop, `overflow` the function. -/
inductive Round
  | next (s : Uncompress)
  | stop (s : Uncompress)
  | overflow (s : Uncompress)

section Loop
variable (table : ShiftToDepth) (room : ℕ)

/-- `XN_CHECK_UNC_DEPTH_OUTPUT`, which replaces a value outside the table. -/
def checkValue (value : UInt16) : Shift :=
  if h : value.toNat < maxShiftValue then ⟨value.toNat, h⟩ else noDepthValue

/-- `XN_DEPTH_OUTPUT` of the last value. -/
def outputDepth (s : Uncompress) : Round :=
  if room ≤ s.depthOutput.length then .overflow s
  else .next { s with
    lastValue := .ofNat (checkValue s.lastValue)
    depthOutput := s.depthOutput ++ [table (checkValue s.lastValue)] }

def repeatDepth : ℕ → Uncompress → Round
  | 0, s => .next s
  | n+1, s =>
    match outputDepth table room s with
    | .next s => repeatDepth n s
    | other => other

/-- `GET_NEXT_INPUT` inside the switch, where its `break` ends the round only. -/
def readNext (s : Uncompress) (rest : ℕ → Uncompress → Round) : Round :=
  match getNextInput s.input with
  | none => .next s
  | some (value, input) => rest value { s with input }

/-- A full value which began with its byte: the input may stop in front of it. -/
def markStop (canStop : Bool) (s : Uncompress) : Uncompress :=
  if canStop then { s with
    inputLastPossibleStop := s.input.lastByte :: s.input.currInput
    outputLastPossibleStop := s.depthOutput }
  else s

def uncompressRound (s : Uncompress) : Round :=
  let canStop := s.input.shouldReadByte
  match getNextInput s.input with
  | none => .stop s
  | some (value, input) =>
    let s := { s with input }
    if value = 0xd then .next s
    else if value = 0xe then
      readNext s fun count s => repeatDepth table room (count+1) s
    else if value = 0xf then
      readNext s fun value s =>
        if value &&& 0x8 ≠ 0 then
          readNext s fun low s =>
            outputDepth table room
              { s with lastValue := s.lastValue + (.ofNat ((value-0x8) <<< 4 ||| low) - 64) }
        else
          readNext (markStop canStop s) fun second s => readNext s fun third s => readNext s fun fourth s =>
            outputDepth table room
              { s with lastValue := .ofNat (value <<< 12 ||| second <<< 8 ||| third <<< 4 ||| fourth) }
    else outputDepth table room { s with lastValue := s.lastValue + (.ofNat value - 6) }

end Loop

/-- The number of elements still to come. -/
def Input.remaining (i : Input) : ℕ := 2*i.currInput.length + if i.shouldReadByte then 0 else 1

lemma getNextInput_remaining {i i' : Input} {value : ℕ} (h : getNextInput i = some (value, i')) :
    i'.remaining < i.remaining := by
  unfold getNextInput at h
  split at h
  · next hread =>
    split at h
    · cases h
    · next b rest hcurr =>
      cases h
      simp only [Input.remaining, hread, hcurr, List.length_cons]
      simp
      omega
  · next hread =>
    cases h
    simp [Input.remaining, hread]

/-- If the loop goes on, fewer elements than `n` are left. -/
def Round.Below (n : ℕ) : Round → Prop
  | .next s => s.input.remaining < n
  | _ => True

section Below
variable (table : ShiftToDepth) (room : ℕ) {n : ℕ} {s : Uncompress}

lemma outputDepth_below (h : s.input.remaining < n) : (outputDepth table room s).Below n := by
  unfold outputDepth
  split
  · trivial
  · exact h

lemma repeatDepth_below {count : ℕ} (h : s.input.remaining < n) :
    (repeatDepth table room count s).Below n := by
  induction count generalizing s with
  | zero => exact h
  | succ count ih =>
    have hout := outputDepth_below table room h
    unfold repeatDepth
    split
    · next heq =>
      rw [heq] at hout
      exact ih hout
    · exact hout

lemma readNext_below {rest : ℕ → Uncompress → Round} (h : s.input.remaining < n)
    (hrest : ∀ value s, s.input.remaining < n → (rest value s).Below n) :
    (readNext s rest).Below n := by
  unfold readNext
  split
  · exact h
  · next hget => exact hrest _ _ ((getNextInput_remaining hget).trans h)

lemma markStop_input (canStop : Bool) (s : Uncompress) : (markStop canStop s).input = s.input := by
  cases canStop <;> rfl

lemma uncompressRound_below : (uncompressRound table room s).Below s.input.remaining := by
  unfold uncompressRound
  split
  · trivial
  · next hget =>
    have hless := getNextInput_remaining hget
    dsimp only
    split_ifs
    · exact hless
    · exact readNext_below hless fun _ _ h => repeatDepth_below table room h
    · refine readNext_below hless fun _ _ h => ?_
      split_ifs
      · exact readNext_below h fun _ _ h => outputDepth_below table room h
      · exact readNext_below (by rwa [markStop_input]) fun _ _ h => readNext_below h fun _ _ h =>
          readNext_below h fun _ _ h => outputDepth_below table room h
    · exact outputDepth_below table room hless

end Below

/-- `XN_STATUS_OUTPUT_BUFFER_OVERFLOW`, with the pixels which are full by then. -/
inductive Status (α : Type)
  | ok (result : α)
  | outputBufferOverflow (output : List OniDepthPixel)

def loop (table : ShiftToDepth) (room : ℕ) (s : Uncompress) : Status Uncompress :=
  match h : uncompressRound table room s with
  | .stop s => .ok s
  | .overflow s => .outputBufferOverflow s.depthOutput
  | .next s' =>
    have : s'.input.remaining < s.input.remaining := by
      have hbelow := uncompressRound_below table room (s := s)
      rwa [h] at hbelow
    loop table room s'
termination_by s.input.remaining

lemma loop_eq (table : ShiftToDepth) (room : ℕ) (s : Uncompress) : loop table room s =
    match uncompressRound table room s with
    | .stop s => .ok s
    | .overflow s => .outputBufferOverflow s.depthOutput
    | .next s => loop table room s := by
  rw [loop]
  split <;> simp_all

/-- What the function stores through its pointers. -/
structure Uncompressed where
  output : List OniDepthPixel
  actualRead : ℕ

def uncompressDepthPS (table : ShiftToDepth) (input : List UInt8) (room : ℕ) (lastPart : Bool) :
    Status Uncompressed :=
  match loop table room ⟨initInput input, 0, [], input, []⟩ with
  | .outputBufferOverflow output => .outputBufferOverflow output
  | .ok s =>
    if lastPart then .ok ⟨s.depthOutput, input.length-s.input.currInput.length⟩
    else .ok ⟨s.outputLastPossibleStop, input.length-s.inputLastPossibleStop.length⟩

end WaterHarp.DepthDecoder
