import Mathlib

/-! `XnStreamCompressDepth16Z` and `XnStreamUncompressDepth16Z`: recorded depth is
stored as the differences between neighbours, two small ones a byte. -/
namespace WaterHarp.StreamCompression

/-- The variables of the compressor. -/
structure Compress where
  lastValue : UInt16
  /-- `cOutStage`: a first difference waits in `outChar`. -/
  outStage : Bool
  outChar : UInt8
  zeroCounter : ℕ
  output : List UInt8
  deriving DecidableEq, Repr

def Compress.put (s : Compress) (bytes : List UInt8) : Compress := { s with output := s.output ++ bytes }

def flushZeros (s : Compress) : Compress :=
  if s.zeroCounter ≠ 0 then { s.put [0xE0+.ofNat s.zeroCounter] with zeroCounter := 0 } else s

/-- `nDiffValue`. -/
def diffValue (last curr : UInt16) : ℤ := (last-curr).toInt16.toInt

/-- A difference of at most six. -/
def smallDiff (diff : ℤ) (s : Compress) : Compress :=
  let nibble : UInt8 := .ofNat (diff+6).toNat
  if s.outStage then
    let outChar := s.outChar+nibble
    let s := { s with outChar := outChar, outStage := false }
    if outChar = 0x66 then
      if s.zeroCounter+1 = 15 then { s.put [0xEF] with zeroCounter := 0 }
      else { s with zeroCounter := s.zeroCounter+1 }
    else (flushZeros s).put [outChar]
  else { s with outChar := nibble <<< 4, outStage := true }

/-- The bytes behind an escape. -/
def fullBytes (last curr : UInt16) : List UInt8 :=
  let diff := diffValue last curr
  if diff.natAbs ≤ 63 then [.ofNat (diff+192).toNat] else [(curr >>> 8).toUInt8, curr.toUInt8]

def largeDiff (curr : UInt16) (s : Compress) : Compress :=
  let s := flushZeros s
  let outChar := if s.outStage then s.outChar+0x0F else 0xFF
  { s.put (outChar :: fullBytes s.lastValue curr) with outChar := outChar, outStage := false }

def compressValue (s : Compress) (curr : UInt16) : Compress :=
  let diff := diffValue s.lastValue curr
  { (if diff.natAbs ≤ 6 then smallDiff diff s else largeDiff curr s) with lastValue := curr }

def compressValues (first : UInt16) (values : List UInt16) : Compress :=
  values.foldl compressValue ⟨first, false, 0, 0, []⟩

/-- What is written behind the loop. -/
def finish (s : Compress) : List UInt8 :=
  (flushZeros (if s.outStage then s.put [s.outChar+0x0D] else s)).output

def shortBytes (v : UInt16) : List UInt8 := [v.toUInt8, (v >>> 8).toUInt8]

/-- `XnStreamCompressDepth16Z`. -/
def compressDepth16Z : List UInt16 → List UInt8
  | [] => []
  | first :: values => shortBytes first ++ finish (compressValues first values)

inductive Status
  | ok
  | badParam
  | outputBufferOverflow
  /-- Bytes behind the end of the input are read. -/
  | overrun
  deriving DecidableEq, Repr

/-- The values written when the function returns. -/
structure Result where
  status : Status
  output : List UInt16
  deriving DecidableEq, Repr

section Uncompress
variable (room : ℕ)

/-- `XN_CHECK_OUTPUT_OVERFLOW` and the write behind it. -/
def put (value : UInt16) (out : List UInt16) (next : List UInt16 → Result) : Result :=
  if room < out.length then ⟨.outputBufferOverflow, out⟩ else next (out ++ [value])

def putPairs (value : UInt16) (next : List UInt16 → Result) : ℕ → List UInt16 → Result
  | 0, out => next out
  | n+1, out =>
    if room < out.length+1 then ⟨.outputBufferOverflow, out⟩ else putPairs value next n (out ++ [value, value])

/-- The value behind an escape, and what is left of the input. -/
def readFull (last : UInt16) : List UInt8 → Option (UInt16 × List UInt8)
  | [] => none
  | data3 :: rest =>
    if data3 &&& 0x80 ≠ 0 then some (last-(data3.toUInt16-192), rest)
    else
      match rest with
      | [] => none
      | low :: rest => some (data3.toUInt16 <<< 8+low.toUInt16, rest)

lemma readFull_length {last value : UInt16} {input rest : List UInt8}
    (h : readFull last input = some (value, rest)) : rest.length < input.length := by
  match input, h with
  | data3 :: tail, h =>
    unfold readFull at h
    dsimp only at h
    split_ifs at h
    · cases h
      simp
    · match tail, h with
      | low :: tail, h =>
        cases h
        simp

/-- The loop, with what is written of each value. -/
def uncompressLoop (written : UInt16 → UInt16) (last : UInt16) (out : List UInt16) (input : List UInt8) : Result :=
  match input with
  | [] => ⟨.ok, out⟩
  | data :: rest =>
    if data < 0xE0 then
      let last := last-((data >>> 4).toUInt16-6)
      put room (written last) out fun out =>
        if data &&& 0x0f = 0x0f then
          match h : readFull last rest with
          | none => ⟨.overrun, out⟩
          | some (last, rest') =>
            have := readFull_length h
            put room (written last) out fun out => uncompressLoop written last out rest'
        else if data &&& 0x0f = 0x0d then uncompressLoop written last out rest
        else
          let last := last-((data &&& 0x0f).toUInt16-6)
          put room (written last) out fun out => uncompressLoop written last out rest
    else if data = 0xFF then
      match h : readFull last rest with
      | none => ⟨.overrun, out⟩
      | some (last, rest') =>
        have := readFull_length h
        put room (written last) out fun out => uncompressLoop written last out rest'
    else putPairs room (written last) (fun out => uncompressLoop written last out rest) (data-0xE0).toNat out
termination_by input.length

/-- `XnStreamUncompressDepth16Z`; the first value is written without a check. -/
def uncompressDepth16Z : List UInt8 → Result
  | low :: high :: input =>
    let first := low.toUInt16+high.toUInt16 <<< 8
    uncompressLoop room id first [first] input
  | _ => ⟨.badParam, []⟩

/-- The run when the bytes `behind` follow the input in memory. An escape at the end takes
one of them, so that the pointer passes the end of the input and the loop goes on. -/
def uncompressInMemory (input behind : List UInt8) : Result :=
  if (uncompressDepth16Z room input).status = .overrun then uncompressDepth16Z room (input ++ behind)
  else uncompressDepth16Z room input

end Uncompress

end WaterHarp.StreamCompression
