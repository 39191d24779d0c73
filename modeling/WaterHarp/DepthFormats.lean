import WaterHarp.DepthFrames
import WaterHarp.DepthUncompress

/-! The formats of depth packets: `ProcessFramePacketChunk` of the compressed, the
two packed and the uncompressed processor. A format which decodes what it gets
in parts writes the pixels of the whole. -/
namespace WaterHarp.DepthFormats
open TokenReader DepthDecoder DepthTokens DepthUncompress DepthFrames

/-- `XnPSCompressedDepthProcessor`. -/
def compressed : Format := fun cfg c p =>
  let (p, buf) :=
    if p.rawData ≠ [] then
      if cfg.rawRoom-p.rawData.length < c.data.length then (p.frameIsCorrupted, p.rawData)
      else ({ p with rawData := p.rawData ++ c.data }, p.rawData ++ c.data)
    else (p, c.data)
  match uncompressDepthPS cfg.table buf (freeSpaceInBuffer cfg p/sizeofDepthPixel) (decide c.Ends) with
  | .ok u => { p.write u.output with rawData := buf.drop u.actualRead }
  | .outputBufferOverflow output => { (p.write output).frameIsCorrupted with rawData := buf }

/-- `XN_TAKE_BITS`. -/
def takeBits (source count offset : ℕ) : ℕ := (source &&& ((1 <<< count - 1) <<< offset)) >>> offset

/-- The pixels of one element of the stream, from its bytes. -/
structure Packing where
  inputElementSize : ℕ
  outputElementSize : ℕ
  unpack : (ℕ → ℕ) → List ℕ
  positive : 0 < inputElementSize
  writes : ∀ b, (unpack b).length*sizeofDepthPixel = outputElementSize
  reads : ∀ b b', (∀ i < inputElementSize, b i = b' i) → unpack b = unpack b'

def packing11 : Packing where
  inputElementSize := 11
  outputElementSize := 16
  unpack b :=
    [takeBits (b 0) 8 0 <<< 3 ||| takeBits (b 1) 3 5,
     takeBits (b 1) 5 0 <<< 6 ||| takeBits (b 2) 6 2,
     takeBits (b 2) 2 0 <<< 9 ||| takeBits (b 3) 8 0 <<< 1 ||| takeBits (b 4) 1 7,
     takeBits (b 4) 7 0 <<< 4 ||| takeBits (b 5) 4 4,
     takeBits (b 5) 4 0 <<< 7 ||| takeBits (b 6) 7 1,
     takeBits (b 6) 1 0 <<< 10 ||| takeBits (b 7) 8 0 <<< 2 ||| takeBits (b 8) 2 6,
     takeBits (b 8) 6 0 <<< 5 ||| takeBits (b 9) 5 3,
     takeBits (b 9) 3 0 <<< 8 ||| takeBits (b 10) 8 0]
  positive := by norm_num
  writes _ := rfl
  reads b b' h := by simp (disch := norm_num) only [h]

/-- Shifts which are not below the last one of the table are corrupted. -/
def validShift (shift : ℕ) : ℕ := if shift < maxShiftValue-1 then shift else 0

def packing12 : Packing where
  inputElementSize := 24
  outputElementSize := 32
  unpack b :=
    (List.range 8).flatMap fun i =>
      [validShift (takeBits (b (3*i)) 8 0 <<< 4 ||| takeBits (b (3*i+1)) 4 4),
       validShift (takeBits (b (3*i+1)) 4 0 <<< 8 ||| takeBits (b (3*i+2)) 8 0)]
  positive := by norm_num
  writes _ := rfl
  reads b b' h := by
    have hall : ∀ i ∈ List.range 8, b (3*i) = b' (3*i) ∧ b (3*i+1) = b' (3*i+1) ∧ b (3*i+2) = b' (3*i+2) := by
      intro i hi
      have hlt := List.mem_range.mp hi
      exact ⟨h _ (by omega), h _ (by omega), h _ (by omega)⟩
    exact List.flatMap_congr fun i hi => by rw [(hall i hi).1, (hall i hi).2.1, (hall i hi).2.2]

/-- The loop over the elements, each read from where the input pointer stands. -/
def unpackElements (k : Packing) : ℕ → List UInt8 → List ℕ
  | 0, _ => []
  | n+1, input => k.unpack (fun i => (input.getD i 0).toNat) ++ unpackElements k n (input.drop k.inputElementSize)

/-- `GetOutput`, inside the table. -/
def getOutput (table : ShiftToDepth) (shift : ℕ) : OniDepthPixel :=
  if h : shift < maxShiftValue then table ⟨shift, h⟩ else 0

/-- `Unpack11to16` and `Unpack12to16`, with the number of bytes read when there is room. -/
def unpackTo16 (k : Packing) (cfg : Config) (input : List UInt8) (p : DepthProcessor) :
    Option ℕ × DepthProcessor :=
  let elements := input.length/k.inputElementSize
  if freeSpaceInBuffer cfg p < elements*k.outputElementSize then (none, p.frameIsCorrupted)
  else (some (elements*k.inputElementSize), p.write ((unpackElements k elements input).map (getOutput cfg.table)))

/-- The first half of a packed chunk: an element begun by the chunk before is completed. -/
def fillElement (k : Packing) (cfg : Config) (data : List UInt8) (p : DepthProcessor) :
    DepthProcessor × List UInt8 :=
  if p.rawData.length ≠ 0 then
    let readBytes := min data.length (k.inputElementSize-p.rawData.length)
    let p := { p with rawData := p.rawData ++ data.take readBytes }
    if p.rawData.length = k.inputElementSize then
      ({ (unpackTo16 k cfg p.rawData p).2 with rawData := [] }, data.drop readBytes)
    else (p, data.drop readBytes)
  else (p, data)

/-- The second half: whole elements are unpacked, and what is left waits for the next chunk. -/
def unpackRest (k : Packing) (cfg : Config) (data : List UInt8) (p : DepthProcessor) : DepthProcessor :=
  match unpackTo16 k cfg data p with
  | (some actualRead, p) => { p with rawData := p.rawData ++ data.drop actualRead }
  | (none, p) => p

/-- `XnPacked11DepthProcessor` and `XnPacked12DepthProcessor`. -/
def packed (k : Packing) : Format := fun cfg c p =>
  unpackRest k cfg (fillElement k cfg c.data p).2 (fillElement k cfg c.data p).1

/-- Pixels of two bytes, the low one first. -/
def shorts : List UInt8 → List ℕ
  | low :: high :: rest => (low.toNat+256*high.toNat) :: shorts rest
  | _ => []

/-- `XnUncompressedDepthProcessor`, which leaves out the first of an odd number of bytes. -/
def uncompressed : Format := fun cfg c p =>
  if freeSpaceInBuffer cfg p < c.data.length then p.frameIsCorrupted
  else
    let data := if c.data.length%2 ≠ 0 then c.data.drop 1 else c.data
    p.write ((shorts data).map fun shift => getOutput cfg.table (validShift shift))

lemma compressed_confined : Confined compressed := by
  intro cfg c p
  unfold compressed
  split
  next q buf hq =>
  have hfields : ∃ corrupted raw, q = { p with frameCorrupted := p.frameCorrupted || corrupted, rawData := raw } := by
    split_ifs at hq
    · cases hq
      exact ⟨true, _, by rw [Bool.or_true]; rfl⟩
    · cases hq
      exact ⟨false, _, by rw [Bool.or_false]⟩
    · cases hq
      exact ⟨false, _, by rw [Bool.or_false]⟩
  obtain ⟨corrupted, raw, rfl⟩ := hfields
  split
  · exact ⟨corrupted, _, _, rfl⟩
  · exact ⟨true, _, _, by rw [Bool.or_true]; rfl⟩

lemma unpackTo16_confined (k : Packing) (cfg : Config) (input : List UInt8) (p : DepthProcessor) :
    ∃ corrupted pixels, (unpackTo16 k cfg input p).2 =
      { p with frameCorrupted := p.frameCorrupted || corrupted, writeBuffer := pixels } := by
  unfold unpackTo16
  dsimp only
  split
  · exact ⟨true, p.writeBuffer, by rw [Bool.or_true]; rfl⟩
  · exact ⟨false, _, by rw [Bool.or_false]; rfl⟩

lemma fillElement_confined (k : Packing) (cfg : Config) (data : List UInt8) (p : DepthProcessor) :
    ∃ corrupted pixels raw, (fillElement k cfg data p).1 =
      { p with frameCorrupted := p.frameCorrupted || corrupted, writeBuffer := pixels, rawData := raw } := by
  unfold fillElement
  dsimp only
  split_ifs
  · obtain ⟨corrupted, pixels, hconf⟩ := unpackTo16_confined k cfg
      (p.rawData ++ data.take (min data.length (k.inputElementSize-p.rawData.length)))
      { p with rawData := p.rawData ++ data.take (min data.length (k.inputElementSize-p.rawData.length)) }
    exact ⟨corrupted, pixels, [], by rw [hconf]⟩
  · exact ⟨false, _, _, by rw [Bool.or_false]⟩
  · exact ⟨false, _, _, by rw [Bool.or_false]⟩

lemma unpackRest_confined (k : Packing) (cfg : Config) (data : List UInt8) (p : DepthProcessor) :
    ∃ corrupted pixels raw, unpackRest k cfg data p =
      { p with frameCorrupted := p.frameCorrupted || corrupted, writeBuffer := pixels, rawData := raw } := by
  obtain ⟨corrupted, pixels, hconf⟩ := unpackTo16_confined k cfg data p
  unfold unpackRest
  split
  · next actualRead q hun =>
    rw [hun] at hconf
    change q = _ at hconf
    exact ⟨corrupted, pixels, _, by rw [hconf]⟩
  · next q hun =>
    rw [hun] at hconf
    exact ⟨corrupted, pixels, _, hconf⟩

lemma packed_confined (k : Packing) : Confined (packed k) := by
  intro cfg c p
  obtain ⟨corrupted, pixels, raw, hfill⟩ := fillElement_confined k cfg c.data p
  obtain ⟨corrupted', pixels', raw', hrest⟩ := unpackRest_confined k cfg (fillElement k cfg c.data p).2
    (fillElement k cfg c.data p).1
  refine ⟨corrupted || corrupted', pixels', raw', ?_⟩
  rw [packed, hrest, hfill, Bool.or_assoc]

lemma uncompressed_confined : Confined uncompressed := by
  intro cfg c p
  unfold uncompressed
  split
  · exact ⟨true, _, _, by rw [Bool.or_true]; rfl⟩
  · exact ⟨false, _, _, by rw [Bool.or_false]; rfl⟩

def pairConfig : Config where
  table shift := .ofNat shift
  noDepthValue := 0
  xRes := 2
  yRes := 1
  firmwareCrop := none
  frameRoom := 2
  rawRoom := 12
  padsFrames := false
  applyRegistration := none
  inPlace _ h := nomatch h

/-- Packet 1 has started a frame. -/
def openFrame : DepthProcessor := { initial with lastPacketID := 1, expectedFrameSize := 4 }

/-- The packets 2 to 4 are lost, and then the pixels arrive. -/
theorem run_lost_five : (run pairConfig compressed
    [⟨⟨0x4252, responseDepthBuffer, 5, 2, 0⟩, [0xf0], 0⟩, ⟨⟨0x4252, responseDepthBuffer, 5, 2, 0⟩, [0x3e], 1⟩,
      ⟨⟨0x4252, responseDepthEnd, 6, 1, 0⟩, [0x87], 0⟩] openFrame).frames = openFrame.frames :=
  run_lost pairConfig compressed openFrame rfl (by decide) (by decide)

end WaterHarp.DepthFormats
