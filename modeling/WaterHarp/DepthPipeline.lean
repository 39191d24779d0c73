import WaterHarp.UsbPackets
import WaterHarp.DepthPacking

/-! `XnFirmwareStreams::ProcessPacketChunk` hands each chunk to the processor of
its type. From the transfers of an endpoint to the frames of the depth stream. -/
namespace WaterHarp.DepthPipeline
open TokenReader DepthDecoder DepthTokens DepthFrames DepthFormats DepthParts DepthDelivery
open DepthPacking UsbTransfers UsbPackets

inductive StreamProcessor
  | depth
  | image
  | audio
  | gmcDebug
  | wavelengthCorrectionDebug
  | tecDebug
  | nesaDebug
  | generalDebug1
  | generalDebug2
  deriving DecidableEq, Repr

inductive ErrorState
  | ok
  | deviceProjectorFault
  | deviceOverheat
  deriving DecidableEq, Repr

/-- The processor of each type of packet. -/
def processorTypes : List (UInt16 × StreamProcessor) :=
  [(responseDepthStart, .depth), (responseDepthBuffer, .depth), (responseDepthEnd, .depth),
   (0x8100, .image), (0x8200, .image), (0x8500, .image), (0x9200, .audio),
   (0xb200, .gmcDebug), (0xb500, .gmcDebug), (0xc200, .wavelengthCorrectionDebug), (0xd200, .tecDebug),
   (0xd201, .nesaDebug), (0xdb01, .generalDebug1), (0xdb02, .generalDebug2)]

def errorTypes : List (UInt16 × ErrorState) := [(0xdead, .deviceProjectorFault), (0xf31f, .deviceOverheat)]

structure FirmwareStreams where
  depth : DepthProcessor
  /-- What the other processors have been given. -/
  passed : List (StreamProcessor × Chunk)
  errorState : ErrorState

/-- A chunk of any stream shows that the device works again. -/
def processPacketChunk (cfg : Config) (format : Format) (f : FirmwareStreams) (c : Chunk) : FirmwareStreams :=
  match processorTypes.lookup c.header.type with
  | some .depth => { f with depth := processData cfg format f.depth c, errorState := .ok }
  | some processor => { f with passed := f.passed ++ [(processor, c)], errorState := .ok }
  | none =>
    match errorTypes.lookup c.header.type with
    | some errorState => { f with errorState := errorState }
    | none => f

/-- The transfers of the depth endpoint. -/
def receive (cfg : Config) (format : Format) (magic : UInt16) (ignoreBytes : UInt32)
    (buffers : List (List UInt8)) (s : UsbDeviceState) (f : FirmwareStreams) : FirmwareStreams :=
  (transfers magic ignoreBytes buffers s).2.foldl (processPacketChunk cfg format) f

def IsDepth (header : ResponseHeader) : Prop := processorTypes.lookup header.type = some .depth

instance depthDecidable (header : ResponseHeader) : Decidable (IsDepth header) :=
  inferInstanceAs (Decidable (_ = _))

section Dispatch
variable {cfg : Config} {format : Format}

lemma processPacketChunk_depth (f : FirmwareStreams) (c : Chunk) :
    (processPacketChunk cfg format f c).depth =
      if IsDepth c.header then processData cfg format f.depth c else f.depth := by
  by_cases h : IsDepth c.header
  · have hlookup : processorTypes.lookup c.header.type = some .depth := h
    rw [if_pos h, processPacketChunk, hlookup]
  · rw [if_neg h]
    unfold processPacketChunk
    split
    · next hlookup => exact absurd hlookup h
    · rfl
    · split <;> rfl

/-- The depth processor sees the depth packets only. -/
lemma foldl_depth (chunks : List Chunk) (f : FirmwareStreams) :
    (chunks.foldl (processPacketChunk cfg format) f).depth =
      run cfg format (chunks.filter fun c => IsDepth c.header) f.depth := by
  induction chunks generalizing f with
  | nil => rfl
  | cons c chunks ih =>
    rw [List.foldl_cons, ih, processPacketChunk_depth, List.filter_cons]
    by_cases h : IsDepth c.header
    · rw [if_pos h, if_pos (decide_eq_true h), run_cons]
    · rw [if_neg h, if_neg (by simpa using h)]

/-- Whatever the transfers contain, no frame with missing or left over pixels is handed over. -/
theorem receive_sound (cfg : Config) (magic : UInt16) (ignoreBytes : UInt32) (buffers : List (List UInt8))
    (s : UsbDeviceState) (passed : List (StreamProcessor × Chunk)) (errorState : ErrorState) :
    Sound cfg (receive cfg compressed magic ignoreBytes buffers s ⟨initial, passed, errorState⟩).depth ∧
      Sound cfg (receive cfg uncompressed magic ignoreBytes buffers s ⟨initial, passed, errorState⟩).depth ∧
      ∀ k, Sound cfg (receive cfg (packed k) magic ignoreBytes buffers s ⟨initial, passed, errorState⟩).depth := by
  simp only [receive, foldl_depth]
  exact ⟨run_sound compressed_confined _ (initial_sound cfg),
    run_sound uncompressed_confined _ (initial_sound cfg), fun k => run_sound (packed_confined k) _ (initial_sound cfg)⟩

end Dispatch

lemma Parts.header_eq {header : ResponseHeader} {offset : ℕ} {data : List UInt8} {chunks : List Chunk}
    (h : Parts header offset data chunks) : ∀ c ∈ chunks, c.header = header := by
  induction h with
  | last offset data => simp
  | more hpiece hrest h ih =>
    intro c hc
    cases hc with
    | head => rfl
    | tail _ hc => exact ih c hc

lemma filter_parts {packets : List Packet} {parts : List (List Chunk)}
    (h : List.Forall₂ Packet.SplitInto packets parts) :
    ∃ depthParts, List.Forall₂ Packet.SplitInto (packets.filter fun packet => IsDepth packet.header) depthParts ∧
      parts.flatten.filter (fun c => IsDepth c.header) = depthParts.flatten := by
  induction h with
  | nil => exact ⟨[], .nil, rfl⟩
  | @cons packet chunks packets parts hsplit _ ih =>
    obtain ⟨depthParts, hparts, hflatten⟩ := ih
    have hheader := Parts.header_eq hsplit
    rw [List.flatten_cons, List.filter_append, hflatten, List.filter_cons]
    by_cases hdepth : IsDepth packet.header
    · have hall : chunks.filter (fun c => IsDepth c.header) = chunks :=
        List.filter_eq_self.mpr fun c hc => decide_eq_true (hheader c hc ▸ hdepth)
      rw [if_pos (decide_eq_true hdepth), hall]
      exact ⟨chunks :: depthParts, .cons hsplit hparts, rfl⟩
    · have hnone : chunks.filter (fun c => IsDepth c.header) = [] :=
        List.filter_eq_nil_iff.mpr fun c hc => by simpa [hheader c hc] using hdepth
      rw [if_neg (by simpa using hdepth), hnone]
      exact ⟨depthParts, hparts, rfl⟩

/-- Frames sent to a device which has been powered on come out with all their pixels,
whatever packets of other types are between theirs. -/
lemma receive_delivered {cfg : Config} {format : Format} {whole : List UInt8 → List OniDepthPixel}
    {Kept : List UInt8 → Prop} {rawRoom : ℕ∞} (hdec : Decodes cfg format rawRoom whole Kept)
    (hformat : Confined format) (hroom : calculateExpectedSize cfg ≤ cfg.frameRoom*sizeofDepthPixel)
    {frames : List SentFrame} (hraw : ∀ g ∈ frames, g.bytes.length ≤ rawRoom) {magic : UInt16}
    {tail : Gap magic} {sents : List (Sent magic)}
    (hframes : (sents.map Sent.packet).filter (fun packet => IsDepth packet.header) =
      frames.flatMap SentFrame.packets)
    (hend : Terminated tail sents) {ignoreBytes : UInt32} {garbage : List UInt8}
    (hgarbage : garbage.length = ignoreBytes.toNat) {buffers : List (List UInt8)}
    (hsent : buffers.flatten = garbage ++ wire tail sents) (hcut : Uncut tail sents buffers)
    (header : ResponseHeader) (missing : UInt32) (f : FirmwareStreams) :
    (receive cfg format magic ignoreBytes buffers ⟨.waitingForConfiguration, header, missing⟩ f).depth.frames =
      f.depth.frames ++ numbered f.depth.stableFrameID (handedOver cfg f.depth.paddingPixelsOnEnd
        (frames.map fun g => (g.first.header, whole g.bytes))) := by
  obtain ⟨parts, hparts, hchunks⟩ := transfers_chunks header missing ignoreBytes hgarbage hend hsent hcut
  obtain ⟨depthParts, hdepth, hflatten⟩ := filter_parts hparts
  rw [hframes] at hdepth
  rw [receive, hchunks, foldl_depth, hflatten, frames_delivered hdec hformat hroom hraw hdepth]

/-- A frame packed from tokens. -/
structure TokenFrame extends SentFrame where
  tokens : List Token
  valid : ∀ t ∈ tokens, t.Valid
  packs : toSentFrame.bytes = pack (tokens.flatMap Token.elements)

/-- A frame of elements which hold `count` shifts below `base`. -/
structure ElementFrame (k : Packing) (base count : ℕ) extends SentFrame where
  elements : List (List ℕ)
  full : ∀ shifts ∈ elements, shifts.length = count
  valid : ∀ shifts ∈ elements, ∀ shift ∈ shifts, shift < base
  packs : toSentFrame.bytes = elements.flatMap (elementBytes k base)

section Formats
variable {cfg : Config} {magic : UInt16} {tail : Gap magic} {sents : List (Sent magic)} {ignoreBytes : UInt32}
  {garbage : List UInt8} {buffers : List (List UInt8)}

theorem receive_tokens (hroom : calculateExpectedSize cfg ≤ cfg.frameRoom*sizeofDepthPixel)
    {frames : List TokenFrame} (hraw : ∀ g ∈ frames, g.bytes.length ≤ cfg.rawRoom)
    (hframes : (sents.map Sent.packet).filter (fun packet => IsDepth packet.header) =
      frames.flatMap fun g => g.packets)
    (hend : Terminated tail sents) (hgarbage : garbage.length = ignoreBytes.toNat)
    (hsent : buffers.flatten = garbage ++ wire tail sents) (hcut : Uncut tail sents buffers)
    (header : ResponseHeader) (missing : UInt32) (f : FirmwareStreams) :
    (receive cfg compressed magic ignoreBytes buffers ⟨.waitingForConfiguration, header, missing⟩ f).depth.frames =
      f.depth.frames ++ numbered f.depth.stableFrameID (handedOver cfg f.depth.paddingPixelsOnEnd
        (frames.map fun g => (g.first.header, (outputs act 0 g.tokens).map cfg.table))) := by
  have hcontents : (frames.map TokenFrame.toSentFrame).map (fun g => (g.first.header, depths cfg.table g.bytes)) =
      frames.map fun g => (g.first.header, (outputs act 0 g.tokens).map cfg.table) := by
    rw [List.map_map]
    refine List.map_congr_left fun g _ => ?_
    rw [Function.comp_apply, g.packs, depths_pack cfg.table g.valid]
  rw [← hcontents]
  refine receive_delivered (compressed_decodes cfg) compressed_confined hroom ?_ ?_ hend hgarbage hsent hcut
    header missing f
  · intro sent hsent
    obtain ⟨g, hg, rfl⟩ := List.mem_map.mp hsent
    exact Nat.cast_le.mpr (hraw g hg)
  · rw [hframes, List.flatMap_map]

section Pair

def pairFrame : TokenFrame where
  first := pairStart
  between := []
  last := pairEnd
  starts := rfl
  inside := by simp
  ends := rfl
  unbroken := by simp [Follows, pairStart, pairEnd]
  tokens := [.full 1000, .diff 7]
  valid := by simp [Token.Valid]
  packs := rfl

/-- A frame of two pixels which is cut in a header and in the data. -/
theorem receive_tokens_pair :
    (receive pairConfig compressed 0x4252 0 pairBuffers ⟨.waitingForConfiguration, ⟨0, 0, 0, 0, 0⟩, 0⟩
      ⟨initial, [], .ok⟩).depth.frames = [⟨1, [1000, 1001]⟩] :=
  @receive_tokens pairConfig 0x4252 pairTail pairSents 0 [] _ (by decide) [pairFrame] (by decide) rfl
    (fun h => nomatch h) rfl (by decide) (by decide) ⟨0, 0, 0, 0, 0⟩ 0 ⟨initial, [], .ok⟩

end Pair

theorem receive_elements {k : Packing} {base count : ℕ} {correct : ℕ → ℕ} (h : Regroups k base count correct)
    (hroom : calculateExpectedSize cfg ≤ cfg.frameRoom*sizeofDepthPixel)
    {frames : List (ElementFrame k base count)}
    (hframes : (sents.map Sent.packet).filter (fun packet => IsDepth packet.header) =
      frames.flatMap fun g => g.packets)
    (hend : Terminated tail sents) (hgarbage : garbage.length = ignoreBytes.toNat)
    (hsent : buffers.flatten = garbage ++ wire tail sents) (hcut : Uncut tail sents buffers)
    (header : ResponseHeader) (missing : UInt32) (f : FirmwareStreams) :
    (receive cfg (packed k) magic ignoreBytes buffers ⟨.waitingForConfiguration, header, missing⟩ f).depth.frames =
      f.depth.frames ++ numbered f.depth.stableFrameID (handedOver cfg f.depth.paddingPixelsOnEnd
        (frames.map fun g => (g.first.header,
          g.elements.flatten.map fun shift => getOutput cfg.table (correct shift)))) := by
  have hcontents : (frames.map ElementFrame.toSentFrame).map
      (fun g => (g.first.header, packedDepths k cfg.table g.bytes)) =
        frames.map fun g => (g.first.header,
          g.elements.flatten.map fun shift => getOutput cfg.table (correct shift)) := by
    rw [List.map_map]
    refine List.map_congr_left fun g _ => ?_
    rw [Function.comp_apply, g.packs, packedDepths_elements h cfg.table g.full g.valid]
  rw [← hcontents]
  refine receive_delivered (packed_decodes k cfg) (packed_confined k) hroom (fun _ _ => le_top) ?_ hend hgarbage
    hsent hcut header missing f
  rw [hframes, List.flatMap_map]

section Eight

def eightConfig : Config := { pairConfig with xRes := 8, frameRoom := 8 }

def eightStart : Packet := ⟨⟨0x4252, responseDepthStart, 1, 4, 0⟩, [0, 32, 8, 1], rfl⟩
def eightEnd : Packet := ⟨⟨0x4252, responseDepthEnd, 2, 7, 0⟩, [128, 64, 10, 1, 128, 56, 8], rfl⟩

def eightFrame : ElementFrame packing11 2048 8 where
  first := eightStart
  between := []
  last := eightEnd
  starts := rfl
  inside := by simp
  ends := rfl
  unbroken := by simp [Follows, eightStart, eightEnd]
  elements := [[1, 2, 3, 4, 5, 6, 7, 8]]
  full := by decide
  valid := by decide
  packs := by decide

def eightSents : List (Sent 0x4252) := [⟨pairTail, eightStart, rfl⟩, ⟨pairTail, eightEnd, rfl⟩]

/-- A frame of one element, which begins in one packet and ends in the next. -/
theorem receive_elements_eight :
    (receive eightConfig (packed packing11) 0x4252 0 [wire pairTail eightSents]
      ⟨.waitingForConfiguration, ⟨0, 0, 0, 0, 0⟩, 0⟩ ⟨initial, [], .ok⟩).depth.frames =
        [⟨1, [1, 2, 3, 4, 5, 6, 7, 8]⟩] :=
  @receive_elements eightConfig 0x4252 pairTail eightSents 0 [] _ packing11 2048 8 id packing11_regroups (by decide)
    [eightFrame] rfl (fun h => nomatch h) rfl (by decide) (by decide) ⟨0, 0, 0, 0, 0⟩ 0
    ⟨initial, [], .ok⟩

end Eight

end Formats

end WaterHarp.DepthPipeline
