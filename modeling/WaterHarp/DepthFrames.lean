import WaterHarp.DepthDecoder

/-! `XnDataProcessor`, `XnFrameStreamProcessor` and `XnDepthProcessor`: the packets
of a depth stream are put together to frames. A broken frame is dropped, and the
next start of a frame begins anew. -/
namespace WaterHarp.DepthFrames
open DepthDecoder

structure ResponseHeader where
  magic : UInt16
  type : UInt16
  packetID : UInt16
  bufSize : UInt16
  timeStamp : UInt32
  deriving DecidableEq, Repr

def responseDepthStart : UInt16 := 0x7100
def responseDepthBuffer : UInt16 := 0x7200
def responseDepthEnd : UInt16 := 0x7500

/-- A part of a packet, from `offset` on. -/
structure Chunk where
  header : ResponseHeader
  data : List UInt8
  offset : ℕ
  deriving DecidableEq, Repr

/-- The settings of the stream and of its firmware. -/
structure Config where
  table : ShiftToDepth
  noDepthValue : OniDepthPixel
  xRes : ℕ
  yRes : ℕ
  /-- The size which the firmware crops to, if it does. -/
  firmwareCrop : Option (ℕ × ℕ)
  /-- The pixels which a frame buffer has room for. -/
  frameRoom : ℕ
  /-- The bytes which `m_RawData` has room for. -/
  rawRoom : ℕ
  /-- `nFWVer >= XN_SENSOR_FW_VER_5_1`. -/
  padsFrames : Bool
  /-- `ApplyRegistration` on the pixels of a frame, where the host does it. -/
  applyRegistration : Option (List OniDepthPixel → List OniDepthPixel)
  inPlace : ∀ apply ∈ applyRegistration, ∀ pixels, (apply pixels).length = pixels.length

structure Frame where
  frameIndex : UInt32
  data : List OniDepthPixel
  deriving DecidableEq, Repr

structure DepthProcessor where
  lastPacketID : UInt16
  frameCorrupted : Bool
  expectedFrameSize : ℕ
  paddingPixelsOnEnd : ℕ
  writeBuffer : List OniDepthPixel
  /-- `m_RawData` or `m_ContinuousBuffer` of the format. -/
  rawData : List UInt8
  stableFrameID : UInt32
  /-- The frames which the stream has been given. -/
  frames : List Frame

def initial : DepthProcessor := ⟨0, false, 0, 0, [], [], 0, []⟩

/-- `ProcessFramePacketChunk` of a format. -/
abbrev Format := Config → Chunk → DepthProcessor → DepthProcessor

def sizeofDepthPixel : ℕ := 2

def DepthProcessor.frameIsCorrupted (p : DepthProcessor) : DepthProcessor := { p with frameCorrupted := true }

def freeSpaceInBuffer (cfg : Config) (p : DepthProcessor) : ℕ :=
  (cfg.frameRoom-p.writeBuffer.length)*sizeofDepthPixel

def DepthProcessor.write (p : DepthProcessor) (pixels : List OniDepthPixel) : DepthProcessor :=
  { p with writeBuffer := p.writeBuffer ++ pixels }

def padPixels (cfg : Config) (pixels : ℕ) (p : DepthProcessor) : DepthProcessor :=
  if freeSpaceInBuffer cfg p < pixels*sizeofDepthPixel then p.frameIsCorrupted
  else p.write (List.replicate pixels cfg.noDepthValue)

def calculateExpectedSize (cfg : Config) : ℕ :=
  match cfg.firmwareCrop with
  | none => cfg.xRes*cfg.yRes*sizeofDepthPixel
  | some (x, y) => x*y*sizeofDepthPixel

/-- The high half of the time stamp counts the pixels in front, the low one those behind. -/
def onStartOfFrame (cfg : Config) (header : ResponseHeader) (p : DepthProcessor) : DepthProcessor :=
  let p := { p with frameCorrupted := false, writeBuffer := [] }
  let p := { p with expectedFrameSize := calculateExpectedSize cfg }
  let p := if cfg.padsFrames ∧ header.timeStamp ≠ 0 then
      padPixels cfg (header.timeStamp >>> 16).toNat
        { p with paddingPixelsOnEnd := (header.timeStamp &&& 0xffff).toNat }
    else p
  { p with rawData := [] }

/-- `MarkWriteBufferAsStable`. -/
def markWriteBufferAsStable (p : DepthProcessor) : DepthProcessor :=
  { p with
    stableFrameID := p.stableFrameID+1
    frames := p.frames ++ [⟨p.stableFrameID+1, p.writeBuffer⟩]
    writeBuffer := [] }

/-- `XnFrameStreamProcessor::OnEndOfFrame`. -/
def deliverFrame (p : DepthProcessor) : DepthProcessor :=
  if p.frameCorrupted then { p with writeBuffer := [] } else markWriteBufferAsStable p

def checkFrameSize (cfg : Config) (p : DepthProcessor) : DepthProcessor :=
  if p.writeBuffer.length*sizeofDepthPixel ≠ p.expectedFrameSize then p.frameIsCorrupted
  else
    match cfg.applyRegistration with
    | some apply => { p with writeBuffer := apply p.writeBuffer }
    | none => p

def onEndOfFrame (cfg : Config) (p : DepthProcessor) : DepthProcessor :=
  let p := if p.paddingPixelsOnEnd ≠ 0 then
      { padPixels cfg p.paddingPixelsOnEnd p with paddingPixelsOnEnd := 0 }
    else p
  { deliverFrame (checkFrameSize cfg p) with rawData := [] }

/-- The first part of a packet which starts a frame. -/
def Chunk.Starts (c : Chunk) : Prop := c.header.type = responseDepthStart ∧ c.offset = 0

/-- The last part of a packet which ends a frame. -/
def Chunk.Ends (c : Chunk) : Prop :=
  c.header.type = responseDepthEnd ∧ c.offset+c.data.length = c.header.bufSize.toNat

instance (c : Chunk) : Decidable c.Starts := inferInstanceAs (Decidable (_ ∧ _))
instance (c : Chunk) : Decidable c.Ends := inferInstanceAs (Decidable (_ ∧ _))

def processPacketChunk (cfg : Config) (processFramePacketChunk : Format) (c : Chunk) (p : DepthProcessor) :
    DepthProcessor :=
  let p := if c.Starts then onStartOfFrame cfg c.header p else p
  let p := if p.frameCorrupted then p else processFramePacketChunk cfg c p
  if c.Ends then onEndOfFrame cfg p else p

/-- A packet was lost, as far as its number tells: number zero is always accepted. -/
def PacketLost (c : Chunk) (p : DepthProcessor) : Prop :=
  c.header.packetID.toNat ≠ p.lastPacketID.toNat+1 ∧ c.header.packetID ≠ 0

instance (c : Chunk) (p : DepthProcessor) : Decidable (PacketLost c p) := inferInstanceAs (Decidable (_ ∧ _))

def processData (cfg : Config) (processFramePacketChunk : Format) (p : DepthProcessor) (c : Chunk) :
    DepthProcessor :=
  let p := if c.offset = 0 then
      { (if PacketLost c p then p.frameIsCorrupted else p) with lastPacketID := c.header.packetID }
    else p
  processPacketChunk cfg processFramePacketChunk c p

def run (cfg : Config) (processFramePacketChunk : Format) (chunks : List Chunk) (p : DepthProcessor) :
    DepthProcessor :=
  chunks.foldl (processData cfg processFramePacketChunk) p

@[simp] lemma run_nil (cfg : Config) (format : Format) (p : DepthProcessor) : run cfg format [] p = p := rfl
@[simp] lemma run_cons (cfg : Config) (format : Format) (c : Chunk) (chunks : List Chunk) (p : DepthProcessor) :
    run cfg format (c :: chunks) p = run cfg format chunks (processData cfg format p c) := rfl
lemma run_append (cfg : Config) (format : Format) (chunks more : List Chunk) (p : DepthProcessor) :
    run cfg format (chunks ++ more) p = run cfg format more (run cfg format chunks p) :=
  List.foldl_append

/-! What holds whatever is received. -/

/-- A format touches its own buffers and may find the frame corrupted. -/
def Confined (format : Format) : Prop :=
  ∀ cfg c p, ∃ corrupted pixels raw, format cfg c p =
    { p with frameCorrupted := p.frameCorrupted || corrupted, writeBuffer := pixels, rawData := raw }

/-- The frames handed over are numbered from one and have the size of the mode, or are empty. -/
structure Sound (cfg : Config) (p : DepthProcessor) : Prop where
  expected : p.expectedFrameSize = 0 ∨ p.expectedFrameSize = calculateExpectedSize cfg
  complete : ∀ frame ∈ p.frames, frame.data = [] ∨
    frame.data.length*sizeofDepthPixel = calculateExpectedSize cfg
  numbered : p.frames.map Frame.frameIndex = (List.range p.frames.length).map fun i => .ofNat (i+1)
  last : p.stableFrameID = .ofNat p.frames.length

/-- Two states which agree on what has been handed over. -/
structure SameFrames (p q : DepthProcessor) : Prop where
  frames : q.frames = p.frames
  stableFrameID : q.stableFrameID = p.stableFrameID

section Steps
variable (cfg : Config) (format : Format) {p q : DepthProcessor}

lemma padPixels_frames (p : DepthProcessor) (pixels : ℕ) : SameFrames p (padPixels cfg pixels p) := by
  unfold padPixels
  split <;> exact ⟨rfl, rfl⟩

lemma padPixels_expected (pixels : ℕ) :
    (padPixels cfg pixels p).expectedFrameSize = p.expectedFrameSize := by
  unfold padPixels
  split <;> rfl

lemma onStartOfFrame_frames (header : ResponseHeader) : SameFrames p (onStartOfFrame cfg header p) := by
  unfold onStartOfFrame
  dsimp only
  split
  · exact ⟨(padPixels_frames cfg _ _).frames, (padPixels_frames cfg _ _).stableFrameID⟩
  · exact ⟨rfl, rfl⟩

lemma onStartOfFrame_expected (header : ResponseHeader) :
    (onStartOfFrame cfg header p).expectedFrameSize = calculateExpectedSize cfg := by
  unfold onStartOfFrame
  dsimp only
  split
  · exact padPixels_expected cfg _
  · rfl

lemma checkFrameSize_frames : SameFrames p (checkFrameSize cfg p) ∧
    (checkFrameSize cfg p).expectedFrameSize = p.expectedFrameSize := by
  unfold checkFrameSize
  split
  · exact ⟨⟨rfl, rfl⟩, rfl⟩
  · split <;> exact ⟨⟨rfl, rfl⟩, rfl⟩

lemma checkFrameSize_size (h : (checkFrameSize cfg p).frameCorrupted = false) :
    (checkFrameSize cfg p).writeBuffer.length*sizeofDepthPixel = p.expectedFrameSize := by
  unfold checkFrameSize at *
  split_ifs at * with hsize
  · cases h
  · rw [not_not] at hsize
    split
    · next apply happly =>
      rw [← hsize]
      simp only [cfg.inPlace apply happly]
    · exact hsize

lemma deliverFrame_corrupted (h : p.frameCorrupted = true) : deliverFrame p = { p with writeBuffer := [] } :=
  if_pos h

lemma padPixels_corrupted (pixels : ℕ) (h : p.frameCorrupted = true) :
    (padPixels cfg pixels p).frameCorrupted = true := by
  unfold padPixels
  split
  · rfl
  · exact h

lemma checkFrameSize_corrupted (h : p.frameCorrupted = true) :
    (checkFrameSize cfg p).frameCorrupted = true := by
  unfold checkFrameSize
  split
  · rfl
  · split <;> exact h

lemma deliver_corrupted (hq : SameFrames p q) (hcorrupted : q.frameCorrupted = true) :
    SameFrames p (deliverFrame (checkFrameSize cfg q)) ∧
      (deliverFrame (checkFrameSize cfg q)).frameCorrupted = true := by
  have hchecked := checkFrameSize_corrupted cfg hcorrupted
  obtain ⟨⟨hframes, hid⟩, -⟩ := checkFrameSize_frames cfg (p := q)
  rw [deliverFrame_corrupted hchecked]
  exact ⟨⟨hframes.trans hq.frames, hid.trans hq.stableFrameID⟩, hchecked⟩

lemma onEndOfFrame_corrupted (h : p.frameCorrupted = true) :
    SameFrames p (onEndOfFrame cfg p) ∧ (onEndOfFrame cfg p).frameCorrupted = true := by
  unfold DepthFrames.onEndOfFrame
  dsimp only
  split
  · obtain ⟨hframes, hid⟩ := padPixels_frames cfg p p.paddingPixelsOnEnd
    obtain ⟨hsame, hcorrupted⟩ := deliver_corrupted cfg (p := p)
      (q := { padPixels cfg p.paddingPixelsOnEnd p with paddingPixelsOnEnd := 0 })
      ⟨hframes, hid⟩ (padPixels_corrupted cfg _ h)
    exact ⟨⟨hsame.frames, hsame.stableFrameID⟩, hcorrupted⟩
  · obtain ⟨hsame, hcorrupted⟩ := deliver_corrupted cfg (p := p) ⟨rfl, rfl⟩ h
    exact ⟨⟨hsame.frames, hsame.stableFrameID⟩, hcorrupted⟩

lemma processPacketChunk_corrupted {c : Chunk} (hstarts : ¬ c.Starts) (h : p.frameCorrupted = true) :
    SameFrames p (processPacketChunk cfg format c p) ∧
      (processPacketChunk cfg format c p).frameCorrupted = true := by
  unfold processPacketChunk
  dsimp only
  rw [if_neg hstarts, if_pos h]
  split
  · exact onEndOfFrame_corrupted cfg h
  · exact ⟨⟨rfl, rfl⟩, h⟩

lemma processData_corrupted {c : Chunk} (hstarts : ¬ c.Starts)
    (h : p.frameCorrupted = true ∨ c.offset = 0 ∧ PacketLost c p) :
    SameFrames p (processData cfg format p c) ∧ (processData cfg format p c).frameCorrupted = true := by
  unfold DepthFrames.processData
  dsimp only
  by_cases hoffset : c.offset = 0
  · have hcorrupted : (if PacketLost c p then p.frameIsCorrupted else p).frameCorrupted = true := by
      split_ifs with hlost
      · rfl
      · cases h with
        | inl h => exact h
        | inr h => exact absurd h.2 hlost
    have hsame : SameFrames p (if PacketLost c p then p.frameIsCorrupted else p) := by
      split <;> exact ⟨rfl, rfl⟩
    rw [if_pos hoffset]
    obtain ⟨hframes, hdone⟩ := processPacketChunk_corrupted cfg format
      (p := { (if PacketLost c p then p.frameIsCorrupted else p) with lastPacketID := c.header.packetID })
      hstarts hcorrupted
    exact ⟨⟨hframes.frames.trans hsame.frames, hframes.stableFrameID.trans hsame.stableFrameID⟩, hdone⟩
  · rw [if_neg hoffset]
    exact processPacketChunk_corrupted cfg format hstarts (h.resolve_right fun h => hoffset h.1)

lemma run_corrupted {chunks : List Chunk} (hstarts : ∀ c ∈ chunks, ¬ c.Starts) (h : p.frameCorrupted = true) :
    SameFrames p (run cfg format chunks p) := by
  induction chunks generalizing p with
  | nil => exact ⟨rfl, rfl⟩
  | cons c chunks ih =>
    obtain ⟨hsame, hcorrupted⟩ := processData_corrupted cfg format
      (hstarts c (by simp)) (.inl h)
    have hrest := ih (fun d hd => hstarts d (by simp [hd])) hcorrupted
    exact ⟨hrest.frames.trans hsame.frames, hrest.stableFrameID.trans hsame.stableFrameID⟩

/-- From a packet whose number does not follow nothing is handed over until a frame starts. -/
theorem run_lost (p : DepthProcessor) {c : Chunk} {chunks : List Chunk}
    (hoffset : c.offset = 0) (hlost : PacketLost c p) (hstarts : ∀ d ∈ c :: chunks, ¬ d.Starts) :
    (run cfg format (c :: chunks) p).frames = p.frames := by
  obtain ⟨hsame, hcorrupted⟩ := processData_corrupted cfg format
    (hstarts c (by simp)) (.inr ⟨hoffset, hlost⟩)
  have hrest := run_corrupted cfg format
    (fun d hd => hstarts d (List.mem_cons_of_mem c hd)) hcorrupted
  exact hrest.frames.trans hsame.frames

end Steps

section Soundness
variable {cfg : Config} {format : Format} {p q : DepthProcessor}

lemma Sound.congr (h : Sound cfg p) (hq : SameFrames p q)
    (hexpected : q.expectedFrameSize = 0 ∨ q.expectedFrameSize = calculateExpectedSize cfg) : Sound cfg q := by
  obtain ⟨hframes, hid⟩ := hq
  constructor
  · exact hexpected
  · rw [hframes]
    exact h.complete
  · rw [hframes]
    exact h.numbered
  · rw [hframes, hid]
    exact h.last

lemma Sound.deliver (h : Sound cfg p)
    (hsize : p.frameCorrupted = false → p.writeBuffer.length*sizeofDepthPixel = p.expectedFrameSize) :
    Sound cfg (deliverFrame p) := by
  unfold deliverFrame
  split_ifs with hcorrupted
  · exact h.congr ⟨rfl, rfl⟩ h.expected
  · have hdata := hsize (Bool.not_eq_true _ ▸ hcorrupted)
    have hid : p.stableFrameID+1 = .ofNat (p.frames.length+1) := by
      rw [h.last]
      exact (UInt32.ofNat_add p.frames.length 1).symm
    constructor
    · exact h.expected
    · intro frame hframe
      cases List.mem_append.mp hframe with
      | inl hold => exact h.complete frame hold
      | inr hnew =>
        rw [List.mem_singleton.mp hnew]
        cases h.expected with
        | inl hzero =>
          rw [hzero] at hdata
          exact .inl (List.eq_nil_of_length_eq_zero (by simpa [sizeofDepthPixel] using hdata))
        | inr hcalc => exact .inr (hdata.trans hcalc)
    · simp only [markWriteBufferAsStable, List.map_append, h.numbered, List.length_append, List.range_succ,
        List.map_cons, List.map_nil, List.length_singleton, hid]
    · simp only [markWriteBufferAsStable, List.length_append, List.length_singleton, hid]

lemma Sound.onEndOfFrame (h : Sound cfg p) : Sound cfg (onEndOfFrame cfg p) := by
  unfold DepthFrames.onEndOfFrame
  dsimp only
  have hend : ∀ q, Sound cfg q → Sound cfg (deliverFrame (checkFrameSize cfg q)) := by
    intro q hq
    obtain ⟨hframes, hexpected⟩ := checkFrameSize_frames cfg (p := q)
    refine (hq.congr hframes (hexpected ▸ hq.expected)).deliver fun hcorrupted => ?_
    rw [hexpected]
    exact checkFrameSize_size cfg hcorrupted
  have hpadded : Sound cfg (if p.paddingPixelsOnEnd ≠ 0 then
      { padPixels cfg p.paddingPixelsOnEnd p with paddingPixelsOnEnd := 0 } else p) := by
    split
    · refine h.congr ⟨(padPixels_frames cfg _ _).frames, (padPixels_frames cfg _ _).stableFrameID⟩ ?_
      exact (padPixels_expected cfg (p := p) _).symm ▸ h.expected
    · exact h
  exact (hend _ hpadded).congr ⟨rfl, rfl⟩ (hend _ hpadded).expected

lemma Sound.processData (hformat : Confined format) (h : Sound cfg p) (c : Chunk) :
    Sound cfg (processData cfg format p c) := by
  have hfirst : Sound cfg (if c.offset = 0 then
      { (if PacketLost c p then p.frameIsCorrupted else p) with lastPacketID := c.header.packetID } else p) := by
    split
    · split <;> exact h.congr ⟨rfl, rfl⟩ h.expected
    · exact h
  unfold DepthFrames.processData processPacketChunk
  dsimp only
  generalize (if c.offset = 0 then
      { (if PacketLost c p then p.frameIsCorrupted else p) with lastPacketID := c.header.packetID }
      else p) = q at hfirst
  have hstart : Sound cfg (if c.Starts then onStartOfFrame cfg c.header q else q) := by
    split
    · exact hfirst.congr (onStartOfFrame_frames cfg _) (.inr (onStartOfFrame_expected cfg _))
    · exact hfirst
  generalize (if c.Starts then onStartOfFrame cfg c.header q else q) = q at hstart
  have hformatted : Sound cfg (if q.frameCorrupted then q else format cfg c q) := by
    split
    · exact hstart
    · obtain ⟨corrupted, pixels, raw, hconfined⟩ := hformat cfg c q
      rw [hconfined]
      exact hstart.congr ⟨rfl, rfl⟩ hstart.expected
  split
  · exact hformatted.onEndOfFrame
  · exact hformatted

/-- Whatever is received, no frame with missing or left over pixels is handed over. -/
theorem run_sound (hformat : Confined format) (chunks : List Chunk) (h : Sound cfg p) :
    Sound cfg (run cfg format chunks p) := by
  induction chunks generalizing p with
  | nil => exact h
  | cons c chunks ih => exact ih (h.processData hformat c)

end Soundness

lemma initial_sound (cfg : Config) : Sound cfg initial :=
  ⟨.inl rfl, by simp [initial], rfl, rfl⟩

end WaterHarp.DepthFrames
