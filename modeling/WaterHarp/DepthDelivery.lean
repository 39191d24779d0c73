import WaterHarp.DepthParts

/-! Whole frames, sent as packets which may arrive in parts: whatever has been
received before, each is handed over with all its pixels, or dropped when their
number is not that of the mode. -/
namespace WaterHarp.DepthDelivery
open TokenReader DepthDecoder DepthFrames DepthFormats DepthParts

/-- Consecutive parts of a packet, from `offset` on; only an empty packet has an empty part. -/
inductive Parts (header : ResponseHeader) : ℕ → List UInt8 → List Chunk → Prop
  | last (offset : ℕ) (data : List UInt8) : Parts header offset data [⟨header, data, offset⟩]
  | more {offset : ℕ} {piece rest : List UInt8} {chunks : List Chunk} (hpiece : piece ≠ [])
      (hrest : rest ≠ []) (h : Parts header (offset+piece.length) rest chunks) :
      Parts header offset (piece ++ rest) (⟨header, piece, offset⟩ :: chunks)

structure Packet where
  header : ResponseHeader
  data : List UInt8
  size : data.length = header.bufSize.toNat

def Packet.SplitInto (packet : Packet) (chunks : List Chunk) : Prop := Parts packet.header 0 packet.data chunks

/-- The number of a packet follows as far as the processor can tell. -/
def Follows (last next : UInt16) : Prop := next.toNat = last.toNat+1 ∨ next = 0

/-- A frame as the sensor sends it. -/
structure SentFrame where
  first : Packet
  between : List Packet
  last : Packet
  starts : first.header.type = responseDepthStart
  inside : ∀ packet ∈ between, packet.header.type = responseDepthBuffer
  ends : last.header.type = responseDepthEnd
  unbroken : (first :: between ++ [last]).IsChain fun a b => Follows a.header.packetID b.header.packetID

def SentFrame.packets (f : SentFrame) : List Packet := f.first :: f.between ++ [f.last]
def SentFrame.bytes (f : SentFrame) : List UInt8 := f.packets.flatMap Packet.data

section Padding
variable (cfg : Config) (header : ResponseHeader)

def paddingInFront : ℕ := if cfg.padsFrames ∧ header.timeStamp ≠ 0 then (header.timeStamp >>> 16).toNat else 0

/-- A start without padding leaves the `stale` one of a frame which never ended. -/
def paddingBehind (stale : ℕ) : ℕ :=
  if cfg.padsFrames ∧ header.timeStamp ≠ 0 then (header.timeStamp &&& 0xffff).toNat else stale

def front : List OniDepthPixel := List.replicate (paddingInFront cfg header) cfg.noDepthValue

end Padding

section Frame
variable {cfg : Config} {format : Format} {whole : List UInt8 → List OniDepthPixel}
  {Kept : List UInt8 → Prop} {rawRoom : ℕ∞} {p start : DepthProcessor} {header : ResponseHeader}
  {bytes : List UInt8}

/-- The frame begun at `start`, after `bytes` of it. -/
structure Begun (cfg : Config) (whole : List UInt8 → List OniDepthPixel) (Kept : List UInt8 → Prop)
    (start : DepthProcessor) (header : ResponseHeader) (bytes : List UInt8) (p : DepthProcessor) : Prop where
  expected : p.expectedFrameSize = calculateExpectedSize cfg
  padding : p.paddingPixelsOnEnd = paddingBehind cfg header start.paddingPixelsOnEnd
  frames : SameFrames start p
  content : ((front cfg header).length+(whole bytes).length ≤ cfg.frameRoom ∧
      Holding whole Kept (front cfg header) bytes p) ∨
    (cfg.frameRoom < (front cfg header).length+(whole bytes).length ∧ p.frameCorrupted = true)

/-- One more chunk of an open frame, the packet numbers apart. -/
lemma Begun.chunk (hdec : Decodes cfg format rawRoom whole Kept) (h : Begun cfg whole Kept start header bytes p)
    {c : Chunk} (hraw : (bytes.length+c.data.length : ℕ) ≤ rawRoom) (hends : ¬ c.Ends) :
    Begun cfg whole Kept start header (bytes ++ c.data) (if p.frameCorrupted then p else format cfg c p) := by
  obtain ⟨hfits, hholding⟩ | ⟨hfull, hcorrupted⟩ := h.content
  · rw [hholding.intact, if_neg Bool.false_ne_true]
    obtain htaken | hover | ⟨hspills, -⟩ := hdec.part c hholding (hholding.buffer_le hfits)
    · have hgoing := htaken.going hends
      rw [htaken.buffers] at hgoing ⊢
      exact ⟨h.expected, h.padding, ⟨h.frames.frames, h.frames.stableFrameID⟩, .inl ⟨htaken.fits, hgoing⟩⟩
    · rw [hover.corrupted]
      exact ⟨h.expected, h.padding, ⟨h.frames.frames, h.frames.stableFrameID⟩, .inr ⟨hover.full, rfl⟩⟩
    · exact absurd hspills (hholding.spares hraw)
  · rw [if_pos hcorrupted]
    have := hdec.grows bytes c.data
    exact ⟨h.expected, h.padding, h.frames, .inr ⟨by omega, hcorrupted⟩⟩

lemma Begun.numbered (h : Begun cfg whole Kept start header bytes p) (n : UInt16) :
    Begun cfg whole Kept start header bytes { p with lastPacketID := n } := by
  refine ⟨h.expected, h.padding, ⟨h.frames.frames, h.frames.stableFrameID⟩, ?_⟩
  cases h.content with
  | inl hheld =>
    obtain ⟨hfits, hholding⟩ := hheld
    exact .inl ⟨hfits, ⟨hholding.intact, hholding.written, hholding.room, hholding.kept⟩⟩
  | inr hfull => exact .inr hfull

lemma format_lastPacketID (hformat : Confined format) (c : Chunk) :
    (if p.frameCorrupted then p else format cfg c p).lastPacketID = p.lastPacketID := by
  split
  · rfl
  · obtain ⟨corrupted, pixels, raw, hconf⟩ := hformat cfg c p
    rw [hconf]

/-- The state in which a chunk of a numbered packet is processed. -/
def counted (c : Chunk) (p : DepthProcessor) : DepthProcessor :=
  if c.offset = 0 then
    { (if PacketLost c p then p.frameIsCorrupted else p) with lastPacketID := c.header.packetID }
  else p

lemma counted_of_follows {c : Chunk} (h : c.offset = 0 → Follows p.lastPacketID c.header.packetID)
    (h' : c.offset ≠ 0 → p.lastPacketID = c.header.packetID) :
    counted c p = { p with lastPacketID := c.header.packetID } := by
  unfold counted
  split_ifs with hoffset hlost
  · obtain ⟨hnext, hzero⟩ := hlost
    cases h hoffset with
    | inl hf => exact absurd hf hnext
    | inr hf => exact absurd hf hzero
  · rfl
  · rw [← h' hoffset]

lemma processData_eq (c : Chunk) : processData cfg format p c = processPacketChunk cfg format c (counted c p) :=
  rfl

/-- A chunk in the middle of a frame. -/
lemma Begun.processData (hdec : Decodes cfg format rawRoom whole Kept) (hformat : Confined format)
    (h : Begun cfg whole Kept start header bytes p) {c : Chunk}
    (hraw : (bytes.length+c.data.length : ℕ) ≤ rawRoom) (hends : ¬ c.Ends) (hstarts : ¬ c.Starts)
    (hfollows : c.offset = 0 → Follows p.lastPacketID c.header.packetID)
    (hsame : c.offset ≠ 0 → p.lastPacketID = c.header.packetID) :
    Begun cfg whole Kept start header (bytes ++ c.data) (processData cfg format p c) ∧
      (DepthFrames.processData cfg format p c).lastPacketID = c.header.packetID := by
  have hnumbered := h.numbered c.header.packetID
  rw [processData_eq, counted_of_follows hfollows hsame, processPacketChunk, if_neg hstarts, if_neg hends]
  exact ⟨hnumbered.chunk hdec hraw hends, format_lastPacketID hformat c⟩

/-- The parts of a packet which neither starts nor ends the frame. -/
lemma Begun.parts (hdec : Decodes cfg format rawRoom whole Kept) (hformat : Confined format) {head : ResponseHeader}
    {offset : ℕ} {data : List UInt8} {chunks : List Chunk} (hparts : Parts head offset data chunks)
    (h : Begun cfg whole Kept start header bytes p) (hraw : (bytes.length+data.length : ℕ) ≤ rawRoom)
    (hends : head.type ≠ responseDepthEnd) (hstarts : head.type ≠ responseDepthStart ∨ offset ≠ 0)
    (hfollows : offset = 0 → Follows p.lastPacketID head.packetID)
    (hsame : offset ≠ 0 → p.lastPacketID = head.packetID) :
    Begun cfg whole Kept start header (bytes ++ data) (run cfg format chunks p) ∧
      (run cfg format chunks p).lastPacketID = head.packetID := by
  induction hparts generalizing bytes p with
  | last offset data =>
    exact h.processData hdec hformat (c := ⟨head, data, offset⟩) hraw (fun he => hends he.1)
      (fun hs => hstarts.elim (fun ht => ht hs.1) fun ho => ho hs.2) hfollows hsame
  | @more offset piece rest chunks hpiece hrest _ ih =>
    rw [List.length_append] at hraw
    obtain ⟨hnext, hid⟩ := h.processData hdec hformat (c := ⟨head, piece, offset⟩)
      (le_trans (Nat.cast_le.mpr (by dsimp only; omega)) hraw) (fun he => hends he.1)
      (fun hs => hstarts.elim (fun ht => ht hs.1) fun ho => ho hs.2) hfollows hsame
    have hpos : offset+piece.length ≠ 0 := by
      have := List.length_pos_of_ne_nil hpiece
      omega
    rw [run_cons, ← List.append_assoc]
    exact ih hnext (by rwa [List.length_append, Nat.add_assoc]) (.inr hpos) (fun h0 => absurd h0 hpos) fun _ => hid

/-- The first chunk of a frame forgets what has been received before. -/
lemma begun_start (hdec : Decodes cfg format rawRoom whole Kept) (p : DepthProcessor) (header : ResponseHeader) :
    Begun cfg whole Kept p header [] (onStartOfFrame cfg header p) := by
  have hfront : (front cfg header).length = paddingInFront cfg header := List.length_replicate
  refine ⟨onStartOfFrame_expected cfg header, ?_, onStartOfFrame_frames cfg header, ?_⟩
  · unfold onStartOfFrame paddingBehind padPixels
    dsimp only
    split_ifs <;> rfl
  · rw [hfront, hdec.empty.1, List.length_nil, Nat.add_zero]
    unfold onStartOfFrame front paddingInFront
    dsimp only
    split_ifs with hpads
    · unfold padPixels freeSpaceInBuffer
      dsimp only [List.length_nil]
      split_ifs with hfull
      · right
        refine ⟨?_, rfl⟩
        simp only [sizeofDepthPixel] at hfull
        omega
      · left
        refine ⟨?_, ⟨rfl, ⟨[], ?_, ?_⟩, le_rfl, hdec.empty.2⟩⟩
        · simp only [sizeofDepthPixel] at hfull
          omega
        · rw [List.append_nil]
          rfl
        · exact Resumes.refl []
    · left
      exact ⟨Nat.zero_le _, ⟨rfl, ⟨[], rfl, Resumes.refl []⟩, le_rfl, hdec.empty.2⟩⟩

/-- What becomes of a frame with these pixels. -/
def delivered (cfg : Config) (pixels : List OniDepthPixel) : Option (List OniDepthPixel) :=
  if pixels.length*sizeofDepthPixel ≠ calculateExpectedSize cfg then none
  else
    match cfg.applyRegistration with
    | some apply => some (apply pixels)
    | none => some pixels

/-- The frame begun at `start` is over. -/
structure Closed (cfg : Config) (start : DepthProcessor) (pixels : List OniDepthPixel) (p : DepthProcessor) :
    Prop where
  padding : p.paddingPixelsOnEnd = 0
  frames : p.frames = start.frames ++ (delivered cfg pixels).toList.map (Frame.mk (start.stableFrameID+1))
  stableFrameID : p.stableFrameID = start.stableFrameID+.ofNat (delivered cfg pixels).toList.length

lemma closed_of_dropped {pixels : List OniDepthPixel} (hsame : SameFrames start p)
    (hpadding : p.paddingPixelsOnEnd = 0)
    (hsize : pixels.length*sizeofDepthPixel ≠ calculateExpectedSize cfg) : Closed cfg start pixels p := by
  have hnone : delivered cfg pixels = none := if_pos hsize
  refine ⟨hpadding, ?_, ?_⟩
  · rw [hnone, hsame.frames]
    simp
  · rw [hnone, hsame.stableFrameID]
    simp

lemma onEndOfFrame_padding : (onEndOfFrame cfg p).paddingPixelsOnEnd = 0 := by
  have hend : ∀ q : DepthProcessor, (deliverFrame (checkFrameSize cfg q)).paddingPixelsOnEnd =
      q.paddingPixelsOnEnd := by
    intro q
    unfold deliverFrame checkFrameSize
    split <;> split <;> first | rfl | (split <;> rfl)
  unfold onEndOfFrame
  dsimp only
  rw [hend]
  split_ifs with hpad
  · rfl
  · exact not_not.mp hpad

variable (cfg) in
lemma deliverFrame_closed (hintact : p.frameCorrupted = false) (hpadding : p.paddingPixelsOnEnd = 0)
    (hexpected : p.expectedFrameSize = calculateExpectedSize cfg) :
    Closed cfg p p.writeBuffer { deliverFrame (checkFrameSize cfg p) with rawData := [] } := by
  by_cases hsize : p.writeBuffer.length*sizeofDepthPixel = calculateExpectedSize cfg
  · have hchecked : ∃ pixels, delivered cfg p.writeBuffer = some pixels ∧
        checkFrameSize cfg p = { p with writeBuffer := pixels } := by
      unfold delivered checkFrameSize
      rw [if_neg (not_not.mpr hsize), if_neg (by rw [hexpected]; exact not_not.mpr hsize)]
      cases cfg.applyRegistration with
      | none => exact ⟨_, rfl, rfl⟩
      | some apply => exact ⟨_, rfl, rfl⟩
    obtain ⟨pixels, hdelivered, hp⟩ := hchecked
    have hdeliver : deliverFrame (checkFrameSize cfg p) = markWriteBufferAsStable { p with writeBuffer := pixels } := by
      rw [hp]
      exact if_neg (by rw [hintact]; exact Bool.false_ne_true)
    rw [hdeliver]
    refine ⟨hpadding, ?_, ?_⟩
    · rw [hdelivered]
      rfl
    · rw [hdelivered]
      rfl
  · have hcorrupted : (checkFrameSize cfg p) = p.frameIsCorrupted := if_pos (by rw [hexpected]; exact hsize)
    rw [hcorrupted, deliverFrame_corrupted rfl]
    exact closed_of_dropped ⟨rfl, rfl⟩ hpadding hsize

variable (cfg) in
/-- The pixels of an intact frame and those behind them are checked and handed over. -/
lemma onEndOfFrame_closed (hintact : p.frameCorrupted = false)
    (hexpected : p.expectedFrameSize = calculateExpectedSize cfg)
    (hroom : calculateExpectedSize cfg ≤ cfg.frameRoom*sizeofDepthPixel) :
    Closed cfg p (p.writeBuffer ++ List.replicate p.paddingPixelsOnEnd cfg.noDepthValue)
      (onEndOfFrame cfg p) := by
  by_cases hpad : p.paddingPixelsOnEnd = 0
  · have hend : onEndOfFrame cfg p = { deliverFrame (checkFrameSize cfg p) with rawData := [] } := by
      unfold onEndOfFrame
      dsimp only
      rw [if_neg (not_not.mpr hpad)]
    rw [hend, hpad, List.replicate_zero, List.append_nil]
    exact deliverFrame_closed cfg hintact hpad hexpected
  · by_cases hfull : freeSpaceInBuffer cfg p < p.paddingPixelsOnEnd*sizeofDepthPixel
    · have hpadded : (padPixels cfg p.paddingPixelsOnEnd p).frameCorrupted = true := by
        rw [padPixels, if_pos hfull]
        rfl
      refine closed_of_dropped ?_ onEndOfFrame_padding ?_
      · obtain ⟨hframes, hid⟩ := padPixels_frames cfg p p.paddingPixelsOnEnd
        obtain ⟨hsame, -⟩ := deliver_corrupted cfg (p := p)
          (q := { padPixels cfg p.paddingPixelsOnEnd p with paddingPixelsOnEnd := 0 }) ⟨hframes, hid⟩ hpadded
        unfold onEndOfFrame
        dsimp only
        rw [if_pos hpad]
        exact ⟨hsame.frames, hsame.stableFrameID⟩
      · unfold freeSpaceInBuffer at hfull
        rw [List.length_append, List.length_replicate]
        simp only [sizeofDepthPixel] at *
        omega
    · have hpadded : padPixels cfg p.paddingPixelsOnEnd p =
          p.write (List.replicate p.paddingPixelsOnEnd cfg.noDepthValue) := if_neg hfull
      have hend : onEndOfFrame cfg p = { deliverFrame (checkFrameSize cfg
          { p.write (List.replicate p.paddingPixelsOnEnd cfg.noDepthValue) with paddingPixelsOnEnd := 0 }) with
            rawData := [] } := by
        unfold onEndOfFrame
        dsimp only
        rw [if_pos hpad, hpadded]
      rw [hend]
      obtain ⟨hzero, hframes, hid⟩ := deliverFrame_closed cfg
        (p := { p.write (List.replicate p.paddingPixelsOnEnd cfg.noDepthValue) with paddingPixelsOnEnd := 0 })
        hintact rfl hexpected
      exact ⟨hzero, hframes, hid⟩

/-- The pixels which the bytes of a frame amount to. -/
def framePixels (cfg : Config) (whole : List UInt8 → List OniDepthPixel) (stale : ℕ)
    (header : ResponseHeader) (bytes : List UInt8) : List OniDepthPixel :=
  front cfg header ++ whole bytes ++ List.replicate (paddingBehind cfg header stale) cfg.noDepthValue

lemma Begun.full {stale : ℕ} (h : cfg.frameRoom < (front cfg header).length+(whole bytes).length)
    (hroom : calculateExpectedSize cfg ≤ cfg.frameRoom*sizeofDepthPixel) :
    (framePixels cfg whole stale header bytes).length*sizeofDepthPixel ≠ calculateExpectedSize cfg := by
  rw [framePixels, List.length_append, List.length_append]
  simp only [sizeofDepthPixel] at *
  omega

/-- The last chunk of a frame. -/
lemma Begun.ends (hdec : Decodes cfg format rawRoom whole Kept)
    (hroom : calculateExpectedSize cfg ≤ cfg.frameRoom*sizeofDepthPixel)
    (h : Begun cfg whole Kept start header bytes p) {c : Chunk}
    (hraw : (bytes.length+c.data.length : ℕ) ≤ rawRoom) (hends : c.Ends)
    (hfollows : c.offset = 0 → Follows p.lastPacketID c.header.packetID)
    (hsame : c.offset ≠ 0 → p.lastPacketID = c.header.packetID) :
    Closed cfg start (framePixels cfg whole start.paddingPixelsOnEnd header (bytes ++ c.data))
      (DepthFrames.processData cfg format p c) := by
  have hstarts : ¬ c.Starts := fun hs => absurd (hs.1.symm.trans hends.1) (by decide)
  have hnumbered := h.numbered c.header.packetID
  rw [processData_eq, counted_of_follows hfollows hsame, processPacketChunk, if_neg hstarts, if_pos hends]
  generalize { p with lastPacketID := c.header.packetID } = q at hnumbered
  obtain ⟨hexpected, hpadding, hframes, ⟨hfits, hholding⟩ | ⟨hfull, hcorrupted⟩⟩ := hnumbered
  · rw [hholding.intact, if_neg Bool.false_ne_true]
    obtain htaken | hover | ⟨hspills, -⟩ := hdec.part c hholding (hholding.buffer_le hfits)
    · have hwritten := htaken.ended hends
      rw [htaken.buffers]
      obtain ⟨hzero, hend, hid⟩ := onEndOfFrame_closed cfg
        (p := { q with writeBuffer := (format cfg c q).writeBuffer, rawData := (format cfg c q).rawData })
        hholding.intact hexpected hroom
      refine ⟨hzero, hend.trans ?_, hid.trans ?_⟩
      · dsimp only
        rw [hframes.frames, hframes.stableFrameID, hwritten, hpadding, framePixels]
      · dsimp only
        rw [hframes.stableFrameID, hwritten, hpadding, framePixels]
    · rw [hover.corrupted]
      obtain ⟨hsame', -⟩ := onEndOfFrame_corrupted cfg (p := { q with
        frameCorrupted := true
        writeBuffer := (format cfg c q).writeBuffer
        rawData := (format cfg c q).rawData }) rfl
      exact closed_of_dropped ⟨hsame'.frames.trans hframes.frames, hsame'.stableFrameID.trans hframes.stableFrameID⟩
        onEndOfFrame_padding (Begun.full hover.full hroom)
    · exact absurd hspills (hholding.spares hraw)
  · rw [if_pos hcorrupted]
    obtain ⟨hsame', -⟩ := onEndOfFrame_corrupted cfg hcorrupted
    have hgrows := hdec.grows bytes c.data
    exact closed_of_dropped ⟨hsame'.frames.trans hframes.frames, hsame'.stableFrameID.trans hframes.stableFrameID⟩
      onEndOfFrame_padding (Begun.full (by omega) hroom)

/-- The parts of the packet which ends the frame. -/
lemma Begun.lastParts (hdec : Decodes cfg format rawRoom whole Kept) (hformat : Confined format)
    (hroom : calculateExpectedSize cfg ≤ cfg.frameRoom*sizeofDepthPixel) {head : ResponseHeader}
    {offset : ℕ} {data : List UInt8} {chunks : List Chunk} (hparts : Parts head offset data chunks)
    (h : Begun cfg whole Kept start header bytes p) (hraw : (bytes.length+data.length : ℕ) ≤ rawRoom)
    (hends : head.type = responseDepthEnd) (hsize : offset+data.length = head.bufSize.toNat)
    (hfollows : offset = 0 → Follows p.lastPacketID head.packetID)
    (hsame : offset ≠ 0 → p.lastPacketID = head.packetID) :
    Closed cfg start (framePixels cfg whole start.paddingPixelsOnEnd header (bytes ++ data))
      (run cfg format chunks p) := by
  induction hparts generalizing bytes p with
  | last offset data =>
    exact h.ends hdec hroom (c := ⟨head, data, offset⟩) hraw ⟨hends, hsize⟩ hfollows hsame
  | @more offset piece rest chunks hpiece hrest _ ih =>
    rw [List.length_append] at hraw hsize
    have hmore := List.length_pos_of_ne_nil hrest
    have hpos := List.length_pos_of_ne_nil hpiece
    have hnotEnds : ¬ Chunk.Ends ⟨head, piece, offset⟩ := by
      rintro ⟨-, he⟩
      dsimp only at he
      omega
    have hnotStarts : ¬ Chunk.Starts ⟨head, piece, offset⟩ :=
      fun hs => absurd (hs.1.symm.trans hends) (by decide)
    obtain ⟨hnext, hid⟩ := h.processData hdec hformat (c := ⟨head, piece, offset⟩)
      (le_trans (Nat.cast_le.mpr (by dsimp only; omega)) hraw) hnotEnds hnotStarts hfollows hsame
    rw [run_cons, ← List.append_assoc]
    exact ih hnext (by rwa [List.length_append, Nat.add_assoc]) (by omega) (fun h0 => by omega) fun _ => hid

lemma counted_fields (c : Chunk) : SameFrames p (counted c p) ∧
    (counted c p).paddingPixelsOnEnd = p.paddingPixelsOnEnd ∧
    (c.offset = 0 → (counted c p).lastPacketID = c.header.packetID) := by
  unfold counted
  split_ifs with hoffset
  · exact ⟨⟨rfl, rfl⟩, rfl, fun _ => rfl⟩
  · exact ⟨⟨rfl, rfl⟩, rfl, fun _ => rfl⟩
  · exact ⟨⟨rfl, rfl⟩, rfl, fun h => absurd h hoffset⟩

lemma onStartOfFrame_lastPacketID : (onStartOfFrame cfg header p).lastPacketID = p.lastPacketID := by
  unfold onStartOfFrame padPixels
  dsimp only
  split_ifs <;> rfl

/-- The chunk which starts a frame. -/
lemma begun_chunk (hdec : Decodes cfg format rawRoom whole Kept) (hformat : Confined format) (p : DepthProcessor)
    {c : Chunk} (hstarts : c.Starts) (hraw : c.data.length ≤ rawRoom) :
    Begun cfg whole Kept p c.header c.data (processData cfg format p c) ∧
      (DepthFrames.processData cfg format p c).lastPacketID = c.header.packetID := by
  have hends : ¬ c.Ends := fun he => absurd (hstarts.1.symm.trans he.1) (by decide)
  obtain ⟨hframes, hpadding, hid⟩ := counted_fields (p := p) c
  have hstart := (begun_start hdec (counted c p) c.header).chunk hdec (c := c)
    (by rw [List.length_nil, Nat.zero_add]; exact hraw) hends
  rw [processData_eq, processPacketChunk, if_pos hstarts, if_neg hends]
  refine ⟨⟨hstart.expected, hpadding ▸ hstart.padding, ?_, hstart.content⟩, ?_⟩
  · exact ⟨hstart.frames.frames.trans hframes.frames, hstart.frames.stableFrameID.trans hframes.stableFrameID⟩
  · rw [format_lastPacketID hformat, onStartOfFrame_lastPacketID, hid hstarts.2]

/-- The parts of the packet which starts the frame. -/
lemma begun_parts (hdec : Decodes cfg format rawRoom whole Kept) (hformat : Confined format) (p : DepthProcessor)
    {head : ResponseHeader} {data : List UInt8} {chunks : List Chunk} (hparts : Parts head 0 data chunks)
    (hstarts : head.type = responseDepthStart) (hraw : data.length ≤ rawRoom) :
    Begun cfg whole Kept p head data (run cfg format chunks p) ∧
      (run cfg format chunks p).lastPacketID = head.packetID := by
  have hends : head.type ≠ responseDepthEnd := fun he => absurd (hstarts.symm.trans he) (by decide)
  cases hparts with
  | last => exact begun_chunk hdec hformat p (c := ⟨head, data, 0⟩) ⟨hstarts, rfl⟩ hraw
  | @more _ piece rest chunks hpiece hrest hparts =>
    have hpos : 0+piece.length ≠ 0 := by
      have := List.length_pos_of_ne_nil hpiece
      omega
    have hpieceRaw : piece.length ≤ rawRoom :=
      le_trans (Nat.cast_le.mpr (List.sublist_append_left _ _).length_le) hraw
    obtain ⟨hbegun, hid⟩ := begun_chunk hdec hformat p (c := ⟨head, piece, 0⟩) ⟨hstarts, rfl⟩ hpieceRaw
    rw [run_cons]
    exact hbegun.parts hdec hformat hparts (by rwa [List.length_append] at hraw) hends (.inr hpos)
      (fun h0 => absurd h0 hpos) fun _ => hid

/-- The packets between the first and the last one. -/
lemma Begun.packets (hdec : Decodes cfg format rawRoom whole Kept) (hformat : Confined format)
    {packets : List Packet} {parts : List (List Chunk)} (hparts : List.Forall₂ Packet.SplitInto packets parts)
    (h : Begun cfg whole Kept start header bytes p)
    (hraw : (bytes ++ packets.flatMap Packet.data).length ≤ rawRoom)
    (hinside : ∀ packet ∈ packets, packet.header.type = responseDepthBuffer) {next : Packet}
    (hchain : (packets ++ [next]).IsChain fun a b => Follows a.header.packetID b.header.packetID)
    (hfollows : ∀ packet ∈ (packets ++ [next]).head?, Follows p.lastPacketID packet.header.packetID) :
    Begun cfg whole Kept start header (bytes ++ packets.flatMap Packet.data) (run cfg format parts.flatten p) ∧
      Follows (run cfg format parts.flatten p).lastPacketID next.header.packetID := by
  induction hparts generalizing bytes p with
  | nil =>
    rw [List.flatMap_nil, List.append_nil]
    exact ⟨h, hfollows next rfl⟩
  | @cons packet chunks packets parts hsplit _ ih =>
    rw [List.flatMap_cons, ← List.append_assoc] at hraw
    have htype := hinside packet (by simp)
    have hlen : (bytes ++ packet.data).length ≤ rawRoom :=
      le_trans (Nat.cast_le.mpr (List.sublist_append_left _ _).length_le) hraw
    obtain ⟨hnext, hid⟩ := h.parts hdec hformat hsplit (by rwa [List.length_append] at hlen)
      (by rw [htype]; decide) (.inl (by rw [htype]; decide)) (fun _ => hfollows packet rfl)
      (fun h0 => absurd rfl h0)
    rw [List.cons_append, List.isChain_cons] at hchain
    rw [List.flatMap_cons, ← List.append_assoc, List.flatten_cons, run_append]
    refine ih hnext hraw (fun q hq => hinside q (by simp [hq])) hchain.2 fun q hq => ?_
    rw [hid]
    exact hchain.1 q hq

lemma forall₂_append_left {α β : Type*} {R : α → β → Prop} {xs ys : List α} {zs : List β}
    (h : List.Forall₂ R (xs ++ ys) zs) :
    ∃ us vs, List.Forall₂ R xs us ∧ List.Forall₂ R ys vs ∧ zs = us ++ vs := by
  induction xs generalizing zs with
  | nil => exact ⟨[], zs, .nil, h, rfl⟩
  | cons x xs ih =>
    cases h with
    | @cons _ z _ zs hz h =>
      obtain ⟨us, vs, hxs, hys, rfl⟩ := ih h
      exact ⟨z :: us, vs, .cons hz hxs, hys, rfl⟩

/-- A whole frame after anything that may have been received. -/
theorem frame_closed (hdec : Decodes cfg format rawRoom whole Kept) (hformat : Confined format)
    (hroom : calculateExpectedSize cfg ≤ cfg.frameRoom*sizeofDepthPixel) (p : DepthProcessor) (f : SentFrame)
    {parts : List (List Chunk)} (hparts : List.Forall₂ Packet.SplitInto f.packets parts)
    (hraw : f.bytes.length ≤ rawRoom) :
    Closed cfg p (framePixels cfg whole p.paddingPixelsOnEnd f.first.header f.bytes)
      (run cfg format parts.flatten p) := by
  obtain ⟨first, between, last, hstarts, hinside, hends, hchain⟩ := f
  cases hparts with
  | @cons _ firstParts _ parts hfirst hparts =>
  obtain ⟨betweenParts, lastParts, hbetween, hlast, rfl⟩ := forall₂_append_left hparts
  cases hlast with
  | @cons _ lastParts _ _ hlast hnil =>
  cases hnil with
  | nil =>
  have hbytes : SentFrame.bytes ⟨first, between, last, hstarts, hinside, hends, hchain⟩ =
      (first.data ++ between.flatMap Packet.data) ++ last.data := by
    simp [SentFrame.bytes, SentFrame.packets]
  rw [hbytes] at hraw ⊢
  have hbetweenRaw : (first.data ++ between.flatMap Packet.data).length ≤ rawRoom :=
    le_trans (Nat.cast_le.mpr (List.sublist_append_left _ _).length_le) hraw
  have hfirstRaw : first.data.length ≤ rawRoom :=
    le_trans (Nat.cast_le.mpr (List.sublist_append_left _ _).length_le) hbetweenRaw
  rw [List.cons_append, List.isChain_cons] at hchain
  obtain ⟨hbegun, hid⟩ := begun_parts hdec hformat p hfirst hstarts hfirstRaw
  obtain ⟨hbegun, hnext⟩ := hbegun.packets hdec hformat hbetween hbetweenRaw hinside hchain.2
    fun packet hpacket => by rw [hid]; exact hchain.1 packet hpacket
  rw [List.length_append] at hraw
  have hclosed := hbegun.lastParts hdec hformat hroom hlast hraw hends
    (by rw [Nat.zero_add]; exact last.size) (fun _ => hnext) (fun h0 => absurd rfl h0)
  rw [List.flatten_cons, List.flatten_append, run_append, run_append, List.flatten_singleton]
  exact hclosed

end Frame

/-- The frames handed over of these starts and contents, when `stale` pixels are still due behind. -/
def handedOver (cfg : Config) : ℕ → List (ResponseHeader × List OniDepthPixel) → List (List OniDepthPixel)
  | _, [] => []
  | stale, (header, content) :: rest =>
    (delivered cfg (front cfg header ++ content ++
      List.replicate (paddingBehind cfg header stale) cfg.noDepthValue)).toList ++ handedOver cfg 0 rest

def numbered (last : UInt32) : List (List OniDepthPixel) → List Frame
  | [] => []
  | pixels :: rest => ⟨last+1, pixels⟩ :: numbered (last+1) rest

lemma numbered_append (last : UInt32) (xs : Option (List OniDepthPixel)) (ys : List (List OniDepthPixel)) :
    numbered last (xs.toList ++ ys) =
      xs.toList.map (Frame.mk (last+1)) ++ numbered (last+.ofNat xs.toList.length) ys := by
  cases xs with
  | none => simp
  | some pixels => rfl

/-- Frame after frame is handed over with all its pixels or dropped, however its packets are cut. -/
theorem frames_delivered {cfg : Config} {format : Format} {whole : List UInt8 → List OniDepthPixel}
    {Kept : List UInt8 → Prop} {rawRoom : ℕ∞} (hdec : Decodes cfg format rawRoom whole Kept)
    (hformat : Confined format) (hroom : calculateExpectedSize cfg ≤ cfg.frameRoom*sizeofDepthPixel)
    {frames : List SentFrame} (hraw : ∀ f ∈ frames, f.bytes.length ≤ rawRoom) {parts : List (List Chunk)}
    (hparts : List.Forall₂ Packet.SplitInto (frames.flatMap SentFrame.packets) parts) (p : DepthProcessor) :
    (run cfg format parts.flatten p).frames =
      p.frames ++ numbered p.stableFrameID
        (handedOver cfg p.paddingPixelsOnEnd (frames.map fun f => (f.first.header, whole f.bytes))) := by
  induction frames generalizing parts p with
  | nil =>
    cases hparts with
    | nil => exact (List.append_nil _).symm
  | cons f frames ih =>
    rw [List.flatMap_cons] at hparts
    obtain ⟨frameParts, parts, hframe, hrest, rfl⟩ := forall₂_append_left hparts
    have hclosed := frame_closed hdec hformat hroom p f hframe (hraw f (by simp))
    rw [List.flatten_append, run_append, ih (fun g hg => hraw g (by simp [hg])) hrest, List.map_cons, handedOver,
      ← framePixels, numbered_append, ← List.append_assoc, hclosed.frames, hclosed.stableFrameID, hclosed.padding]

end WaterHarp.DepthDelivery
