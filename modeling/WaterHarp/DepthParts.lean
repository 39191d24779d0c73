import WaterHarp.DepthFormats

/-! A frame decoded in parts: as long as the pixels fit, a format writes what the
bytes received so far decide and keeps the rest for the next part. -/
namespace WaterHarp.DepthParts
open TokenReader DepthDecoder DepthTokens DepthUncompress DepthFrames DepthFormats

/-- Behind the pixels `front` the frame holds what is decided of `bytes`. -/
structure Holding (whole : List UInt8 → List OniDepthPixel) (Kept : List UInt8 → Prop)
    (front : List OniDepthPixel) (bytes : List UInt8) (p : DepthProcessor) : Prop where
  intact : p.frameCorrupted = false
  written : ∃ out, p.writeBuffer = front ++ out ∧ Resumes whole bytes out p.rawData
  room : p.rawData.length ≤ bytes.length
  kept : Kept p.rawData

lemma Holding.buffer_le {cfg : Config} {whole : List UInt8 → List OniDepthPixel} {Kept : List UInt8 → Prop}
    {front : List OniDepthPixel} {bytes : List UInt8} {p : DepthProcessor}
    (h : Holding whole Kept front bytes p) (hfits : front.length+(whole bytes).length ≤ cfg.frameRoom) :
    p.writeBuffer.length ≤ cfg.frameRoom := by
  obtain ⟨out, hout, hresumes⟩ := h.written
  have hcount := congrArg List.length hresumes.whole_eq
  rw [List.length_append] at hcount
  rw [hout, List.length_append]
  omega

/-- The part does not fit behind the bytes which have been kept in a buffer of this size. -/
def Spills (rawRoom : ℕ∞) (c : Chunk) (p : DepthProcessor) : Prop :=
  p.rawData ≠ [] ∧ rawRoom-p.rawData.length < c.data.length

/-- Another part of the frame, whose pixels fit behind those in front. -/
structure Taken (cfg : Config) (rawRoom : ℕ∞) (whole : List UInt8 → List OniDepthPixel)
    (Kept : List UInt8 → Prop) (front : List OniDepthPixel) (bytes : List UInt8) (c : Chunk)
    (p q : DepthProcessor) : Prop where
  spared : ¬ Spills rawRoom c p
  fits : front.length+(whole bytes).length ≤ cfg.frameRoom
  buffers : q = { p with writeBuffer := q.writeBuffer, rawData := q.rawData }
  going : ¬ c.Ends → Holding whole Kept front bytes q
  ended : c.Ends → q.writeBuffer = front ++ whole bytes

/-- The frame is corrupted and nothing but its buffers has changed. -/
def Corrupted (p q : DepthProcessor) : Prop :=
  q = { p with frameCorrupted := true, writeBuffer := q.writeBuffer, rawData := q.rawData }

structure Overflowed (cfg : Config) (whole : List UInt8 → List OniDepthPixel)
    (front : List OniDepthPixel) (bytes : List UInt8) (p q : DepthProcessor) : Prop where
  full : cfg.frameRoom < front.length+(whole bytes).length
  corrupted : Corrupted p q

/-- The format decodes in parts what it would decode at once, with a buffer of the size
`rawRoom` for the bytes it keeps. The frame is corrupted exactly when its pixels have no
room or the part spills. -/
structure Decodes (cfg : Config) (format : Format) (rawRoom : ℕ∞) (whole : List UInt8 → List OniDepthPixel)
    (Kept : List UInt8 → Prop) : Prop where
  empty : whole [] = [] ∧ Kept []
  grows : ∀ xs ys, (whole xs).length ≤ (whole (xs ++ ys)).length
  part : ∀ {front bytes p} (c : Chunk), Holding whole Kept front bytes p →
    p.writeBuffer.length ≤ cfg.frameRoom →
    Taken cfg rawRoom whole Kept front (bytes ++ c.data) c p (format cfg c p) ∨
      Overflowed cfg whole front (bytes ++ c.data) p (format cfg c p) ∨
      Spills rawRoom c p ∧ Corrupted p (format cfg c p)

/-- No part of a frame spills whose bytes all have room. -/
lemma Holding.spares {whole : List UInt8 → List OniDepthPixel} {Kept : List UInt8 → Prop}
    {front : List OniDepthPixel} {bytes : List UInt8} {p : DepthProcessor} {rawRoom : ℕ∞} {c : Chunk}
    (h : Holding whole Kept front bytes p) (hraw : (bytes.length+c.data.length : ℕ) ≤ rawRoom) :
    ¬ Spills rawRoom c p := by
  rintro ⟨-, hspills⟩
  have hle : p.rawData.length+c.data.length ≤ bytes.length+c.data.length := Nat.add_le_add_right h.room _
  have hall : (p.rawData.length : ℕ∞)+c.data.length ≤ rawRoom := (Nat.cast_le.mpr hle).trans hraw
  exact absurd ((ENat.addLECancellable_natCast _).le_tsub_of_add_le_left hall) (not_le.mpr hspills)

lemma room_eq (cfg : Config) (p : DepthProcessor) :
    freeSpaceInBuffer cfg p/sizeofDepthPixel = cfg.frameRoom-p.writeBuffer.length :=
  Nat.mul_div_cancel _ (by norm_num [sizeofDepthPixel])

lemma compressed_buffer {cfg : Config} {c : Chunk} {p : DepthProcessor}
    (hraw : p.rawData = [] ∨ c.data.length ≤ cfg.rawRoom-p.rawData.length) :
    ∃ raw, compressed cfg c p =
      match uncompressDepthPS cfg.table (p.rawData ++ c.data) (cfg.frameRoom-p.writeBuffer.length)
        (decide c.Ends) with
      | .ok u => { p.write u.output with rawData := (p.rawData ++ c.data).drop u.actualRead }
      | .outputBufferOverflow output => { (p.write output).frameIsCorrupted with rawData := raw } := by
  have hbuf : ∃ raw, (if p.rawData ≠ [] then
      if cfg.rawRoom-p.rawData.length < c.data.length then (p.frameIsCorrupted, p.rawData)
      else ({ p with rawData := p.rawData ++ c.data }, p.rawData ++ c.data)
    else (p, c.data)) = ({ p with rawData := raw }, p.rawData ++ c.data) := by
    split_ifs with hkept hfull
    · have := hraw.resolve_left hkept
      omega
    · exact ⟨_, rfl⟩
    · exact ⟨p.rawData, by rw [not_not.mp hkept, List.nil_append, ← not_not.mp hkept]⟩
  obtain ⟨raw, hbuf⟩ := hbuf
  refine ⟨p.rawData ++ c.data, ?_⟩
  unfold compressed
  rw [hbuf, ← room_eq]
  rfl

/-- A part which spills is not decoded, but the bytes kept are, once more. -/
lemma compressed_spilled {cfg : Config} {c : Chunk} {p : DepthProcessor} (h : Spills cfg.rawRoom c p) :
    Corrupted p (compressed cfg c p) := by
  obtain ⟨hkept, hspills⟩ := h
  have hfull : cfg.rawRoom-p.rawData.length < c.data.length := Nat.cast_lt.mp hspills
  unfold compressed
  rw [if_pos hkept, if_pos hfull]
  dsimp only
  split <;> rfl

theorem compressed_decodes (cfg : Config) :
    Decodes cfg compressed cfg.rawRoom (depths cfg.table) fun _ => True := by
  refine ⟨⟨?_, trivial⟩, depths_grows cfg.table, fun {front bytes p} c h hlen => ?_⟩
  · rw [depths, elements_nil, shiftsFrom_none rfl, List.map_nil]
  by_cases hspills : Spills cfg.rawRoom c p
  · exact .inr (.inr ⟨hspills, compressed_spilled hspills⟩)
  obtain ⟨out, hout, hresumes⟩ := h.written
  have hroom : p.rawData = [] ∨ c.data.length ≤ cfg.rawRoom-p.rawData.length := by
    cases not_and_or.mp hspills with
    | inl hnil => exact .inl (not_not.mp hnil)
    | inr hle => exact .inr (Nat.cast_le.mp (not_lt.mp hle))
  -- what is decided of all the bytes is written, and the rest is the part and the bytes kept
  have hall := (hresumes c.data).symm
  have hcount := congrArg List.length hall
  rw [List.length_append] at hcount
  rw [hout, List.length_append] at hlen
  obtain ⟨raw, hcompressed⟩ := compressed_buffer hroom
  rw [hcompressed]
  by_cases hfits : front.length+(depths cfg.table (bytes ++ c.data)).length ≤ cfg.frameRoom
  · left
    have hpart : (depths cfg.table (p.rawData ++ c.data)).length ≤ cfg.frameRoom-p.writeBuffer.length := by
      rw [hout, List.length_append]
      omega
    by_cases hends : c.Ends
    · rw [decide_eq_true hends, uncompressDepthPS_last hpart]
      refine ⟨hspills, hfits, rfl, absurd hends, fun _ => ?_⟩
      dsimp only [DepthProcessor.write]
      rw [hout, List.append_assoc, hall]
    · obtain ⟨u, hu, hread, hrest⟩ := uncompressDepthPS_part hpart
      rw [decide_eq_false hends, hu]
      refine ⟨hspills, hfits, rfl, fun _ => ⟨h.intact, ⟨out ++ u.output, ?_, hresumes.feed hrest⟩, ?_, trivial⟩,
        fun hends' => absurd hends' hends⟩
      · dsimp only [DepthProcessor.write]
        rw [hout, List.append_assoc]
      · have := h.room
        simp only [List.length_drop, List.length_append]
        omega
  · right
    left
    have hpart : cfg.frameRoom-p.writeBuffer.length < (depths cfg.table (p.rawData ++ c.data)).length := by
      rw [hout, List.length_append]
      omega
    obtain ⟨output, hover, -⟩ := uncompressDepthPS_overflow (decide c.Ends) hpart
    rw [hover]
    exact ⟨not_le.mp hfits, rfl⟩

section Packed
variable (k : Packing) (table : ShiftToDepth) {cfg : Config} {p : DepthProcessor}

def groupShifts (group : List UInt8) : List ℕ := k.unpack fun i => (group.getD i 0).toNat

/-- The pixels of a packed frame, without those of an element which is not complete. -/
def packedDepths (bytes : List UInt8) : List OniDepthPixel :=
  (((Reader.groups k.positive).read bytes).1.flatMap (groupShifts k)).map (getOutput table)

lemma packedDepths_append (xs ys : List UInt8) :
    packedDepths k table (xs ++ ys) =
      packedDepths k table xs ++ packedDepths k table (((Reader.groups k.positive).read xs).2 ++ ys) := by
  rw [packedDepths, Reader.read_append, List.flatMap_append, List.map_append]
  rfl

lemma packedDepths_short {bytes : List UInt8} (h : bytes.length < k.inputElementSize) :
    packedDepths k table bytes = [] := by
  rw [packedDepths, Reader.groups_short k.positive h, List.flatMap_nil, List.map_nil]

lemma groupShifts_take (input : List UInt8) :
    groupShifts k (input.take k.inputElementSize) = k.unpack fun i => (input.getD i 0).toNat := by
  refine k.reads _ _ fun i hi => ?_
  simp only [List.getD_eq_getElem?_getD, List.getElem?_take, if_pos hi]

lemma unpackElements_eq (input : List UInt8) :
    unpackElements k (input.length/k.inputElementSize) input =
        ((Reader.groups k.positive).read input).1.flatMap (groupShifts k) ∧
      input.drop (input.length/k.inputElementSize*k.inputElementSize) =
        ((Reader.groups k.positive).read input).2 := by
  induction hn : input.length using Nat.strong_induction_on generalizing input with
  | _ n ih =>
    have hpos := k.positive
    by_cases hlong : k.inputElementSize ≤ input.length
    · obtain ⟨hshifts, hrest⟩ := ih (input.drop k.inputElementSize).length
        (by rw [List.length_drop]; omega) _ rfl
      have hdiv : n/k.inputElementSize = (input.drop k.inputElementSize).length/k.inputElementSize+1 := by
        rw [← hn, List.length_drop, Nat.div_eq_sub_div hpos hlong]
      rw [hdiv, unpackElements, hshifts, Reader.groups_long k.positive hlong, List.flatMap_cons,
        groupShifts_take]
      refine ⟨rfl, ?_⟩
      rw [Nat.add_one_mul, Nat.add_comm, ← List.drop_drop, hrest]
    · have hdiv : n/k.inputElementSize = 0 := Nat.div_eq_of_lt (by omega)
      rw [hdiv, Reader.groups_short k.positive (not_le.mp hlong), Nat.zero_mul, List.drop_zero]
      exact ⟨rfl, rfl⟩

lemma length_unpackElements (n : ℕ) (input : List UInt8) :
    (unpackElements k n input).length*sizeofDepthPixel = n*k.outputElementSize := by
  induction n generalizing input with
  | zero => simp [unpackElements]
  | succ n ih =>
    rw [unpackElements, List.length_append, Nat.add_mul, k.writes, ih]
    ring

lemma unpackTo16_eq (input : List UInt8) (h : p.writeBuffer.length ≤ cfg.frameRoom) :
    unpackTo16 k cfg input p =
      if cfg.frameRoom < p.writeBuffer.length+(packedDepths k cfg.table input).length then
        (none, p.frameIsCorrupted)
      else (some (input.length/k.inputElementSize*k.inputElementSize),
        p.write (packedDepths k cfg.table input)) := by
  have hlen := length_unpackElements k (input.length/k.inputElementSize) input
  rw [(unpackElements_eq k input).1] at hlen
  have hroom : freeSpaceInBuffer cfg p < input.length/k.inputElementSize*k.outputElementSize ↔
      cfg.frameRoom < p.writeBuffer.length+(packedDepths k cfg.table input).length := by
    rw [← hlen, freeSpaceInBuffer, packedDepths, List.length_map]
    simp only [sizeofDepthPixel]
    omega
  simp only [unpackTo16, hroom, (unpackElements_eq k input).1]
  rfl

lemma groups_whole {group : List UInt8} (h : group.length = k.inputElementSize) (rest : List UInt8) :
    (Reader.groups k.positive).read (group ++ rest) =
      (group :: ((Reader.groups k.positive).read rest).1, ((Reader.groups k.positive).read rest).2) := by
  have hlong : k.inputElementSize ≤ (group ++ rest).length := by rw [List.length_append]; omega
  have htake : (group ++ rest).take k.inputElementSize = group := List.take_left' h
  have hdrop : (group ++ rest).drop k.inputElementSize = rest := List.drop_left' h
  rw [Reader.groups_long k.positive hlong, htake, hdrop]

lemma groups_nil : (Reader.groups k.positive).read ([] : List UInt8) = ([], []) :=
  Reader.groups_short k.positive k.positive

lemma packedDepths_nil : packedDepths k table [] = [] := by
  rw [packedDepths, groups_nil, List.flatMap_nil, List.map_nil]

lemma packedDepths_whole {group : List UInt8} (h : group.length = k.inputElementSize) (rest : List UInt8) :
    packedDepths k table (group ++ rest) = packedDepths k table group ++ packedDepths k table rest := by
  have hleft := groups_whole k h []
  rw [List.append_nil, groups_nil] at hleft
  rw [packedDepths_append, hleft, List.nil_append]

end Packed

section Chunks
variable (k : Packing) {cfg : Config} {data : List UInt8} {p : DepthProcessor}

/-- The bytes kept are completed to an element, or all the data join them. -/
structure Filled (cfg : Config) (data : List UInt8) (p q : DepthProcessor) (rest : List UInt8)
    (out : List OniDepthPixel) : Prop where
  state : q = { p.write out with rawData := q.rawData }
  room : q.writeBuffer.length ≤ cfg.frameRoom
  pixels : packedDepths k cfg.table (p.rawData ++ data) =
    out ++ packedDepths k cfg.table (q.rawData ++ rest)
  left : ((Reader.groups k.positive).read (p.rawData ++ data)).2 =
    ((Reader.groups k.positive).read (q.rawData ++ rest)).2
  kept : q.rawData.length < k.inputElementSize
  one : q.rawData = [] ∨ rest = []

/-- The pixels have no room, whichever buffers the frame is left with. -/
def Full (cfg : Config) (data : List UInt8) (p q : DepthProcessor) : Prop :=
  cfg.frameRoom < p.writeBuffer.length+(packedDepths k cfg.table (p.rawData ++ data)).length ∧
    q = { p with frameCorrupted := true, writeBuffer := q.writeBuffer, rawData := q.rawData }

lemma fillElement_spec (hraw : p.rawData.length < k.inputElementSize)
    (hlen : p.writeBuffer.length ≤ cfg.frameRoom) :
    Full k cfg data p (fillElement k cfg data p).1 ∧ (fillElement k cfg data p).1.rawData = [] ∧
        (fillElement k cfg data p).1.writeBuffer = p.writeBuffer ∨
      ∃ out, Filled k cfg data p (fillElement k cfg data p).1 (fillElement k cfg data p).2 out := by
  unfold fillElement
  by_cases hempty : p.rawData.length ≠ 0
  · rw [if_pos hempty]
    dsimp only
    set readBytes := min data.length (k.inputElementSize-p.rawData.length) with hread
    set filled := p.rawData ++ data.take readBytes with hfilled
    have hsplit : p.rawData ++ data = filled ++ data.drop readBytes := by
      rw [hfilled, List.append_assoc, List.take_append_drop]
    have hcount : filled.length = p.rawData.length+readBytes := by
      rw [hfilled, List.length_append, List.length_take, Nat.min_eq_left (Nat.min_le_left _ _)]
    split_ifs with hgroup
    · have hwhole := packedDepths_whole k cfg.table hgroup (data.drop readBytes)
      rw [unpackTo16_eq k filled (by exact hlen)]
      split_ifs with hfull
      · refine .inl ⟨⟨?_, rfl⟩, rfl, rfl⟩
        dsimp only at hfull
        rw [hsplit, hwhole, List.length_append]
        omega
      · refine .inr ⟨packedDepths k cfg.table filled, rfl, ?_, ?_, ?_, k.positive, .inl rfl⟩
        · dsimp only at hfull
          simp only [DepthProcessor.write, List.length_append]
          omega
        · rw [hsplit, hwhole, List.nil_append]
        · rw [hsplit, groups_whole k hgroup, List.nil_append]
    · -- the data do not complete the element
      have hall : data.drop readBytes = [] := by
        rw [List.drop_eq_nil_iff]
        omega
      refine .inr ⟨[], ?_, hlen, ?_, ?_, ?_, .inr hall⟩
      · simp [DepthProcessor.write]
      · rw [List.nil_append, hsplit]
      · rw [hsplit]
      · dsimp only
        omega
  · have hnil : p.rawData = [] := List.eq_nil_of_length_eq_zero (not_not.mp hempty)
    rw [if_neg hempty]
    refine .inr ⟨[], ?_, hlen, rfl, rfl, hraw, .inl hnil⟩
    simp [DepthProcessor.write]

lemma unpackRest_spec (hraw : p.rawData.length < k.inputElementSize)
    (hlen : p.writeBuffer.length ≤ cfg.frameRoom) (hone : p.rawData = [] ∨ data = []) :
    Full k cfg data p (unpackRest k cfg data p) ∨
      Filled k cfg data p (unpackRest k cfg data p) []
        (packedDepths k cfg.table (p.rawData ++ data)) := by
  have hpixels : packedDepths k cfg.table data = packedDepths k cfg.table (p.rawData ++ data) := by
    cases hone with
    | inl hnil => rw [hnil, List.nil_append]
    | inr hnil =>
      rw [hnil, List.append_nil, packedDepths_short k cfg.table hraw, packedDepths_nil]
  have hleft : p.rawData ++ ((Reader.groups k.positive).read data).2 =
      ((Reader.groups k.positive).read (p.rawData ++ data)).2 := by
    cases hone with
    | inl hnil => rw [hnil, List.nil_append, List.nil_append]
    | inr hnil => rw [hnil, groups_nil, List.append_nil, Reader.groups_short k.positive hraw]
  have hshort := Reader.groups_left k.positive (p.rawData ++ data)
  unfold unpackRest
  rw [unpackTo16_eq k data hlen, hpixels]
  split_ifs with hfull
  · exact .inl ⟨hfull, rfl⟩
  · refine .inr ⟨?_, ?_, ?_, ?_, ?_, .inr rfl⟩
    · rfl
    · simp only [DepthProcessor.write, List.length_append]
      omega
    · dsimp only [DepthProcessor.write]
      rw [(unpackElements_eq k data).2, hleft, List.append_nil, packedDepths_short k cfg.table hshort,
        List.append_nil]
    · dsimp only [DepthProcessor.write]
      rw [(unpackElements_eq k data).2, hleft, List.append_nil, Reader.groups_short k.positive hshort]
    · dsimp only [DepthProcessor.write]
      rw [(unpackElements_eq k data).2, hleft]
      exact hshort

/-- All the elements which the bytes kept and the chunk contain are unpacked. -/
lemma packed_spec {c : Chunk} (hraw : p.rawData.length < k.inputElementSize)
    (hlen : p.writeBuffer.length ≤ cfg.frameRoom) :
    Full k cfg c.data p (packed k cfg c p) ∨
      Filled k cfg c.data p (packed k cfg c p) [] (packedDepths k cfg.table (p.rawData ++ c.data)) := by
  set q := (fillElement k cfg c.data p).1 with hq
  set rest := (fillElement k cfg c.data p).2 with hrest
  have hpacked : packed k cfg c p = unpackRest k cfg rest q := rfl
  obtain ⟨⟨hroom, hcorrupted⟩, -, -⟩ | ⟨out, hfilled⟩ := fillElement_spec k hraw hlen
  · left
    refine ⟨hroom, ?_⟩
    obtain ⟨corrupted, pixels, raw, hconf⟩ := unpackRest_confined k cfg rest q
    rw [hpacked, hconf, hq, hcorrupted]
    rfl
  · rw [← hq, ← hrest] at hfilled
    have hbuffer : q.writeBuffer = p.writeBuffer ++ out := by rw [hfilled.state]; rfl
    have hpixels := hfilled.pixels
    obtain ⟨hroom, hcorrupted⟩ | hrest := unpackRest_spec k hfilled.kept hfilled.room hfilled.one
    · left
      refine ⟨?_, ?_⟩
      · rw [hbuffer, List.length_append] at hroom
        rw [hpixels, List.length_append]
        omega
      · rw [hpacked, hcorrupted, hfilled.state]
        rfl
    · right
      rw [hpacked]
      refine ⟨?_, hrest.room, ?_, ?_, hrest.kept, hrest.one⟩
      · rw [hrest.state, hfilled.state, hpixels]
        simp only [DepthProcessor.write, List.append_assoc]
      · rw [List.append_nil, packedDepths_short k cfg.table hrest.kept, List.append_nil]
      · rw [hfilled.left, hrest.left]

end Chunks

/-- A packed format keeps less than an element, so that nothing spills. -/
theorem packed_decodes (k : Packing) (cfg : Config) :
    Decodes cfg (packed k) ⊤ (packedDepths k cfg.table) fun raw => raw.length < k.inputElementSize := by
  refine ⟨⟨packedDepths_nil k cfg.table, k.positive⟩, fun xs ys => ?_, fun {front bytes p} c h hlen => ?_⟩
  · rw [packedDepths_append, List.length_append]
    exact Nat.le_add_right _ _
  obtain ⟨out, hout, hresumes⟩ := h.written
  have hall := (hresumes c.data).symm
  have hcount := congrArg List.length hall
  rw [List.length_append] at hcount
  have hbuffer : p.writeBuffer.length = front.length+out.length := by rw [hout, List.length_append]
  obtain ⟨hfull, hq⟩ | hfilled := packed_spec k (c := c) h.kept hlen
  · exact .inr (.inl ⟨by omega, hq⟩)
  have hwritten : (packed k cfg c p).writeBuffer = front ++ packedDepths k cfg.table (bytes ++ c.data) := by
    rw [hfilled.state, DepthProcessor.write, hout, List.append_assoc, hall]
  have hroom := hfilled.room
  rw [hwritten, List.length_append] at hroom
  have hleft : ((Reader.groups k.positive).read (p.rawData ++ c.data)).2 = (packed k cfg c p).rawData := by
    rw [hfilled.left, List.append_nil, Reader.groups_short k.positive hfilled.kept]
  refine .inl ⟨fun hspills => not_top_lt hspills.2, hroom, ?_,
    fun _ => ⟨?_, ⟨_, hwritten, fun ys => ?_⟩, ?_, hfilled.kept⟩, fun _ => hwritten⟩
  · rw [hfilled.state]
    rfl
  · rw [hfilled.state]
    exact h.intact
  · rw [List.append_assoc, hresumes, ← List.append_assoc p.rawData, packedDepths_append, hleft,
      ← List.append_assoc, hall]
  · have hkept := h.room
    rw [← hleft, ← (unpackElements_eq k _).2, List.length_drop, List.length_append, List.length_append]
    omega

end WaterHarp.DepthParts
