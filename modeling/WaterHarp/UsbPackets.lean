import WaterHarp.UsbTransfers

/-! Packets sent over an endpoint come out as chunks, in order and complete,
however the transfers cut them, unless a magic is cut in two. -/
namespace WaterHarp.UsbPackets
open DepthFrames DepthDelivery UsbTransfers

lemma shortOf_shortBytes (v : UInt16) : shortOf v.toUInt8 (.ofNat (v.toNat/256)) = v := by
  have hv := v.toNat_lt
  apply UInt16.toNat_inj.mp
  simp [shortOf]
  omega

lemma shortBytes_shortOf (low high : UInt8) : shortBytes (shortOf low high) = [low, high] := by
  have hlow := low.toNat_lt
  have hhigh := high.toNat_lt
  have hv : (shortOf low high).toNat = low.toNat+256*high.toNat := by
    simp [shortOf]
    omega
  simp only [shortBytes, hv, List.cons.injEq, and_true]
  constructor
  · apply UInt8.toNat_inj.mp
    simp
  · apply UInt8.toNat_inj.mp
    simp
    omega

lemma longOf_longBytes (v : UInt32) : longOf v.toUInt8 (.ofNat (v.toNat/256)) (.ofNat (v.toNat/65536))
    (.ofNat (v.toNat/16777216)) = v := by
  have hv := v.toNat_lt
  apply UInt32.toNat_inj.mp
  simp [longOf]
  omega

lemma longBytes_longOf (a b c d : UInt8) : longBytes (longOf a b c d) = [a, b, c, d] := by
  have ha := a.toNat_lt
  have hb := b.toNat_lt
  have hc := c.toNat_lt
  have hd := d.toNat_lt
  have hv : (longOf a b c d).toNat = a.toNat+256*b.toNat+65536*c.toNat+16777216*d.toNat := by
    simp [longOf]
    omega
  simp only [longBytes, hv, List.cons.injEq, and_true]
  refine ⟨?_, ?_, ?_, ?_⟩ <;> apply UInt8.toNat_inj.mp <;> simp <;> omega

lemma length_headerBytes (h : ResponseHeader) : (headerBytes h).length = sizeofHeader := rfl

lemma headerOf_headerBytes (h : ResponseHeader) : headerOf (headerBytes h) = h := by
  simp [headerOf, headerBytes, shortBytes, longBytes, shortOf_shortBytes, longOf_longBytes]

lemma headerBytes_headerOf {bytes : List UInt8} (h : bytes.length = sizeofHeader) :
    headerBytes (headerOf bytes) = bytes := by
  match bytes, h with
  | [b0, b1, b2, b3, b4, b5, b6, b7, b8, b9, b10, b11], _ =>
    simp [headerOf, headerBytes, shortBytes_shortOf, longBytes_longOf]

lemma toNat_endianSwap (v : UInt16) : (endianSwap v).toNat = 256*(v.toNat%256)+v.toNat/256 := by
  have hv := v.toNat_lt
  have hleft : v.toNat <<< 8 % 65536 = (v.toNat%256) <<< 8 := by
    rw [Nat.shiftLeft_eq, Nat.shiftLeft_eq]
    omega
  have hright : v.toNat >>> 8 = v.toNat/256 := Nat.shiftRight_eq_div_pow _ _
  have hor := Nat.shiftLeft_add_eq_or_of_lt (show v.toNat/256 < 2^8 by omega) (v.toNat%256)
  rw [endianSwap, UInt16.toNat_or, UInt16.toNat_shiftLeft, UInt16.toNat_shiftRight]
  change v.toNat >>> 8 ||| v.toNat <<< 8 % 65536 = _
  rw [hleft, hright, Nat.or_comm, ← hor, Nat.shiftLeft_eq]
  ring

lemma endianSwap_endianSwap (v : UInt16) : endianSwap (endianSwap v) = v := by
  have hv := v.toNat_lt
  apply UInt16.toNat_inj.mp
  rw [toNat_endianSwap, toNat_endianSwap]
  omega

/-! What is sent. -/

/-- A header as it is sent: the size counts the header too, its high byte first. -/
def sentHeader (h : ResponseHeader) : List UInt8 := headerBytes { h with bufSize := endianSwap (h.bufSize+12) }

lemma fixHeader_sentHeader (h : ResponseHeader) : fixHeader (headerOf (sentHeader h)) = h := by
  simp only [sentHeader, headerOf_headerBytes, fixHeader, endianSwap_endianSwap]
  rw [UInt16.add_sub_cancel]

def packetBytes (packet : Packet) : List UInt8 := sentHeader packet.header ++ packet.data

/-- Bytes which cannot begin a magic. -/
structure Gap (magic : UInt16) where
  bytes : List UInt8
  quiet : ∀ b ∈ bytes, b ≠ (magicBytes magic).1

structure Sent (magic : UInt16) where
  gap : Gap magic
  packet : Packet
  marked : packet.header.magic = magic

section Wire
variable {magic : UInt16}

def wire (tail : Gap magic) : List (Sent magic) → List UInt8
  | [] => tail.bytes
  | sent :: more => sent.gap.bytes ++ (packetBytes sent.packet ++ wire tail more)

/-- What is to come begins with the second byte of a magic. -/
def Split (tail : Gap magic) : List (Sent magic) → List UInt8 → Prop
  | [], _ => False
  | sent :: more, rest => rest = (packetBytes sent.packet ++ wire tail more).tail ∨ Split tail more rest

instance splitDecidable (tail : Gap magic) (sents : List (Sent magic)) (rest : List UInt8) :
    Decidable (Split tail sents rest) :=
  match sents with
  | [] => inferInstanceAs (Decidable False)
  | _ :: more =>
    have := splitDecidable tail more rest
    inferInstanceAs (Decidable (_ ∨ _))

/-- An empty packet at the end is seen with the byte behind it. -/
def Terminated (tail : Gap magic) : List (Sent magic) → Prop
  | [] => True
  | [sent] => sent.packet.data = [] → tail.bytes ≠ []
  | _ :: more => Terminated tail more

/-- The chunks are those of the packets, in order. -/
def ChunksOf (sents : List (Sent magic)) (chunks : List Chunk) : Prop :=
  ∃ parts, List.Forall₂ Packet.SplitInto (sents.map Sent.packet) parts ∧ chunks = parts.flatten

/-- The chunks are the other parts of a packet and those of the packets behind it. -/
def RestOf (header : ResponseHeader) (offset : ℕ) (left : List UInt8) (more : List (Sent magic))
    (chunks : List Chunk) : Prop :=
  ∃ first rest, Parts header offset left first ∧ ChunksOf more rest ∧ chunks = first ++ rest

lemma packetBytes_eq (sent : Sent magic) : ∃ bytes, packetBytes sent.packet =
    (magicBytes magic).1 :: (magicBytes magic).2 :: bytes := by
  obtain ⟨gap, packet, rfl⟩ := sent
  exact ⟨_, rfl⟩

lemma Terminated.more {tail : Gap magic} {sent : Sent magic} {more : List (Sent magic)}
    (h : Terminated tail (sent :: more)) : Terminated tail more := by
  cases more with
  | nil => trivial
  | cons next more => exact h

/-- Where an endpoint stands, with the bytes to come and the chunks which they make. -/
inductive At (ignoreBytes : UInt32) :
    Gap magic → UsbDeviceState → List UInt8 → List (Sent magic) → (List Chunk → Prop) → Prop
  | waiting {tail : Gap magic} {header : ResponseHeader} {missing : UInt32} {garbage : List UInt8}
      (sents : List (Sent magic)) (h : garbage.length = ignoreBytes.toNat) :
      At ignoreBytes tail ⟨.waitingForConfiguration, header, missing⟩ (garbage ++ wire tail sents) sents
        (ChunksOf sents)
  | garbage {tail : Gap magic} {header : ResponseHeader} {missing : UInt32} {garbage : List UInt8}
      (sents : List (Sent magic)) (h : garbage.length = missing.toNat) :
      At ignoreBytes tail ⟨.ignoringGarbage, header, missing⟩ (garbage ++ wire tail sents) sents (ChunksOf sents)
  | gap (tail : Gap magic) (header : ResponseHeader) (sents : List (Sent magic)) :
      At ignoreBytes tail ⟨.lookingForMagic, header, 2⟩ (wire tail sents) sents (ChunksOf sents)
  | header {tail : Gap magic} {header : ResponseHeader} {missing : UInt32} {got left : List UInt8} (sent : Sent magic)
      (more : List (Sent magic)) (hsent : sentHeader sent.packet.header = got ++ left) (hleft : left ≠ [])
      (h : left.length = missing.toNat) (hgot : (headerBytes header).take got.length = got) :
      At ignoreBytes tail ⟨.packetHeader, header, missing⟩ (left ++ (sent.packet.data ++ wire tail more))
        (sent :: more) (ChunksOf (sent :: more))
  | data {tail : Gap magic} {missing : UInt32} {got left : List UInt8} (sent : Sent magic) (more : List (Sent magic))
      (hsent : sent.packet.data = got ++ left) (hleft : left = [] → got = []) (h : left.length = missing.toNat) :
      At ignoreBytes tail ⟨.packetData, sent.packet.header, missing⟩ (left ++ wire tail more) (sent :: more)
        (RestOf sent.packet.header got.length left more)

/-- A step from one place to another, with the chunks passed on. -/
structure Leads (tail : Gap magic) (sents : List (Sent magic)) (output : List Chunk → Prop) (chunks : List Chunk)
    (tail' : Gap magic) (sents' : List (Sent magic)) (output' : List Chunk → Prop) : Prop where
  chunks : ∀ later, output' later → output (chunks ++ later)
  split : ∀ rest, Split tail' sents' rest → Split tail sents rest
  terminated : Terminated tail sents → Terminated tail' sents'

/-- Reading what is missing from a buffer: it is read to its end, or more is missing than it has. -/
lemma read_spec {left more buffer rest : List UInt8} {missing : UInt32} (h : left.length = missing.toNat)
    (hw : left ++ more = buffer ++ rest) :
    missing-.ofNat (min buffer.length missing.toNat) = 0 ∧ buffer.take (min buffer.length missing.toNat) = left ∧
        more = buffer.drop (min buffer.length missing.toNat) ++ rest ∨
      ∃ left', missing-.ofNat (min buffer.length missing.toNat) ≠ 0 ∧ left = buffer ++ left' ∧ left' ≠ [] ∧
        left'.length = (missing-.ofNat (min buffer.length missing.toNat)).toNat ∧ rest = left' ++ more ∧
        min buffer.length missing.toNat = buffer.length := by
  have hread : ∀ {middle}, buffer = left ++ middle → more = middle ++ rest →
      missing-.ofNat (min buffer.length missing.toNat) = 0 ∧ buffer.take (min buffer.length missing.toNat) = left ∧
        more = buffer.drop (min buffer.length missing.toNat) ++ rest := by
    intro middle hbuffer hmore
    have hmin : min buffer.length missing.toNat = left.length := by
      rw [hbuffer, List.length_append]
      omega
    rw [hmin, h, UInt32.ofNat_toNat, sub_self, ← h, hbuffer, List.take_left, List.drop_left]
    exact ⟨rfl, rfl, hmore⟩
  cases List.append_eq_append_iff.mp hw with
  | inl hall =>
    obtain ⟨middle, hbuffer, hmore⟩ := hall
    exact .inl (hread hbuffer hmore)
  | inr hshort =>
    obtain ⟨left', hleft, hrest⟩ := hshort
    by_cases hnil : left' = []
    · rw [hnil, List.append_nil] at hleft
      rw [hnil, List.nil_append] at hrest
      exact .inl (hread (by rw [hleft, List.append_nil]) (by rw [hrest, List.nil_append]))
    · have hpos := List.length_pos_of_ne_nil hnil
      have hmissing := missing.toNat_lt
      have hlen : buffer.length+left'.length = missing.toNat := by rw [← List.length_append, ← hleft, h]
      have hmin : min buffer.length missing.toNat = buffer.length := by omega
      have hle : UInt32.ofNat buffer.length ≤ missing := by
        rw [UInt32.le_iff_toNat_le, UInt32.toNat_ofNat']
        omega
      have hsub : (missing-.ofNat buffer.length).toNat = left'.length := by
        rw [UInt32.toNat_sub_of_le _ _ hle, UInt32.toNat_ofNat']
        omega
      rw [hmin]
      refine .inr ⟨left', fun hzero => ?_, hleft, hnil, hsub.symm, hrest, rfl⟩
      rw [hzero] at hsub
      exact hpos.ne hsub

/-- An iteration leads on, with `rest` behind the buffer. -/
def Progress (ignoreBytes : UInt32) (tail : Gap magic) (sents : List (Sent magic)) (output : List Chunk → Prop)
    (i : Iteration) (rest : List UInt8) : Prop :=
  ∃ tail' sents' output', At ignoreBytes tail' i.device (i.buffer ++ rest) sents' output' ∧
    Leads tail sents output i.chunks tail' sents' output'

lemma Leads.refl (tail : Gap magic) (sents : List (Sent magic)) (output : List Chunk → Prop) :
    Leads tail sents output [] tail sents output :=
  ⟨fun _ h => h, fun _ h => h, fun h => h⟩

lemma Leads.trans {tail tail' tail'' : Gap magic} {sents sents' sents'' : List (Sent magic)}
    {output output' output'' : List Chunk → Prop} {chunks chunks' : List Chunk}
    (h : Leads tail sents output chunks tail' sents' output')
    (h' : Leads tail' sents' output' chunks' tail'' sents'' output'') :
    Leads tail sents output (chunks ++ chunks') tail'' sents'' output'' := by
  refine ⟨fun later hlater => ?_, fun rest hrest => h.split rest (h'.split rest hrest),
    fun ht => h'.terminated (h.terminated ht)⟩
  rw [List.append_assoc]
  exact h.chunks _ (h'.chunks later hlater)

lemma findMagic_cons {low : UInt8} (h : low ≠ (magicBytes magic).1) (buffer : List UInt8) :
    findMagic magic (low :: buffer) = findMagic magic buffer := by
  cases buffer with
  | nil => rfl
  | cons high buffer =>
    have hne : (low, high) ≠ magicBytes magic := fun he => h (congrArg Prod.fst he)
    rw [findMagic, if_neg hne]

lemma findMagic_quiet {bytes : List UInt8} (h : ∀ b ∈ bytes, b ≠ (magicBytes magic).1) (buffer : List UInt8) :
    findMagic magic (bytes ++ buffer) = findMagic magic buffer := by
  induction bytes with
  | nil => rfl
  | cons b bytes ih =>
    rw [List.cons_append, findMagic_cons (h b (by simp)), ih fun c hc => h c (by simp [hc])]

lemma lookForMagic_quiet {buffer : List UInt8} (h : ∀ b ∈ buffer, b ≠ (magicBytes magic).1)
    (header : ResponseHeader) : lookForMagic magic buffer ⟨.lookingForMagic, header, 2⟩ =
      ⟨⟨.lookingForMagic, header, 2⟩, [], []⟩ := by
  have hfind := findMagic_quiet h []
  rw [List.append_nil] at hfind
  have hlast : buffer.getLast? ≠ some (magicBytes magic).1 :=
    fun hlast => h _ (List.mem_of_getLast? hlast) rfl
  simp only [lookForMagic]
  rw [if_neg (by simp), hfind, if_neg (by simp [findMagic]), if_neg hlast]

lemma lookForMagic_found {bytes buffer : List UInt8} (h : ∀ b ∈ bytes, b ≠ (magicBytes magic).1)
    (header : ResponseHeader) :
    lookForMagic magic (bytes ++ (magicBytes magic).1 :: (magicBytes magic).2 :: buffer)
        ⟨.lookingForMagic, header, 2⟩ =
      ⟨⟨.packetHeader, { header with magic := magic }, 12⟩,
        (magicBytes magic).1 :: (magicBytes magic).2 :: buffer, []⟩ := by
  simp only [lookForMagic, findMagic_quiet h]
  rw [if_neg (by simp)]
  simp [findMagic]

/-- In a gap the next magic is found, when it is whole. -/
lemma gap_progress {ignoreBytes : UInt32} {tail : Gap magic} (header : ResponseHeader) {sents : List (Sent magic)}
    {buffer rest : List UInt8} (hw : wire tail sents = buffer ++ rest) (hcut : ¬ Split tail sents rest) :
    Progress ignoreBytes tail sents (ChunksOf sents)
      (lookForMagic magic buffer ⟨.lookingForMagic, header, 2⟩) rest := by
  cases sents with
  | nil =>
    have hquiet : ∀ b ∈ buffer ++ rest, b ≠ (magicBytes magic).1 := by
      rw [← hw]
      exact tail.quiet
    rw [lookForMagic_quiet fun b hb => hquiet b (List.mem_append_left _ hb)]
    let tail' : Gap magic := ⟨rest, fun b hb => hquiet b (List.mem_append_right _ hb)⟩
    exact ⟨tail', [], ChunksOf [], .gap tail' header [], ⟨fun _ h => h, fun _ h => h, fun h => h⟩⟩
  | cons sent more =>
    obtain ⟨bytes, hbytes⟩ := packetBytes_eq sent
    have hwithin : ∀ left, sent.gap.bytes = buffer ++ left →
        rest = left ++ (packetBytes sent.packet ++ wire tail more) →
        Progress ignoreBytes tail (sent :: more) (ChunksOf (sent :: more))
          (lookForMagic magic buffer ⟨.lookingForMagic, header, 2⟩) rest := by
      intro left hgap hrest
      have hquiet : ∀ b ∈ buffer ++ left, b ≠ (magicBytes magic).1 := by
        rw [← hgap]
        exact sent.gap.quiet
      rw [lookForMagic_quiet fun b hb => hquiet b (List.mem_append_left _ hb), hrest]
      let sent' : Sent magic :=
        ⟨⟨left, fun b hb => hquiet b (List.mem_append_right _ hb)⟩, sent.packet, sent.marked⟩
      refine ⟨tail, sent' :: more, ChunksOf (sent' :: more), .gap tail header (sent' :: more), fun _ h => h,
        fun _ h => h, fun h => ?_⟩
      cases more with
      | nil => exact h
      | cons next more => exact h
    rw [wire] at hw
    cases List.append_eq_append_iff.mp hw with
    | inr hleft =>
      obtain ⟨left, hgap, hrest⟩ := hleft
      exact hwithin left hgap hrest
    | inl hfound =>
      obtain ⟨found, hbuffer, hfound⟩ := hfound
      match found, hfound with
      | [], hfound => exact hwithin [] (by rw [hbuffer, List.append_nil, List.append_nil]) hfound.symm
      | [low], hfound =>
        -- the cut is inside the magic
        refine absurd (.inl ?_) hcut
        rw [hfound]
        rfl
      | low :: high :: found, hfound =>
        have hpacket := hfound
        rw [hbytes, List.cons_append, List.cons_append, List.cons_append, List.cons_append, List.cons.injEq,
          List.cons.injEq] at hpacket
        obtain ⟨rfl, rfl, -⟩ := hpacket
        rw [hbuffer, lookForMagic_found sent.gap.quiet]
        refine ⟨tail, sent :: more, ChunksOf (sent :: more), ?_, .refl _ _ _⟩
        change At ignoreBytes tail _ ((magicBytes magic).1 :: (magicBytes magic).2 :: found ++ rest) _ _
        rw [← hfound, packetBytes, List.append_assoc]
        exact .header sent more (List.nil_append _).symm (List.cons_ne_nil _ _) rfl rfl

lemma copyInto_take {header : ResponseHeader} {got bytes : List UInt8}
    (hgot : (headerBytes header).take got.length = got) (hlen : got.length+bytes.length ≤ sizeofHeader) :
    (headerBytes (copyInto header got.length bytes)).take (got ++ bytes).length = got ++ bytes := by
  have hheader := length_headerBytes header
  rw [copyInto, hgot, headerBytes_headerOf]
  · exact List.take_left' rfl
  · simp only [List.length_append, List.length_drop, hheader]
    omega

lemma copyInto_whole {header : ResponseHeader} {got bytes : List UInt8}
    (hgot : (headerBytes header).take got.length = got) (hlen : got.length+bytes.length = sizeofHeader) :
    copyInto header got.length bytes = headerOf (got ++ bytes) := by
  have hheader := length_headerBytes header
  rw [copyInto, hgot, List.drop_eq_nil_of_le (by omega), List.append_nil]

lemma header_progress {ignoreBytes : UInt32} {tail : Gap magic} {header : ResponseHeader} {missing : UInt32}
    {got left : List UInt8} {sent : Sent magic} {more : List (Sent magic)} {buffer rest : List UInt8}
    (hsent : sentHeader sent.packet.header = got ++ left) (h : left.length = missing.toNat)
    (hgot : (headerBytes header).take got.length = got)
    (hw : left ++ (sent.packet.data ++ wire tail more) = buffer ++ rest) :
    Progress ignoreBytes tail (sent :: more) (ChunksOf (sent :: more))
      (readHeader buffer ⟨.packetHeader, header, missing⟩) rest := by
  have hlen : got.length+left.length = sizeofHeader := by
    rw [← List.length_append, ← hsent]
    exact length_headerBytes _
  have hoffset : sizeofHeader-missing.toNat = got.length := by omega
  simp only [readHeader, hoffset]
  obtain ⟨hdone, htake, hmore⟩ | ⟨left', hmissing, hleft, hnil, hlen', hrest, hmin⟩ := read_spec h hw
  · rw [if_pos hdone, htake, copyInto_whole hgot hlen, ← hsent, fixHeader_sentHeader]
    refine ⟨tail, sent :: more, RestOf sent.packet.header 0 sent.packet.data more, ?_, fun later hlater => ?_,
      fun _ h => h, fun h => h⟩
    · rw [← hmore]
      exact .data sent more (List.nil_append _).symm (fun _ => rfl) sent.packet.size
    · obtain ⟨first, following, hfirst, ⟨parts, hparts, rfl⟩, rfl⟩ := hlater
      exact ⟨first :: parts, .cons hfirst hparts, rfl⟩
  · rw [if_neg hmissing, hmin, List.take_length, List.drop_length, hrest]
    have hshort : got.length+buffer.length ≤ sizeofHeader := by
      rw [hleft, List.length_append] at hlen
      omega
    refine ⟨tail, sent :: more, ChunksOf (sent :: more),
      .header sent more ?_ hnil ?_ (copyInto_take hgot hshort), .refl _ _ _⟩
    · rw [List.append_assoc, ← hleft, hsent]
    · rw [hlen', hmin]

lemma data_progress {ignoreBytes : UInt32} {tail : Gap magic} {missing : UInt32}
    {got left : List UInt8} {sent : Sent magic} {more : List (Sent magic)} {buffer rest : List UInt8}
    (hbuffer : buffer ≠ []) (hsent : sent.packet.data = got ++ left) (h : left.length = missing.toNat)
    (hw : left ++ wire tail more = buffer ++ rest) :
    Progress ignoreBytes tail (sent :: more) (RestOf sent.packet.header got.length left more)
      (readData buffer ⟨.packetData, sent.packet.header, missing⟩) rest := by
  have hoffset : (sent.packet.header.bufSize.toUInt32-missing).toNat = got.length := by
    have hsize := sent.packet.size
    rw [hsent, List.length_append, h] at hsize
    rw [UInt32.toNat_sub_of_le, UInt16.toNat_toUInt32]
    · omega
    · rw [UInt32.le_iff_toNat_le, UInt16.toNat_toUInt32]
      omega
  simp only [readData, hoffset]
  obtain ⟨hdone, htake, hmore⟩ | ⟨left', hmissing, hleft, hnil, hlen', hrest, hmin⟩ := read_spec h hw
  · rw [if_pos hdone, htake]
    refine ⟨tail, more, ChunksOf more, ?_, fun later hlater => ?_, fun _ h => .inr h, Terminated.more⟩
    · rw [← hmore]
      exact .gap tail _ more
    · exact ⟨_, later, .last got.length left, hlater, rfl⟩
  · rw [if_neg hmissing, hmin, List.take_length, List.drop_length, hrest]
    have hgot : sent.packet.data = (got ++ buffer) ++ left' := by rw [List.append_assoc, ← hleft, hsent]
    refine ⟨tail, sent :: more, RestOf sent.packet.header (got ++ buffer).length left' more,
      .data sent more hgot (fun hn => absurd hn hnil) (hmin ▸ hlen'), fun later hlater => ?_, fun _ h => h,
      fun h => h⟩
    · obtain ⟨first, following, hfirst, hfollowing, rfl⟩ := hlater
      rw [List.length_append] at hfirst
      rw [hleft]
      exact ⟨_, following, .more hbuffer hnil hfirst, hfollowing, rfl⟩

/-- One iteration of the loop over a buffer. -/
lemma At.iteration {ignoreBytes : UInt32} {tail : Gap magic} {s : UsbDeviceState} {w buffer rest : List UInt8}
    {sents : List (Sent magic)} {output : List Chunk → Prop} (h : At ignoreBytes tail s w sents output)
    (hw : w = buffer ++ rest) (hbuffer : buffer ≠ []) (hcut : ¬ Split tail sents rest) :
    Progress ignoreBytes tail sents output (UsbTransfers.iteration magic ignoreBytes buffer s) rest := by
  cases h with
  | waiting sents h =>
    refine ⟨tail, sents, ChunksOf sents, ?_, .refl _ _ _⟩
    exact hw ▸ At.garbage sents h
  | @garbage header missing garbage sents h =>
    simp only [UsbTransfers.iteration]
    obtain ⟨hdone, -, hmore⟩ | ⟨left', hmissing, -, -, hlen', hrest, hmin⟩ := read_spec h hw
    · rw [if_pos hdone]
      exact ⟨tail, sents, ChunksOf sents, hmore ▸ At.gap tail header sents, .refl _ _ _⟩
    · rw [if_neg hmissing, hmin, List.drop_length, hrest]
      exact ⟨tail, sents, ChunksOf sents, .garbage sents (hmin ▸ hlen'), .refl _ _ _⟩
  | gap header => exact gap_progress header hw hcut
  | header sent more hsent hleft h hgot => exact header_progress hsent h hgot hw
  | data sent more hsent hleft h => exact data_progress hbuffer hsent h hw

/-- One transfer. -/
lemma At.usbEpCb {ignoreBytes : UInt32} {tail : Gap magic} {s : UsbDeviceState} {buffer rest : List UInt8}
    {sents : List (Sent magic)} {output : List Chunk → Prop}
    (h : At ignoreBytes tail s (buffer ++ rest) sents output) (hcut : ¬ Split tail sents rest) :
    ∃ tail' sents' output',
      At ignoreBytes tail' (UsbTransfers.usbEpCb magic ignoreBytes buffer s).1 rest sents' output' ∧
      Leads tail sents output (UsbTransfers.usbEpCb magic ignoreBytes buffer s).2 tail' sents' output' := by
  induction buffer, s using usbEpCb.induct magic ignoreBytes generalizing tail sents output with
  | case1 s =>
    rw [UsbTransfers.usbEpCb, dif_pos rfl]
    exact ⟨tail, sents, output, h, .refl _ _ _⟩
  | case2 buffer s hbuffer _ ih =>
    obtain ⟨tail', sents', output', hnext, hleads⟩ := h.iteration rfl hbuffer hcut
    obtain ⟨tail'', sents'', output'', hend, hleads'⟩ := ih hnext fun hsplit => hcut (hleads.split rest hsplit)
    rw [UsbTransfers.usbEpCb, dif_neg hbuffer]
    exact ⟨tail'', sents'', output'', hend, hleads.trans hleads'⟩

/-- No transfer ends between the two bytes of a magic. -/
def Uncut (tail : Gap magic) (sents : List (Sent magic)) (buffers : List (List UInt8)) : Prop :=
  ∀ more ∈ buffers.tails, ¬ Split tail sents more.flatten

instance uncutDecidable (tail : Gap magic) (sents : List (Sent magic)) (buffers : List (List UInt8)) :
    Decidable (Uncut tail sents buffers) :=
  inferInstanceAs (Decidable (∀ more ∈ buffers.tails, _))

lemma At.transfers {ignoreBytes : UInt32} {tail : Gap magic} {s : UsbDeviceState} {buffers : List (List UInt8)}
    {sents : List (Sent magic)} {output : List Chunk → Prop}
    (h : At ignoreBytes tail s buffers.flatten sents output) (hcut : Uncut tail sents buffers) :
    ∃ tail' sents' output',
      At ignoreBytes tail' (UsbTransfers.transfers magic ignoreBytes buffers s).1 [] sents' output' ∧
      Leads tail sents output (UsbTransfers.transfers magic ignoreBytes buffers s).2 tail' sents' output' := by
  induction buffers generalizing tail s sents output with
  | nil => exact ⟨tail, sents, output, h, .refl _ _ _⟩
  | cons buffer buffers ih =>
    obtain ⟨tail', sents', output', hnext, hleads⟩ := h.usbEpCb (hcut buffers (by simp))
    have hcut' : Uncut tail' sents' buffers := by
      intro more hmore hsplit
      exact hcut more (by simp [hmore]) (hleads.split _ hsplit)
    obtain ⟨tail'', sents'', output'', hend, hleads'⟩ := ih hnext hcut'
    exact ⟨tail'', sents'', output'', hend, hleads.trans hleads'⟩

lemma wire_eq_nil {tail : Gap magic} {sents : List (Sent magic)} (h : wire tail sents = []) :
    sents = [] ∧ tail.bytes = [] := by
  cases sents with
  | nil => exact ⟨rfl, h⟩
  | cons sent more =>
    obtain ⟨bytes, hbytes⟩ := packetBytes_eq sent
    rw [wire, hbytes] at h
    simp at h

/-- Where nothing is to come no chunk is. -/
lemma At.over {ignoreBytes : UInt32} {tail : Gap magic} {s : UsbDeviceState} {sents : List (Sent magic)}
    {output : List Chunk → Prop} (h : At ignoreBytes tail s [] sents output) (hend : Terminated tail sents) :
    output [] := by
  generalize hw : ([] : List UInt8) = w at h
  have hnone : ∀ left, [] = left ++ wire tail sents → ChunksOf sents [] := by
    intro left hleft
    obtain ⟨-, hwire⟩ := List.append_eq_nil_iff.mp hleft.symm
    obtain ⟨rfl, -⟩ := wire_eq_nil hwire
    exact ⟨[], .nil, rfl⟩
  cases h with
  | waiting sents h => exact hnone _ hw
  | garbage sents h => exact hnone _ hw
  | gap header sents => exact hnone [] hw
  | header sent more hsent hleft h hgot => exact absurd (List.append_eq_nil_iff.mp hw.symm).1 hleft
  | @data missing got left sent more hsent hleft h =>
    obtain ⟨hnil, hwire⟩ := List.append_eq_nil_iff.mp hw.symm
    obtain ⟨rfl, htail⟩ := wire_eq_nil hwire
    rw [hnil, hleft hnil] at hsent
    exact absurd htail (hend hsent)

/-- The packets sent come out complete and in order. -/
theorem transfers_chunks (header : ResponseHeader) (missing ignoreBytes : UInt32) {garbage : List UInt8}
    (hgarbage : garbage.length = ignoreBytes.toNat) {tail : Gap magic} {sents : List (Sent magic)}
    (hend : Terminated tail sents) {buffers : List (List UInt8)}
    (hsent : buffers.flatten = garbage ++ wire tail sents) (hcut : Uncut tail sents buffers) :
    ChunksOf sents (transfers magic ignoreBytes buffers ⟨.waitingForConfiguration, header, missing⟩).2 := by
  have hstart : At ignoreBytes tail ⟨.waitingForConfiguration, header, missing⟩ buffers.flatten sents
      (ChunksOf sents) := hsent ▸ At.waiting sents hgarbage
  obtain ⟨tail', sents', output', hlast, hleads⟩ := hstart.transfers hcut
  have hchunks := hleads.chunks [] (hlast.over (hleads.terminated hend))
  rwa [List.append_nil] at hchunks

/-- The header which is read when a transfer ends inside the magic. -/
def lateHeader (packet : Packet) : ResponseHeader :=
  fixHeader (headerOf (((packetBytes packet).drop 2).take sizeofHeader))

lemma lateHeader_fields (packet : Packet) :
    (lateHeader packet).magic = packet.header.type ∧ (lateHeader packet).type = packet.header.packetID := by
  obtain ⟨header, data, hsize⟩ := packet
  constructor
  · exact shortOf_shortBytes header.type
  · exact shortOf_shortBytes header.packetID

lemma lookForMagic_half {bytes : List UInt8} (h : ∀ b ∈ bytes, b ≠ (magicBytes magic).1) (header : ResponseHeader) :
    lookForMagic magic (bytes ++ [(magicBytes magic).1]) ⟨.lookingForMagic, header, 2⟩ =
      ⟨⟨.lookingForMagic, header, 1⟩, [], []⟩ := by
  simp only [lookForMagic, findMagic_quiet h]
  rw [if_neg (by simp), if_neg (by simp [findMagic]), if_pos (by simp)]
  rfl

lemma usbEpCb_nil (ignoreBytes : UInt32) (s : UsbDeviceState) : usbEpCb magic ignoreBytes [] s = (s, []) := by
  rw [UsbTransfers.usbEpCb, dif_pos rfl]

lemma usbEpCb_ne_nil (ignoreBytes : UInt32) {buffer : List UInt8} (hbuffer : buffer ≠ []) (s : UsbDeviceState) :
    usbEpCb magic ignoreBytes buffer s =
      ((usbEpCb magic ignoreBytes (UsbTransfers.iteration magic ignoreBytes buffer s).buffer
          (UsbTransfers.iteration magic ignoreBytes buffer s).device).1,
        (UsbTransfers.iteration magic ignoreBytes buffer s).chunks ++
          (usbEpCb magic ignoreBytes (UsbTransfers.iteration magic ignoreBytes buffer s).buffer
            (UsbTransfers.iteration magic ignoreBytes buffer s).device).2) := by
  rw [UsbTransfers.usbEpCb, dif_neg hbuffer]

lemma readHeader_whole {bytes : List UInt8} (h : bytes.length = sizeofHeader) (more : List UInt8)
    (header : ResponseHeader) : readHeader (bytes ++ more) ⟨.packetHeader, header, 12⟩ =
      ⟨⟨.packetData, fixHeader (headerOf bytes), (fixHeader (headerOf bytes)).bufSize.toUInt32⟩, more, []⟩ := by
  have hmin : min (bytes ++ more).length (12 : UInt32).toNat = bytes.length := by
    rw [List.length_append, h]
    exact Nat.min_eq_right (Nat.le_add_right _ _)
  have hcopy : copyInto header 0 bytes = headerOf bytes := @copyInto_whole header [] bytes rfl (by rw [h]; rfl)
  simp only [readHeader, hmin]
  rw [List.take_left, List.drop_left, h]
  change (⟨if (0 : UInt32) = 0 then _ else _, more, []⟩ : Iteration) = _
  rw [if_pos rfl]
  change (⟨⟨.packetData, fixHeader (copyInto header 0 bytes), (fixHeader (copyInto header 0 bytes)).bufSize.toUInt32⟩,
    more, []⟩ : Iteration) = _
  rw [hcopy]

/-- A magic which is cut in two behind a gap counts for nothing: the header is read behind
it, when the next transfer brings the whole rest of the packet. -/
theorem transfers_cut (ignoreBytes : UInt32) (sent : Sent magic) (hdata : 2 ≤ sent.packet.data.length)
    (header : ResponseHeader) (rest : List UInt8) (later : List (List UInt8)) :
    transfers magic ignoreBytes
        ((sent.gap.bytes ++ [(magicBytes magic).1]) :: ((packetBytes sent.packet).tail ++ rest) :: later)
        ⟨.lookingForMagic, header, 2⟩ =
      transfers magic ignoreBytes ((sent.packet.data.drop 2 ++ rest) :: later)
        ⟨.packetData, lateHeader sent.packet, (lateHeader sent.packet).bufSize.toUInt32⟩ := by
  have hhalf : usbEpCb magic ignoreBytes (sent.gap.bytes ++ [(magicBytes magic).1]) ⟨.lookingForMagic, header, 2⟩ =
      (⟨.lookingForMagic, header, 1⟩, []) := by
    rw [usbEpCb_ne_nil ignoreBytes (by simp)]
    simp only [UsbTransfers.iteration, lookForMagic_half sent.gap.quiet, usbEpCb_nil, List.append_nil]
  set late := ((packetBytes sent.packet).drop 2).take sizeofHeader with hlate
  obtain ⟨bytes, hbytes⟩ := packetBytes_eq sent
  have hlen : late.length = sizeofHeader := by
    rw [hlate, List.length_take, List.length_drop, packetBytes, List.length_append, sentHeader, length_headerBytes]
    simp only [sizeofHeader]
    omega
  have htail : (packetBytes sent.packet).tail = (magicBytes magic).2 :: (late ++ sent.packet.data.drop 2) := by
    have hrest : ((packetBytes sent.packet).drop 2).drop sizeofHeader = sent.packet.data.drop 2 := by
      rw [List.drop_drop, packetBytes, List.drop_append, sentHeader, length_headerBytes]
      rfl
    rw [← hrest, hlate, List.take_append_drop, hbytes]
    rfl
  have hfound : usbEpCb magic ignoreBytes ((packetBytes sent.packet).tail ++ rest) ⟨.lookingForMagic, header, 1⟩ =
      usbEpCb magic ignoreBytes (sent.packet.data.drop 2 ++ rest)
        ⟨.packetData, lateHeader sent.packet, (lateHeader sent.packet).bufSize.toUInt32⟩ := by
    have hlook : lookForMagic magic ((magicBytes magic).2 :: (late ++ (sent.packet.data.drop 2 ++ rest)))
        ⟨.lookingForMagic, header, 1⟩ =
          ⟨⟨.packetHeader, { header with magic := magic }, 12⟩, late ++ (sent.packet.data.drop 2 ++ rest), []⟩ :=
      if_pos ⟨rfl, rfl⟩
    have hne : late ++ (sent.packet.data.drop 2 ++ rest) ≠ [] := by
      intro hnil
      have hzero : late.length = 0 := by rw [(List.append_eq_nil_iff.mp hnil).1, List.length_nil]
      rw [hlen] at hzero
      exact absurd hzero (by decide)
    rw [htail, List.cons_append, List.append_assoc, usbEpCb_ne_nil ignoreBytes (List.cons_ne_nil _ _)]
    simp only [UsbTransfers.iteration, hlook]
    rw [usbEpCb_ne_nil ignoreBytes hne]
    simp only [UsbTransfers.iteration, readHeader_whole hlen, List.nil_append]
    rfl
  simp only [UsbTransfers.transfers, hhalf, hfound, List.nil_append]

end Wire

section Pair

def pairStart : Packet := ⟨⟨0x4252, responseDepthStart, 1, 2, 0⟩, [0xf0, 0x3e], rfl⟩
def pairEnd : Packet := ⟨⟨0x4252, responseDepthEnd, 2, 1, 0⟩, [0x87], rfl⟩

def pairTail : Gap 0x4252 := ⟨[], by simp⟩
def pairSents : List (Sent 0x4252) := [⟨pairTail, pairStart, rfl⟩, ⟨pairTail, pairEnd, rfl⟩]

/-- Transfers which end in a header and in the data. -/
def pairBuffers : List (List UInt8) :=
  [(wire pairTail pairSents).take 5, ((wire pairTail pairSents).drop 5).take 8, (wire pairTail pairSents).drop 13]

theorem transfers_chunks_pair : ChunksOf pairSents
    (transfers 0x4252 0 pairBuffers ⟨.waitingForConfiguration, ⟨0, 0, 0, 0, 0⟩, 0⟩).2 :=
  @transfers_chunks 0x4252 ⟨0, 0, 0, 0, 0⟩ 0 0 [] rfl pairTail pairSents (fun h => nomatch h) pairBuffers
    (by decide) (by decide)

def pairGap : Gap 0x4252 := ⟨[0, 7], by decide +kernel⟩

theorem transfers_cut_pair :
    transfers 0x4252 0 [[0, 7, 0x52], (packetBytes pairStart).tail, packetBytes pairEnd]
        ⟨.lookingForMagic, ⟨0, 0, 0, 0, 0⟩, 2⟩ =
      transfers 0x4252 0 [[], packetBytes pairEnd]
        ⟨.packetData, lateHeader pairStart, (lateHeader pairStart).bufSize.toUInt32⟩ :=
  transfers_cut 0 ⟨pairGap, pairStart, rfl⟩ (by decide) ⟨0, 0, 0, 0, 0⟩ [] [packetBytes pairEnd]

end Pair

end WaterHarp.UsbPackets
