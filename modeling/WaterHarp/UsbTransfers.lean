import WaterHarp.DepthDelivery

/-! `XnDeviceSensorProtocolUsbEpCb`: the transfers of an endpoint are searched for
packets, and their data are passed on as they come. -/
namespace WaterHarp.UsbTransfers
open DepthFrames DepthDelivery

def shortBytes (v : UInt16) : List UInt8 := [.ofNat v.toNat, .ofNat (v.toNat/256)]
def shortOf (low high : UInt8) : UInt16 := .ofNat (low.toNat+256*high.toNat)

def longBytes (v : UInt32) : List UInt8 :=
  [.ofNat v.toNat, .ofNat (v.toNat/256), .ofNat (v.toNat/65536), .ofNat (v.toNat/16777216)]
def longOf (a b c d : UInt8) : UInt32 := .ofNat (a.toNat+256*b.toNat+65536*c.toNat+16777216*d.toNat)

/-- `CurrHeader` in memory. -/
def headerBytes (h : ResponseHeader) : List UInt8 :=
  shortBytes h.magic ++ shortBytes h.type ++ shortBytes h.packetID ++ shortBytes h.bufSize ++
    longBytes h.timeStamp

def headerOf (bytes : List UInt8) : ResponseHeader :=
  let b := fun i => bytes.getD i 0
  ⟨shortOf (b 0) (b 1), shortOf (b 2) (b 3), shortOf (b 4) (b 5), shortOf (b 6) (b 7),
    longOf (b 8) (b 9) (b 10) (b 11)⟩

def sizeofHeader : ℕ := 12

/-- `xnOSMemCopy` into the header. -/
def copyInto (h : ResponseHeader) (offset : ℕ) (bytes : List UInt8) : ResponseHeader :=
  headerOf ((headerBytes h).take offset ++ bytes ++ (headerBytes h).drop (offset+bytes.length))

def endianSwap (v : UInt16) : UInt16 := v >>> 8 ||| v <<< 8

def fixHeader (h : ResponseHeader) : ResponseHeader := { h with bufSize := endianSwap h.bufSize-12 }

inductive MiniPacketState
  | waitingForConfiguration
  | ignoringGarbage
  | lookingForMagic
  | packetHeader
  | packetData
  deriving DecidableEq, Repr

structure UsbDeviceState where
  state : MiniPacketState
  currHeader : ResponseHeader
  missingBytesInState : UInt32
  deriving DecidableEq, Repr

/-- What an iteration leaves of the buffer, and the chunk it passes on. -/
structure Iteration where
  device : UsbDeviceState
  buffer : List UInt8
  chunks : List Chunk
  deriving DecidableEq, Repr

def magicBytes (magic : UInt16) : UInt8 × UInt8 := (.ofNat magic.toNat, .ofNat (magic.toNat/256))

/-- The buffer from the first magic on. -/
def findMagic (magic : UInt16) : List UInt8 → List UInt8
  | low :: high :: rest =>
    if (low, high) = magicBytes magic then low :: high :: rest else findMagic magic (high :: rest)
  | _ => []

section Callback
variable (magic : UInt16) (ignoreBytes : UInt32)

def lookForMagic (buffer : List UInt8) (s : UsbDeviceState) : Iteration :=
  let found : UsbDeviceState := ⟨.packetHeader, { s.currHeader with magic := magic }, 12⟩
  if s.missingBytesInState = 1 ∧ buffer.head? = some (magicBytes magic).2 then ⟨found, buffer.drop 1, []⟩
  else if findMagic magic buffer ≠ [] then ⟨found, findMagic magic buffer, []⟩
  else if buffer.getLast? = some (magicBytes magic).1 then
    ⟨{ s with missingBytesInState := s.missingBytesInState-1 }, [], []⟩
  else ⟨s, [], []⟩

def readHeader (buffer : List UInt8) (s : UsbDeviceState) : Iteration :=
  let readBytes := min buffer.length s.missingBytesInState.toNat
  let header := copyInto s.currHeader (sizeofHeader-s.missingBytesInState.toNat) (buffer.take readBytes)
  let missing := s.missingBytesInState-.ofNat readBytes
  let device : UsbDeviceState :=
    if missing = 0 then ⟨.packetData, fixHeader header, (fixHeader header).bufSize.toUInt32⟩
    else ⟨.packetHeader, header, missing⟩
  ⟨device, buffer.drop readBytes, []⟩

def readData (buffer : List UInt8) (s : UsbDeviceState) : Iteration :=
  let readBytes := min buffer.length s.missingBytesInState.toNat
  let offset := s.currHeader.bufSize.toUInt32-s.missingBytesInState
  let missing := s.missingBytesInState-.ofNat readBytes
  let device : UsbDeviceState :=
    if missing = 0 then ⟨.lookingForMagic, s.currHeader, 2⟩ else { s with missingBytesInState := missing }
  ⟨device, buffer.drop readBytes, [⟨s.currHeader, buffer.take readBytes, offset.toNat⟩]⟩

def iteration (buffer : List UInt8) (s : UsbDeviceState) : Iteration :=
  match s.state with
  | .waitingForConfiguration =>
    ⟨{ s with state := .ignoringGarbage, missingBytesInState := ignoreBytes }, buffer, []⟩
  | .ignoringGarbage =>
    let readBytes := min buffer.length s.missingBytesInState.toNat
    let missing := s.missingBytesInState-.ofNat readBytes
    let device : UsbDeviceState :=
      if missing = 0 then ⟨.lookingForMagic, s.currHeader, 2⟩ else { s with missingBytesInState := missing }
    ⟨device, buffer.drop readBytes, []⟩
  | .lookingForMagic => lookForMagic magic buffer s
  | .packetHeader => readHeader buffer s
  | .packetData => readData buffer s

/-- An iteration reads from the buffer or changes to a state of lower rank. -/
def rank (s : UsbDeviceState) : ℕ :=
  match s.state with
  | .waitingForConfiguration => 5
  | .ignoringGarbage => 4
  | .packetHeader => if s.missingBytesInState = 0 then 3 else 0
  | .packetData => 2
  | .lookingForMagic => 1

lemma length_findMagic (buffer : List UInt8) : (findMagic magic buffer).length ≤ buffer.length := by
  induction buffer using findMagic.induct magic with
  | case1 low high rest h => rw [findMagic, if_pos h]
  | case2 low high rest h ih =>
    rw [findMagic, if_neg h]
    exact ih.trans (Nat.le_succ _)
  | case3 buffer h =>
    rw [findMagic.eq_2 magic buffer h]
    exact Nat.zero_le _

lemma length_drop_read {buffer : List UInt8} (hbuffer : buffer ≠ []) (missing : UInt32) :
    missing ≠ 0 ∧ (buffer.drop (min buffer.length missing.toNat)).length < buffer.length ∨
      missing = 0 ∧ missing-.ofNat (min buffer.length missing.toNat) = 0 ∧
        buffer.drop (min buffer.length missing.toNat) = buffer := by
  have hpos := List.length_pos_of_ne_nil hbuffer
  by_cases hzero : missing = 0
  · right
    rw [hzero]
    simp
  · left
    have hmissing : missing.toNat ≠ 0 := fun h => hzero (UInt32.toNat_inj.mp h)
    refine ⟨hzero, ?_⟩
    rw [List.length_drop]
    omega

lemma iteration_decreases (s : UsbDeviceState) {buffer : List UInt8} (hbuffer : buffer ≠ []) :
    (iteration magic ignoreBytes buffer s).buffer.length < buffer.length ∨
      (iteration magic ignoreBytes buffer s).buffer.length = buffer.length ∧
        rank (iteration magic ignoreBytes buffer s).device < rank s := by
  obtain ⟨state, header, missing⟩ := s
  have hpos := List.length_pos_of_ne_nil hbuffer
  cases state with
  | waitingForConfiguration =>
    right
    exact ⟨rfl, show 4 < 5 by norm_num⟩
  | ignoringGarbage =>
    obtain ⟨-, hlt⟩ | ⟨-, hdone, hsame⟩ := length_drop_read hbuffer missing
    · exact .inl hlt
    · right
      simp [iteration, hdone, hsame, rank]
  | lookingForMagic =>
    simp only [iteration, lookForMagic]
    split_ifs
    · left
      rw [List.length_drop]
      omega
    · have hle := length_findMagic magic buffer
      have hrank : ∀ h, rank ⟨.packetHeader, h, 12⟩ < rank ⟨.lookingForMagic, header, missing⟩ :=
        fun _ => show 0 < 1 by norm_num
      cases hle.lt_or_eq with
      | inl hlt => exact .inl hlt
      | inr heq => exact .inr ⟨heq, hrank _⟩
    · exact .inl hpos
    · exact .inl hpos
  | packetHeader =>
    obtain ⟨-, hlt⟩ | ⟨hzero, -, -⟩ := length_drop_read hbuffer missing
    · exact .inl hlt
    · right
      simp [iteration, readHeader, rank, hzero]
  | packetData =>
    obtain ⟨-, hlt⟩ | ⟨-, hdone, hsame⟩ := length_drop_read hbuffer missing
    · exact .inl hlt
    · right
      simp [iteration, readData, hdone, hsame, rank]

/-- One transfer. -/
def usbEpCb (buffer : List UInt8) (s : UsbDeviceState) : UsbDeviceState × List Chunk :=
  if h : buffer = [] then (s, [])
  else
    have := iteration_decreases magic ignoreBytes s h
    let rest := usbEpCb (iteration magic ignoreBytes buffer s).buffer (iteration magic ignoreBytes buffer s).device
    (rest.1, (iteration magic ignoreBytes buffer s).chunks ++ rest.2)
termination_by (buffer.length, rank s)
decreasing_by
  cases this with
  | inl hlt => exact .left _ _ hlt
  | inr hrank =>
    rw [hrank.1]
    exact .right _ hrank.2

def transfers : List (List UInt8) → UsbDeviceState → UsbDeviceState × List Chunk
  | [], s => (s, [])
  | buffer :: more, s =>
    let (s, chunks) := usbEpCb magic ignoreBytes buffer s
    let (s, later) := transfers more s
    (s, chunks ++ later)

end Callback

end WaterHarp.UsbTransfers
