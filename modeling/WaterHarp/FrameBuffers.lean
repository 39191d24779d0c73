import WaterHarp.FrameOwnership

/-! `XnFrameBufferManager`: the driver fills a working buffer, and when the frame is whole
marks it as stable and takes another one. A frame which is stable stays as it is for as
long as anyone holds it. -/
namespace WaterHarp.FrameBuffers
open FramePool FrameOwnership

/-- `XnBuffer` with an external buffer. -/
structure XnBuffer where
  data : Option ℕ
  maxSize : ℕ
  size : ℕ
  deriving DecidableEq, Repr

/-- `latched` and `serial` are the history: what has been marked as stable, and the place
of each frame in it. -/
structure FrameBufferManager where
  pool : Pool
  workingBuffer : Option ℕ
  writeBuffer : XnBuffer
  stableFrameID : BitVec 32
  latched : List (List UInt8)
  serial : ℕ → ℕ

/-- What a holder of frame `f` reads in it. -/
def contents (f : ℕ) (p : Pool) : List UInt8 :=
  match (p.frame f).data with
  | none => []
  | some b => (p.block b).bytes.take (p.frame f).dataSize

namespace FrameBufferManager

def addRef (f : ℕ) (m : FrameBufferManager) : FrameBufferManager := { m with pool := m.pool.addRef f }

def release (f : ℕ) (m : FrameBufferManager) : Option FrameBufferManager :=
  (m.pool.release f).map fun p => { m with pool := p }

/-- A frame is acquired as the working buffer, and `SetExternalBuffer` to its data. -/
def start (m : FrameBufferManager) : FrameBufferManager :=
  let (f, p) := m.pool.acquireFrame
  { m with
    pool := p
    workingBuffer := some f
    writeBuffer := ⟨(p.frame f).data, (p.frame f).dataSize, 0⟩ }

def stop (m : FrameBufferManager) : Option FrameBufferManager :=
  match m.workingBuffer with
  | none => some m
  | some f => (m.release f).map fun m => { m with workingBuffer := none }

/-- `XnBuffer::Reset`. -/
def reset (m : FrameBufferManager) : FrameBufferManager := { m with writeBuffer := { m.writeBuffer with size := 0 } }

/-- `XnBuffer::UnsafeWrite`, which must stay inside a block of memory. -/
def write (bytes : List UInt8) (m : FrameBufferManager) : Option FrameBufferManager :=
  match m.writeBuffer.data with
  | none => none
  | some b =>
    let block := m.pool.block b
    if block.live ∧ m.writeBuffer.size+bytes.length ≤ block.size then
      some { m with
        pool := m.pool.setBlock b { block with bytes := block.bytes.take m.writeBuffer.size ++ bytes }
        writeBuffer := { m.writeBuffer with size := m.writeBuffer.size+bytes.length } }
    else none

/-- `MarkWriteBufferAsStable` before its callback: the stable frame, and a new working buffer. -/
def markWriteBufferAsStable (m : FrameBufferManager) : Option (ℕ × FrameBufferManager) :=
  match m.workingBuffer with
  | none => none
  | some f =>
    let stableFrameID := m.stableFrameID+1
    let pool := m.pool.setFrame f { m.pool.frame f with
      dataSize := m.writeBuffer.size
      frameIndex := stableFrameID }
    let m := { m with
      pool := pool
      stableFrameID := stableFrameID
      latched := m.latched ++ [contents f pool]
      serial := Function.update m.serial f m.latched.length }.start
    match m.workingBuffer with
    | none => none
    | some g => some (f, { m with pool := m.pool.setFrame g { m.pool.frame g with dataSize := 0 } })

end FrameBufferManager

variable {m : FrameBufferManager} {held : Multiset ℕ} {f : ℕ}

/-- Frame `f` is the one of its place in the history. -/
structure Shows (m : FrameBufferManager) (f : ℕ) : Prop where
  frameIndex : (m.pool.frame f).frameIndex = BitVec.ofNat 32 (m.serial f+1)
  contents : m.latched[m.serial f]? = some (contents f m.pool)

/-- The write buffer is the one of the working buffer. -/
structure Writes (m : FrameBufferManager) (f : ℕ) : Prop where
  data : m.writeBuffer.data = (m.pool.frame f).data
  room : ∀ b, (m.pool.frame f).data = some b → m.writeBuffer.maxSize ≤ (m.pool.block b).size

/-- What the driver has written into frame `f` so far. -/
def written (f : ℕ) (m : FrameBufferManager) : List UInt8 :=
  match (m.pool.frame f).data with
  | none => []
  | some b => (m.pool.block b).bytes.take m.writeBuffer.size

/-- The working buffer holds `bytes`. -/
def Current (m : FrameBufferManager) (bytes : List UInt8) : Prop :=
  ∀ f, m.workingBuffer = some f → written f m = bytes ∧ m.writeBuffer.size = bytes.length

/-- All the references which there are. -/
def references (m : FrameBufferManager) (held : Multiset ℕ) : Multiset ℕ := ↑m.workingBuffer.toList + held

lemma mem_references {g : ℕ} : g ∈ references m held ↔ m.workingBuffer = some g ∨ g ∈ held := by
  simp [references]

/-- The working buffer belongs to the driver alone, and what is held shows its place in
the history. -/
structure Sound (m : FrameBufferManager) (held : Multiset ℕ) : Prop where
  owned : Owned m.pool (references m held)
  unshared : ∀ f, m.workingBuffer = some f → f ∉ held
  writes : ∀ f, m.workingBuffer = some f → Writes m f
  shows : ∀ f ∈ held, Shows m f
  frameID : m.stableFrameID = BitVec.ofNat 32 m.latched.length

lemma contents_of_view {p q : Pool} (h : view f q = view f p) : contents f q = contents f p := by
  simp only [view, Prod.mk.injEq] at h
  obtain ⟨-, hsize, hdata, hblock⟩ := h
  rw [hdata] at hblock
  unfold contents
  rw [hdata]
  cases hb : (p.frame f).data with
  | none => rfl
  | some b =>
    rw [hb, Option.map_some, Option.map_some, Option.some_inj] at hblock
    simp only [hsize, hblock]

lemma written_of_view {p : Pool} (h : view f p = view f m.pool) : written f { m with pool := p } = written f m := by
  simp only [view, Prod.mk.injEq] at h
  obtain ⟨-, -, hdata, hblock⟩ := h
  rw [hdata] at hblock
  simp only [written, hdata]
  cases hb : (m.pool.frame f).data with
  | none => rfl
  | some b =>
    rw [hb, Option.map_some, Option.map_some, Option.some_inj] at hblock
    simp only [hblock]

lemma written_of_size (h : m.writeBuffer.size = 0) (f : ℕ) : written f m = [] := by
  unfold written
  cases (m.pool.frame f).data with
  | none => rfl
  | some b => simp only [h, List.take_zero]

lemma current_nil (h : m.writeBuffer.size = 0) : Current m [] := fun f _ => ⟨written_of_size h f, h⟩

lemma current_none {bytes : List UInt8} (h : m.workingBuffer = none) : Current m bytes := by
  intro f hf
  rw [h] at hf
  cases hf

lemma Shows.of_view {p : Pool} (h : Shows m f) (hview : view f p = view f m.pool) :
    Shows { m with pool := p } f where
  frameIndex := (congrArg Prod.fst hview).trans h.frameIndex
  contents := by
    rw [contents_of_view hview]
    exact h.contents

lemma Writes.of_view {p : Pool} (h : Writes m f) (hview : view f p = view f m.pool) :
    Writes { m with pool := p } f := by
  simp only [view, Prod.mk.injEq] at hview
  obtain ⟨-, -, hdata, hblock⟩ := hview
  refine ⟨h.data.trans hdata.symm, fun b hb => ?_⟩
  have hb' : (m.pool.frame f).data = some b := hdata.symm.trans hb
  have hsame : p.block b = m.pool.block b := by
    rw [hdata, hb', Option.map_some, Option.map_some, Option.some_inj] at hblock
    exact hblock
  simp only [hsame]
  exact h.room b hb'

/-- The pool has changed, but nothing of what is held. -/
lemma Sound.of_pool {p : Pool} {refs : Multiset ℕ} (h : Sound m held)
    (howned : Owned p (references m refs)) (hrefs : ∀ f ∈ refs, f ∈ held)
    (hview : ∀ f ∈ references m refs, view f p = view f m.pool) : Sound { m with pool := p } refs where
  owned := howned
  unshared f hf hmem := h.unshared f hf (hrefs f hmem)
  writes f hf := (h.writes f hf).of_view (hview f (mem_references.mpr (.inl hf)))
  shows f hf := (h.shows f (hrefs f hf)).of_view (hview f (mem_references.mpr (.inr hf)))
  frameID := h.frameID

lemma view_addRef (f g : ℕ) (p : Pool) : view g (p.addRef f) = view g p := view_recount f g _ p

lemma Sound.addRef (h : Sound m held) (hf : f ∈ held) : Sound (m.addRef f) (f ::ₘ held) := by
  have hrefs : references m (f ::ₘ held) = f ::ₘ references m held := Multiset.add_cons f _ held
  refine h.of_pool (p := m.pool.addRef f) ?_ ?_ fun g _ => view_addRef f g m.pool
  · rw [hrefs]
    exact h.owned.addRef (mem_references.mpr (.inr hf))
  · intro g hg
    exact (Multiset.mem_cons.mp hg).elim (fun heq => heq ▸ hf) id

/-- Another state of the pool, which has not grown. -/
structure PoolOnly (m n : FrameBufferManager) : Prop where
  same : ∃ p, n = { m with pool := p }
  frames : n.pool.frames = m.pool.frames
  view : ∀ f, m.workingBuffer = some f → view f n.pool = view f m.pool

lemma PoolOnly.kept {n : FrameBufferManager} (h : PoolOnly m n) :
    n.serial = m.serial ∧ n.latched = m.latched ∧ n.workingBuffer = m.workingBuffer := by
  obtain ⟨p, rfl⟩ := h.same
  exact ⟨rfl, rfl, rfl⟩

lemma PoolOnly.current {n : FrameBufferManager} {bytes : List UInt8} (h : PoolOnly m n) (hbytes : Current m bytes) :
    Current n bytes := by
  have hview := h.view
  obtain ⟨p, rfl⟩ := h.same
  intro f hf
  obtain ⟨hwritten, hsize⟩ := hbytes f hf
  exact ⟨(written_of_view (hview f hf)).trans hwritten, hsize⟩

lemma poolOnly_addRef (f : ℕ) (m : FrameBufferManager) : PoolOnly m (m.addRef f) where
  same := ⟨m.pool.addRef f, rfl⟩
  frames := rfl
  view g _ := view_addRef f g m.pool

lemma Sound.release (h : Sound m (f ::ₘ held)) :
    ∃ n, m.release f = some n ∧ Sound n held ∧ PoolOnly m n := by
  have hrefs : references m (f ::ₘ held) = f ::ₘ references m held := Multiset.add_cons f _ held
  have howned := h.owned
  rw [hrefs] at howned
  obtain ⟨p, hp, howned', hview, hframes, -⟩ := howned.release
  refine ⟨{ m with pool := p }, ?_, ?_, ⟨p, rfl⟩, hframes, fun g hg => hview g (mem_references.mpr (.inl hg))⟩
  · rw [FrameBufferManager.release, hp, Option.map_some]
  · exact h.of_pool howned' (fun g hg => Multiset.mem_cons_of_mem hg) hview

lemma Sound.setRequiredFrameSize (h : Sound m held) (size : ℕ) :
    ∃ p, m.pool.setRequiredFrameSize size = some p ∧ Sound { m with pool := p } held ∧
      p.frames = m.pool.frames := by
  obtain ⟨p, hp, howned, hview, hframes, -⟩ := h.owned.setRequiredFrameSize size
  exact ⟨p, hp, h.of_pool howned (fun _ hg => hg) hview, hframes⟩

/-- The driver has taken a working buffer. -/
structure Started (m : FrameBufferManager) (held : Multiset ℕ) (n : FrameBufferManager) : Prop where
  sound : Sound n held
  working : n.workingBuffer.isSome
  latched : n.latched = m.latched
  serial : n.serial = m.serial
  current : n.writeBuffer.size = 0
  frames : n.pool.frames = m.pool.frames ∨
    n.pool.frames = m.pool.frames+1 ∧ ∀ g < m.pool.frames, g ∈ held

lemma Sound.start (h : Sound m held) (hnone : m.workingBuffer = none) : Started m held m.start := by
  have hrefs : references m held = held := by simp [references, hnone]
  have howned := h.owned
  rw [hrefs] at howned
  obtain ⟨f, b, p, hp, hacq⟩ := howned.acquireFrame
  have hstart : m.start = { m with
      pool := p
      workingBuffer := some f
      writeBuffer := ⟨(p.frame f).data, (p.frame f).dataSize, 0⟩ } := by
    simp only [FrameBufferManager.start, hp]
  have hdata : (p.frame f).data = some b := by
    rw [hacq.frame]
    rfl
  have hsize : (p.frame f).dataSize = m.pool.requiredFrameSize := by
    rw [hacq.frame]
    rfl
  rw [hstart]
  refine ⟨⟨hacq.owned, fun g hg => ?_, fun g hg => ?_, fun g hg => ?_, h.frameID⟩, rfl, rfl, rfl, rfl, hacq.grows⟩
  · rw [Option.some_inj] at hg
    exact hg ▸ hacq.fresh
  · rw [Option.some_inj] at hg
    rw [← hg]
    refine ⟨rfl, fun c hc => ?_⟩
    simp only at hc ⊢
    rw [hdata, Option.some_inj] at hc
    rw [hsize, ← hc, hacq.block]
  · have hshows := (h.shows g hg).of_view (hacq.kept g hg)
    exact ⟨hshows.frameIndex, hshows.contents⟩

lemma Sound.stop (h : Sound m held) : ∃ n, m.stop = some n ∧ Sound n held ∧ n.workingBuffer = none ∧
    n.latched = m.latched ∧ n.serial = m.serial ∧ n.pool.frames = m.pool.frames := by
  cases hw : m.workingBuffer with
  | none => exact ⟨m, by simp only [FrameBufferManager.stop, hw], h, hw, rfl, rfl, rfl⟩
  | some f =>
    have hrefs : references m held = f ::ₘ references { m with workingBuffer := none } held := by
      simp [references, hw]
    have howned := h.owned
    rw [hrefs] at howned
    obtain ⟨p, hp, howned', hview, hframes, -⟩ := howned.release
    refine ⟨{ m with pool := p, workingBuffer := none }, ?_, ⟨howned', (fun g hg => nomatch hg),
      (fun g hg => nomatch hg), fun g hg => ?_, h.frameID⟩, rfl, rfl, rfl, hframes⟩
    · simp only [FrameBufferManager.stop, hw, FrameBufferManager.release, hp, Option.map_some]
    · have hshows := (h.shows g hg).of_view (hview g (mem_references.mpr (.inr hg)))
      exact ⟨hshows.frameIndex, hshows.contents⟩

lemma Sound.reset (h : Sound m held) : Sound m.reset held where
  owned := h.owned
  unshared := h.unshared
  writes f hf := ⟨(h.writes f hf).data, (h.writes f hf).room⟩
  shows f hf := ⟨(h.shows f hf).frameIndex, (h.shows f hf).contents⟩
  frameID := h.frameID

/-- What the operations on the working buffer leave alone. -/
structure Kept (m n : FrameBufferManager) : Prop where
  working : n.workingBuffer = m.workingBuffer
  latched : n.latched = m.latched
  serial : n.serial = m.serial
  frames : n.pool.frames = m.pool.frames

lemma Sound.write {bytes : List UInt8} (h : Sound m held) (hworking : m.workingBuffer.isSome)
    (hroom : m.writeBuffer.size+bytes.length ≤ m.writeBuffer.maxSize) :
    ∃ n, m.write bytes = some n ∧ Sound n held ∧ Kept m n ∧
      ∀ now, Current m now → Current n (now ++ bytes) := by
  obtain ⟨f, hw⟩ := Option.isSome_iff_exists.mp hworking
  have hmem : f ∈ references m held := mem_references.mpr (.inl hw)
  obtain ⟨b, hb⟩ := h.owned.used f hmem
  have hdata : m.writeBuffer.data = some b := (h.writes f hw).data.trans hb.data
  have hfits : m.writeBuffer.size+bytes.length ≤ (m.pool.block b).size :=
    hroom.trans ((h.writes f hw).room b hb.data)
  set block := { m.pool.block b with bytes := (m.pool.block b).bytes.take m.writeBuffer.size ++ bytes }
  have hother : ∀ c, c ≠ b → (m.pool.setBlock b block).block c = m.pool.block c :=
    fun c hc => Function.update_of_ne hc ..
  have hunused : ∀ g ∈ held, (m.pool.frame g).data ≠ some b := by
    intro g hg hgdata
    rw [← hb.data] at hgdata
    have hgf := h.owned.distinct g (mem_references.mpr (.inr hg)) f hmem hgdata
    exact h.unshared f hw (hgf ▸ hg)
  refine ⟨{ m with
    pool := m.pool.setBlock b block
    writeBuffer := { m.writeBuffer with size := m.writeBuffer.size+bytes.length } }, ?_, ⟨h.owned.setBytes b _,
    h.unshared, fun g hg => ⟨(h.writes g hg).data, fun c hc => ?_⟩, fun g hg => ?_, h.frameID⟩,
    ⟨rfl, rfl, rfl, rfl⟩, fun now hnow g hg => ?_⟩
  · simp only [FrameBufferManager.write, hdata]
    rw [if_pos ⟨hb.live, hfits⟩]
  · have hroom := (h.writes g hg).room c hc
    by_cases hcb : c = b
    · have hself : (m.pool.setBlock b block).block b = block := Function.update_self ..
      rw [hcb] at hroom ⊢
      simp only [hself]
      exact hroom
    · simp only [hother c hcb]
      exact hroom
  · have hview : view g (m.pool.setBlock b block) = view g m.pool := by
      refine view_of_eq rfl fun c hc => hother c fun hcb => ?_
      exact hunused g hg (hcb ▸ hc)
    have hshows := (h.shows g hg).of_view hview
    exact ⟨hshows.frameIndex, hshows.contents⟩
  · have hgf : f = g := Option.some_inj.mp (hw.symm.trans hg)
    obtain ⟨hnow, hlength⟩ := hnow f hw
    have hself : (m.pool.setBlock b block).block b = block := Function.update_self ..
    have hframe : ((m.pool.setBlock b block).frame g).data = some b := hgf ▸ hb.data
    simp only [written, hb.data] at hnow
    simp only [written, hframe, hself]
    refine ⟨?_, by rw [List.length_append, hlength]⟩
    simp only [block]
    rw [hnow, hlength, ← List.length_append, List.take_length]

/-- A frame has been made stable. -/
structure Latched (m : FrameBufferManager) (held : Multiset ℕ) (f : ℕ) (n : FrameBufferManager) : Prop where
  sound : Sound n (f ::ₘ held)
  worked : m.workingBuffer = some f
  fresh : f ∉ held
  working : n.workingBuffer.isSome
  latched : n.latched = m.latched ++ [written f m]
  current : n.writeBuffer.size = 0
  serial : n.serial = Function.update m.serial f m.latched.length
  frames : n.pool.frames = m.pool.frames ∨
    n.pool.frames = m.pool.frames+1 ∧ ∀ g < m.pool.frames, g ∈ f ::ₘ held

/-- The fields of the working buffer are set without touching what is held. -/
lemma Sound.setDataSize {g : ℕ} (h : Sound m held) (hw : m.workingBuffer = some g) (size : ℕ) :
    Sound { m with pool := m.pool.setFrame g { m.pool.frame g with dataSize := size } } held := by
  have hmem : g ∈ references m held := mem_references.mpr (.inl hw)
  have howned : Owned (m.pool.setFrame g { m.pool.frame g with dataSize := size }) (references m held) :=
    h.owned.reframe (fun _ => Iff.rfl) (fun _ _ => rfl) (h.owned.counted g (h.owned.allocated g hmem))
  have hdata := setFrame_field (p := m.pool) (f := g) OniFrame.data { m.pool.frame g with dataSize := size } rfl
  refine ⟨howned, h.unshared, fun f hf => ⟨?_, fun b hb => ?_⟩, fun f hf => ?_, h.frameID⟩
  · exact (h.writes f hf).data.trans (hdata f).symm
  · exact (h.writes f hf).room b ((hdata f).symm.trans hb)
  · have hne : f ≠ g := fun heq => h.unshared g hw (heq ▸ hf)
    exact (h.shows f hf).of_view (view_of_eq (setFrame_of_ne hne) fun _ _ => rfl)

lemma contents_latch (f : ℕ) (i : BitVec 32) (m : FrameBufferManager) :
    contents f (m.pool.setFrame f { m.pool.frame f with dataSize := m.writeBuffer.size, frameIndex := i }) =
      written f m := by
  simp only [contents, written, setFrame_self]
  rfl

/-- The manager after its working buffer has become stable, without another one. -/
def latch (f : ℕ) (m : FrameBufferManager) : FrameBufferManager :=
  let pool := m.pool.setFrame f { m.pool.frame f with
    dataSize := m.writeBuffer.size
    frameIndex := m.stableFrameID+1 }
  { m with
    pool := pool
    workingBuffer := none
    stableFrameID := m.stableFrameID+1
    latched := m.latched ++ [contents f pool]
    serial := Function.update m.serial f m.latched.length }

lemma markWriteBufferAsStable_eq (hw : m.workingBuffer = some f) : m.markWriteBufferAsStable =
    (latch f m).start.workingBuffer.map fun g => (f, { (latch f m).start with
      pool := (latch f m).start.pool.setFrame g { (latch f m).start.pool.frame g with dataSize := 0 } }) := by
  simp only [FrameBufferManager.markWriteBufferAsStable, hw]
  rfl

lemma Sound.latch (h : Sound m held) (hw : m.workingBuffer = some f) :
    Sound (FrameBuffers.latch f m) (f ::ₘ held) := by
  have hrefs : references m held = f ::ₘ held := by simp [references, hw]
  have hnone : references (FrameBuffers.latch f m) (f ::ₘ held) = f ::ₘ held := by
    simp [references, FrameBuffers.latch]
  have howned := h.owned
  rw [hrefs] at howned
  refine ⟨?_, (fun g hg => nomatch hg), (fun g hg => nomatch hg), fun g hg => ?_, ?_⟩
  · rw [hnone]
    exact howned.reframe (fun _ => Iff.rfl) (fun _ _ => rfl)
      (howned.counted f (howned.allocated f (Multiset.mem_cons_self f held)))
  · by_cases hgf : g = f
    · rw [hgf]
      constructor
      · simp [FrameBuffers.latch, Pool.setFrame, h.frameID, BitVec.ofNat_add]
      · simp [FrameBuffers.latch]
    · have hheld := (Multiset.mem_cons.mp hg).resolve_left hgf
      have hview : view g (FrameBuffers.latch f m).pool = view g m.pool :=
        view_of_eq (setFrame_of_ne hgf) fun _ _ => rfl
      have hshows := (h.shows g hheld).of_view hview
      have hserial : (FrameBuffers.latch f m).serial g = m.serial g := Function.update_of_ne hgf ..
      obtain ⟨hlt, -⟩ := List.getElem?_eq_some_iff.mp (h.shows g hheld).contents
      refine ⟨hserial ▸ hshows.frameIndex, ?_⟩
      rw [hserial, FrameBuffers.latch, List.getElem?_append_left hlt]
      exact hshows.contents
  · simp [FrameBuffers.latch, h.frameID, BitVec.ofNat_add]

lemma Sound.markWriteBufferAsStable (h : Sound m held) (hworking : m.workingBuffer.isSome) :
    ∃ f n, m.markWriteBufferAsStable = some (f, n) ∧ Latched m held f n := by
  obtain ⟨f, hw⟩ := Option.isSome_iff_exists.mp hworking
  have hstarted := (h.latch hw).start rfl
  obtain ⟨g, hg⟩ := Option.isSome_iff_exists.mp hstarted.working
  have hmark := (markWriteBufferAsStable_eq hw).trans (congrArg (Option.map _) hg)
  have hlatched : (FrameBuffers.latch f m).latched = m.latched ++ [written f m] :=
    congrArg (fun bytes => m.latched ++ [bytes]) (contents_latch f _ m)
  exact ⟨f, _, hmark, hstarted.sound.setDataSize hg 0, hw, h.unshared f hw, hstarted.working,
    hstarted.latched.trans hlatched, hstarted.current, hstarted.serial, hstarted.frames⟩

end WaterHarp.FrameBuffers
