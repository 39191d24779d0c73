import Mathlib

/-! The frames of a sensor: `xnl::Pool`, `FrameManager` and the buffer pool of `Sensor`.
Frames and blocks of memory are numbered as they are allocated. An operation which
would touch memory wrongly has no result. -/
namespace WaterHarp.FramePool

structure Block where
  size : ℕ
  bytes : List UInt8
  live : Bool
  deriving DecidableEq, Repr

inductive FreeBufferFunc
  | releaseFrameBufferToPool
  | freeFrameBufferMemory
  deriving DecidableEq, Repr

/-- `OniFrameInternal`, and the count which the pool keeps of its own. A cookie is
either the sensor or NULL. -/
structure OniFrame where
  dataSize : ℕ
  data : Option ℕ
  frameIndex : BitVec 32
  refCount : ℤ
  backToPoolFunc : Bool
  backToPoolFuncCookie : Bool
  freeBufferFunc : Option FreeBufferFunc
  poolRefCount : ℤ
  deriving DecidableEq, Repr

/-- `available` is the list which begins at `m_pFirstAvailable`. -/
structure Pool where
  frame : ℕ → OniFrame
  frames : ℕ
  available : List ℕ
  block : ℕ → Block
  blocks : ℕ
  requiredFrameSize : ℕ
  availableFrameBuffers : List ℕ
  currentStreamFrames : List ℕ

namespace Pool

def setFrame (f : ℕ) (frame : OniFrame) (p : Pool) : Pool := { p with frame := Function.update p.frame f frame }

def setBlock (b : ℕ) (block : Block) (p : Pool) : Pool := { p with block := Function.update p.block b block }

/-- `xnOSMallocAligned`. -/
def malloc (size : ℕ) (p : Pool) : ℕ × Pool :=
  (p.blocks, { p.setBlock p.blocks ⟨size, [], true⟩ with blocks := p.blocks+1 })

/-- `xnOSFreeAligned`. -/
def free (b : ℕ) (p : Pool) : Option Pool :=
  if (p.block b).live then some (p.setBlock b { p.block b with live := false }) else none

/-- `Pool::Acquire`. -/
def acquire (p : Pool) : ℕ × Pool :=
  match p.available with
  | [] => (p.frames, { p with frames := p.frames+1 })
  | f :: rest => (f, { p with available := rest })

/-- What `Pool::Acquire` and `FrameManager::acquireFrame` set in a frame. -/
def reset : OniFrame := ⟨0, none, 0, 1, false, false, none, 1⟩

/-- `FrameManager::acquireFrame`. -/
def managerAcquireFrame (p : Pool) : ℕ × Pool :=
  let (f, p) := p.acquire
  (f, p.setFrame f reset)

def addRef (f : ℕ) (p : Pool) : Pool :=
  p.setFrame f { p.frame f with refCount := (p.frame f).refCount+1 }

def allocFrameBufferFromPool (size : ℕ) (p : Pool) : ℕ × Pool :=
  match p.availableFrameBuffers with
  | [] => p.malloc size
  | b :: rest => (b, { p with availableFrameBuffers := rest })

def releaseFrameBufferToPool (b : ℕ) (p : Pool) : Pool :=
  { p with availableFrameBuffers := p.availableFrameBuffers ++ [b] }

def freeBuffer (func : Option FreeBufferFunc) (b : ℕ) (p : Pool) : Option Pool :=
  match func with
  | none => none
  | some .releaseFrameBufferToPool => some (p.releaseFrameBufferToPool b)
  | some .freeFrameBufferMemory => p.free b

def frameBackToPool (f : ℕ) (p : Pool) : Option Pool :=
  let released :=
    match (p.frame f).data with
    | none => some p
    | some b => (p.freeBuffer (p.frame f).freeBufferFunc b).map fun p => p.setFrame f { p.frame f with data := none }
  if (p.frame f).backToPoolFuncCookie then
    released.map fun p => { p with currentStreamFrames := p.currentStreamFrames.erase f }
  else released

/-- `Pool::Release`. -/
def poolRelease (f : ℕ) (p : Pool) : Pool :=
  let p := p.setFrame f { p.frame f with poolRefCount := (p.frame f).poolRefCount-1 }
  if (p.frame f).poolRefCount = 0 then { p with available := f :: p.available } else p

/-- `FrameManager::release`. -/
def release (f : ℕ) (p : Pool) : Option Pool :=
  let p := p.setFrame f { p.frame f with refCount := (p.frame f).refCount-1 }
  if (p.frame f).refCount = 0 then
    (if (p.frame f).backToPoolFunc then p.frameBackToPool f else some p).map (poolRelease f)
  else some p

/-- `Sensor::acquireFrame`. -/
def acquireFrame (p : Pool) : ℕ × Pool :=
  let (f, p) := p.managerAcquireFrame
  let (b, p) := p.allocFrameBufferFromPool p.requiredFrameSize
  let p := p.setFrame f { p.frame f with
    data := some b
    dataSize := p.requiredFrameSize
    backToPoolFunc := true
    backToPoolFuncCookie := true
    freeBufferFunc := some .releaseFrameBufferToPool }
  (f, { p with currentStreamFrames := p.currentStreamFrames ++ [f] })

/-- The frame is cut off from the sensor. -/
def disown (f : ℕ) (p : Pool) : Pool :=
  p.setFrame f { p.frame f with
    freeBufferFunc :=
      if (p.frame f).freeBufferFunc = some .releaseFrameBufferToPool then some .freeFrameBufferMemory
      else (p.frame f).freeBufferFunc
    backToPoolFuncCookie := false }

def freeAll : List ℕ → Pool → Option Pool
  | [], p => some p
  | b :: bs, p => (p.free b).bind (freeAll bs)

def releaseAllFrames (p : Pool) : Option Pool :=
  let p := p.currentStreamFrames.foldl (fun p f => p.disown f) p
  let p := { p with currentStreamFrames := [] }
  (freeAll p.availableFrameBuffers p).map fun p => { p with availableFrameBuffers := [] }

def setRequiredFrameSize (size : ℕ) (p : Pool) : Option Pool :=
  (if p.requiredFrameSize ≠ size then p.releaseAllFrames else some p).map fun p =>
    { p with requiredFrameSize := size }

end Pool

end WaterHarp.FramePool
