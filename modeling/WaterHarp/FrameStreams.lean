import WaterHarp.FrameBuffers

/-! The streams of a sensor. The thread of the driver offers each stable frame to the
streams, one after the other; the clients start the streams, read and release frames, and
stop them. The actions of the threads interleave in any order. A stream has one client
which reads it at a time, and is started and stopped by one thread at a time. -/
namespace WaterHarp.FrameStreams
open FramePool FrameBuffers

/-- How far the client of a stream has come in `readFrame`. -/
inductive Reader
  | idle
  | peeked
  | woken
  deriving DecidableEq, Repr

/-- `VideoStream` with its `StreamFrameHolder`. Between the two halves of `stop` the
stream is `stopping`. It is `cleared` when it has been started or stopped since its client
saw a frame. -/
structure VideoStream where
  started : Bool
  stopping : Bool
  lastFrame : Option ℕ
  newFrameEvent : Bool
  reader : Reader
  cleared : Bool
  deriving DecidableEq, Repr

/-- Where the thread of the driver is: it may write, or it has a stable frame for the
streams which remain, the first of which was found started or has got the frame. -/
inductive Driver (n : ℕ)
  | writing
  | offering (f : ℕ) (rest : List (Fin n))
  | accepted (f : ℕ) (i : Fin n) (rest : List (Fin n))
  | stored (f : ℕ) (i : Fin n) (rest : List (Fin n))
  deriving DecidableEq, Repr

namespace Driver
variable {n : ℕ}

/-- The stable frame. -/
def frame : Driver n → Option ℕ
  | .writing => none
  | .offering f _ => some f
  | .accepted f _ _ => some f
  | .stored f _ _ => some f

/-- The streams which it may still be given to. -/
def pending : Driver n → List (Fin n)
  | .writing => []
  | .offering _ rest => rest
  | .accepted _ i rest => i :: rest
  | .stored _ _ rest => rest

end Driver

/-- A frame which a client has read from a stream: the pointer, and which of the stable
frames it was. -/
structure Taken (n : ℕ) where
  stream : Fin n
  frame : ℕ
  serial : ℕ
  deriving DecidableEq, Repr

/-- What `readFrame` has returned, and whether the stream was `cleared`. -/
structure Read (n : ℕ) where
  stream : Fin n
  serial : Option ℕ
  cleared : Bool
  deriving DecidableEq, Repr

/-- `reads` is the history of what the streams have returned. -/
structure System (n : ℕ) where
  manager : FrameBufferManager
  startedStreamCount : ℕ
  stream : Fin n → VideoStream
  driver : Driver n
  held : List (Taken n)
  reads : List (Read n)

def bootPool : Pool := ⟨fun _ => Pool.reset, 0, [], fun _ => ⟨0, [], false⟩, 0, 0, [], []⟩

def init (n : ℕ) : System n where
  manager := ⟨bootPool, none, ⟨none, 0, 0⟩, 0, [], fun _ => 0⟩
  startedStreamCount := 0
  stream _ := ⟨false, false, none, false, .idle, false⟩
  driver := .writing
  held := []
  reads := []

namespace System
variable {n : ℕ}

def setStream (i : Fin n) (v : VideoStream) (s : System n) : System n :=
  { s with stream := Function.update s.stream i v }

def releaseFrame (f : ℕ) (s : System n) : Option (System n) :=
  (s.manager.release f).map fun m => { s with manager := m }

/-- The last frame of a stream is released. -/
def releaseLast (i : Fin n) (s : System n) : Option (System n) :=
  match (s.stream i).lastFrame with
  | none => some s
  | some f => s.releaseFrame f

/-- `StreamFrameHolder::clear`. -/
def clear (i : Fin n) (s : System n) : Option (System n) :=
  (s.releaseLast i).map fun s => s.setStream i { s.stream i with lastFrame := none, cleared := true }

/-- The first stream to start sets the size of the frames and starts the driver. -/
def startDriver (size : ℕ) (s : System n) : Option (System n) :=
  if s.startedStreamCount = 0 then
    (s.manager.pool.setRequiredFrameSize size).map fun p =>
      { s with manager := { s.manager with pool := p }.start }
  else some s

/-- The last stream to stop stops the driver. -/
def stopDriver (s : System n) : Option (System n) :=
  if s.startedStreamCount = 0 then s.manager.stop.map fun m => { s with manager := m } else some s

def countStream (k : ℕ) (s : System n) : System n := { s with startedStreamCount := k }

/-- `VideoStream::start`. -/
def start (i : Fin n) (size : ℕ) (s : System n) : Option (System n) :=
  (s.clear i).bind fun s => (s.startDriver size).bind fun s =>
    ((s.countStream (s.startedStreamCount+1)).clear i).map fun s =>
      s.setStream i { s.stream i with started := true }

/-- `VideoStream::stop` up to `setStreamEnabled`. -/
def stop (i : Fin n) (s : System n) : Option (System n) :=
  (s.setStream i { s.stream i with started := false, stopping := true }).clear i

/-- The rest of `VideoStream::stop`. -/
def stopped (i : Fin n) (s : System n) : Option (System n) :=
  (s.countStream (s.startedStreamCount-1)).stopDriver.bind fun s =>
    (s.clear i).map fun s => s.setStream i { s.stream i with stopping := false }

def resetBuffer (s : System n) : System n := { s with manager := s.manager.reset }

def write (bytes : List UInt8) (s : System n) : Option (System n) :=
  (s.manager.write bytes).map fun m => { s with manager := m }

/-- `MarkWriteBufferAsStable` up to its callback, which goes through the streams. -/
def markStable (s : System n) : Option (System n) :=
  s.manager.markWriteBufferAsStable.map fun r =>
    { s with manager := r.2, driver := .offering r.1 (List.finRange n) }

/-- `stream_NewFrame` of the next stream, which ignores the frame unless it is started. -/
def offer (f : ℕ) (i : Fin n) (rest : List (Fin n)) (s : System n) : System n :=
  { s with driver := if (s.stream i).started then .accepted f i rest else .offering f rest }

/-- `StreamFrameHolder::processNewFrame` inside its lock. -/
def store (f : ℕ) (i : Fin n) (rest : List (Fin n)) (s : System n) : Option (System n) :=
  (s.releaseLast i).map fun s =>
    { s.setStream i { s.stream i with lastFrame := some f } with
      manager := s.manager.addRef f
      driver := .stored f i rest }

def raiseNewFrameEvent (f : ℕ) (i : Fin n) (rest : List (Fin n)) (s : System n) : System n :=
  { s.setStream i { s.stream i with newFrameEvent := true } with driver := .offering f rest }

/-- `MarkWriteBufferAsStable` gives up its reference at its end. -/
def finish (f : ℕ) (s : System n) : Option (System n) :=
  (s.releaseFrame f).map fun s => { s with driver := .writing }

/-- `waitForStreams` finds a frame. -/
def peek (i : Fin n) (s : System n) : System n :=
  s.setStream i { s.stream i with reader := .peeked, cleared := false }

/-- `waitForNewFrameEvent` resets the event. -/
def wake (i : Fin n) (s : System n) : System n :=
  s.setStream i { s.stream i with newFrameEvent := false, reader := .woken }

/-- `StreamFrameHolder::readFrame` inside its lock. -/
def take (i : Fin n) (s : System n) : System n :=
  let lastFrame := (s.stream i).lastFrame
  { s.setStream i { s.stream i with lastFrame := none, reader := .idle } with
    held := (lastFrame.map fun f => ⟨i, f, s.manager.serial f⟩).toList ++ s.held
    reads := s.reads ++ [⟨i, lastFrame.map s.manager.serial, (s.stream i).cleared⟩] }

def addFrameRef (t : Taken n) (s : System n) : System n :=
  { s with manager := s.manager.addRef t.frame, held := t :: s.held }

def frameRelease (t : Taken n) (s : System n) : Option (System n) :=
  (s.releaseFrame t.frame).map fun s => { s with held := s.held.erase t }

end System

/-- The actions of the threads. -/
inductive Event (n : ℕ)
  | start (i : Fin n) (size : ℕ)
  | stop (i : Fin n)
  | stopped (i : Fin n)
  | reset
  | write (bytes : List UInt8)
  | markStable
  | offer (f : ℕ) (i : Fin n) (rest : List (Fin n))
  | store (f : ℕ) (i : Fin n) (rest : List (Fin n))
  | raise (f : ℕ) (i : Fin n) (rest : List (Fin n))
  | finish (f : ℕ)
  | peek (i : Fin n)
  | wake (i : Fin n)
  | take (i : Fin n)
  | addRef (t : Taken n)
  | release (t : Taken n)
  deriving DecidableEq, Repr

variable {n : ℕ}

/-- Which actions the threads may come to. A stream may be stopped and started while its
client is in `readFrame`. The depth processors check the space in the buffer before they
write, and the driver is stopped when it has no frame in its hands. -/
def Enabled (s : System n) : Event n → Prop
  | .start i _ => (s.stream i).stopping = false ∧ (s.stream i).started = false
  | .stop i => (s.stream i).stopping = false ∧ (s.stream i).started = true
  | .stopped i => (s.stream i).stopping = true ∧ (s.startedStreamCount = 1 → s.driver = .writing)
  | .reset => s.driver = .writing
  | .write bytes => s.driver = .writing ∧ s.manager.workingBuffer.isSome ∧
      s.manager.writeBuffer.size+bytes.length ≤ s.manager.writeBuffer.maxSize
  | .markStable => s.driver = .writing ∧ s.manager.workingBuffer.isSome
  | .offer f i rest => s.driver = .offering f (i :: rest)
  | .store f i rest => s.driver = .accepted f i rest
  | .raise f i rest => s.driver = .stored f i rest
  | .finish f => s.driver = .offering f []
  | .peek i => (s.stream i).reader = .idle ∧ (s.stream i).lastFrame.isSome
  | .wake i => (s.stream i).reader = .peeked ∧ (s.stream i).newFrameEvent = true
  | .take i => (s.stream i).reader = .woken
  | .addRef t => t ∈ s.held
  | .release t => t ∈ s.held

/-- An action has no result when it would touch memory wrongly. Each release and each start
is one action: no frame goes back to its pool while a stream starts with another frame
size. Allocations succeed, and so does `streamStart`. -/
def step (s : System n) : Event n → Option (System n)
  | .start i size => s.start i size
  | .stop i => s.stop i
  | .stopped i => s.stopped i
  | .reset => some s.resetBuffer
  | .write bytes => s.write bytes
  | .markStable => s.markStable
  | .offer f i rest => some (s.offer f i rest)
  | .store f i rest => s.store f i rest
  | .raise f i rest => some (s.raiseNewFrameEvent f i rest)
  | .finish f => s.finish f
  | .peek i => some (s.peek i)
  | .wake i => some (s.wake i)
  | .take i => some (s.take i)
  | .addRef t => some (s.addFrameRef t)
  | .release t => s.frameRelease t

/-- The states of all runs. -/
inductive Reachable : System n → Prop
  | init : Reachable (init n)
  | step {s t : System n} {e : Event n} (h : Reachable s) (he : Enabled s e) (ht : step s e = some t) :
    Reachable t

end WaterHarp.FrameStreams
