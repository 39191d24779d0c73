import WaterHarp.EventLog

/-! The board of `WaterDrip.ino` seen from the sketch: every call of the Arduino
core is logged, and bytes may arrive on the serial line before any of them. -/
namespace WaterHarp.SketchWorld
open Program EventLog

inductive SketchError
  | outOfBounds
  | noReading
  deriving DecidableEq, Repr

inductive Event
  | write (pin : ℕ) (level : Bool)
  | report (n : ℕ) (isOpen : Bool) (pin : ℕ) (state : Bool)
  | delay (ms : ℕ)
  | millis (now : BitVec 32)
  | available (bytes : ℕ)
  | read (byte : UInt8)
  | print (text : String)
  | showline (line : BitVec 16)
  deriving DecidableEq, Repr

/-- The pins of `FPBoard.h`, each solenoid on its own, and what they read back,
which may depend on all that has happened. -/
structure Board where
  solenoidEnables : Fin 16 → ℕ
  distinct : Function.Injective solenoidEnables
  ds18b20Ext : ℕ
  digitalRead : List Event → ℕ → Bool

/-- `arrivals` and `readings` are what the serial line and the clock will bring. -/
structure World where
  level : ℕ → Bool
  pending : List UInt8
  arrivals : List (List UInt8)
  readings : List (BitVec 32)
  cur : ℕ
  trace : List Event

namespace World

def tick (w : World) : World :=
  { w with pending := w.pending ++ w.arrivals.headD [], arrivals := w.arrivals.tail }

def log (e : Event) (w : World) : World := { w.tick with trace := w.trace ++ [e] }

def unread (w : World) : List UInt8 := w.pending ++ w.arrivals.flatten

end World

def boot (level : ℕ → Bool) (arrivals : List (List UInt8)) (readings : List (BitVec 32)) : World :=
  ⟨level, [], arrivals, readings, 0, []⟩

def delay (ms : ℕ) (w : World) : World := w.log (.delay ms)

def print (text : String) (w : World) : World := w.log (.print text)

def printAll (texts : List String) (w : World) : World := texts.foldl (fun w text => print text w) w

def digitalWrite (pin : ℕ) (level : Bool) (w : World) : World :=
  { w.log (.write pin level) with level := Function.update w.level pin level }

/-- The count is the length of `pending` in the world returned. -/
def available (w : World) : World := w.log (.available w.tick.pending.length)

def read (w : World) : UInt8 × World :=
  match w.tick.pending with
  | [] => (255, w.tick)
  | byte :: pending => (byte, { w.log (.read byte) with pending := pending })

def millis (w : World) : Option (BitVec 32 × World) :=
  match w.readings with
  | [] => none
  | now :: readings => some (now, { w.log (.millis now) with readings := readings })

/-- Set solenoid `n` (0..15) as open or closed. -/
def solenoid (b : Board) (n : ℕ) (isOpen : Bool) (w : World) : Outcome SketchError World :=
  if h : n < 16 then
    let pin := b.solenoidEnables ⟨n, h⟩
    let w := digitalWrite pin isOpen w
    let state := b.digitalRead w.trace pin
    if state ≠ isOpen then .done (delay 5000 (w.log (.report n isOpen pin state))) else .done w
  else .raised .outOfBounds (print "Assert failed" w)

/-! What is seen in a log. -/

def Event.writeOn (pin : ℕ) : Event → Option Bool
  | .write p level => if p = pin then some level else none
  | _ => none

def Event.lineShown : Event → Option (BitVec 16)
  | .showline line => some line
  | _ => none

def Event.byteRead : Event → Option UInt8
  | .read byte => some byte
  | _ => none

def Event.bytesSeen : Event → Option ℕ
  | .available bytes => some bytes
  | _ => none

def Event.clockRead : Event → Option (BitVec 32)
  | .millis now => some now
  | _ => none

def writesOn (pin : ℕ) (es : List Event) : List Bool := es.filterMap (Event.writeOn pin)
def lines (es : List Event) : List (BitVec 16) := es.filterMap Event.lineShown
def reads (es : List Event) : List UInt8 := es.filterMap Event.byteRead
def checks (es : List Event) : List ℕ := es.filterMap Event.bytesSeen
def clock (es : List Event) : List (BitVec 32) := es.filterMap Event.clockRead

def writesTo (b : Board) (n : Fin 16) (es : List Event) : List Bool := writesOn (b.solenoidEnables n) es

@[simp] lemma writesOn_append (pin : ℕ) (es fs : List Event) :
    writesOn pin (es ++ fs) = writesOn pin es ++ writesOn pin fs := List.filterMap_append

@[simp] lemma lines_append (es fs : List Event) : lines (es ++ fs) = lines es ++ lines fs :=
  List.filterMap_append

@[simp] lemma reads_append (es fs : List Event) : reads (es ++ fs) = reads es ++ reads fs :=
  List.filterMap_append

@[simp] lemma checks_append (es fs : List Event) : checks (es ++ fs) = checks es ++ checks fs :=
  List.filterMap_append

@[simp] lemma clock_append (es fs : List Event) : clock (es ++ fs) = clock es ++ clock fs :=
  List.filterMap_append

instance : Inhabited Board := ⟨⟨fun n => n, Fin.val_injective, 16, fun es pin => (writesOn pin es).getLastD false⟩⟩

/-- The events account for the change of the levels and of the unread bytes. -/
structure Acts (w : World) (es : List Event) (w' : World) : Prop where
  trace : w'.trace = w.trace ++ es
  level : ∀ pin, w'.level pin = (writesOn pin es).getLastD (w.level pin)
  bytes : reads es ++ w'.unread = w.unread

lemma Acts.trans {w w' w'' : World} {es fs : List Event} (h : Acts w es w') (g : Acts w' fs w'') :
    Acts w (es ++ fs) w'' where
  trace := by rw [g.trace, h.trace, List.append_assoc]
  level pin := by
    rw [g.level, h.level, writesOn_append]
    simp only [List.getLastD_eq_getLast?, List.getLast?_append]
    cases (writesOn pin fs).getLast? <;> rfl
  bytes := by rw [reads_append, List.append_assoc, g.bytes, h.bytes]

def sketchLog : Log World Event where
  Acts := Acts
  nil _ := ⟨by simp, fun _ => rfl, rfl⟩
  append h g := h.trans g

@[simp] lemma unread_tick (w : World) : w.tick.unread = w.unread := by
  cases h : w.arrivals <;> simp [World.tick, World.unread, h]

lemma log_acts {e : Event} (w : World) (hwrite : ∀ pin, e.writeOn pin = none)
    (hread : e.byteRead = none) : Acts w [e] (w.log e) where
  trace := rfl
  level pin := by simp [writesOn, hwrite, World.log, World.tick]
  bytes := by
    rw [show reads [e] = [] by simp [reads, hread]]
    exact unread_tick w

lemma delay_acts (ms : ℕ) (w : World) : Acts w [.delay ms] (delay ms w) :=
  log_acts w (fun _ => rfl) rfl

lemma print_acts (text : String) (w : World) : Acts w [.print text] (print text w) :=
  log_acts w (fun _ => rfl) rfl

lemma available_acts (w : World) : Acts w [.available (available w).pending.length] (available w) :=
  log_acts w (fun _ => rfl) rfl

lemma digitalWrite_acts (pin : ℕ) (level : Bool) (w : World) :
    Acts w [.write pin level] (digitalWrite pin level w) where
  trace := rfl
  level p := by
    by_cases hp : p = pin
    · subst hp
      simp [writesOn, Event.writeOn, digitalWrite]
    · simp [writesOn, Event.writeOn, digitalWrite, World.log, World.tick, hp, Ne.symm hp]
  bytes := unread_tick w

lemma read_acts {w : World} {byte : UInt8} {pending : List UInt8}
    (h : w.tick.pending = byte :: pending) :
    (read w).1 = byte ∧ (read w).2.cur = w.cur ∧ Acts w [.read byte] (read w).2 := by
  have hread : read w = (byte, { w.log (.read byte) with pending := pending }) := by rw [read, h]
  have hunread : w.unread = byte :: pending ++ w.tick.arrivals.flatten := by
    rw [← unread_tick, World.unread, h]
  rw [hread]
  exact ⟨rfl, rfl, rfl, fun pin => rfl, hunread.symm⟩

lemma millis_acts {w : World} {now : BitVec 32} {readings : List (BitVec 32)}
    (h : w.readings = now :: readings) :
    ∃ w', millis w = some (now, w') ∧ w'.readings = readings ∧ Acts w [.millis now] w' := by
  refine ⟨{ w.log (.millis now) with readings := readings }, by rw [millis, h], rfl, rfl, fun _ => rfl, ?_⟩
  exact unread_tick w

structure Steady (w w' : World) : Prop where
  cur : w'.cur = w.cur
  readings : w'.readings = w.readings

lemma Steady.refl (w : World) : Steady w w := ⟨rfl, rfl⟩

lemma Steady.trans {w w' w'' : World} (h : Steady w w') (g : Steady w' w'') : Steady w w'' :=
  ⟨g.cur.trans h.cur, g.readings.trans h.readings⟩

structure Quiet (es : List Event) : Prop where
  lines : lines es = []
  reads : reads es = []
  checks : checks es = []
  clock : clock es = []

lemma Quiet.before {es : List Event} (h : Quiet es) (fs : List Event) :
    SketchWorld.lines (es ++ fs) = SketchWorld.lines fs ∧ SketchWorld.reads (es ++ fs) = SketchWorld.reads fs ∧
    SketchWorld.checks (es ++ fs) = SketchWorld.checks fs ∧ SketchWorld.clock (es ++ fs) = SketchWorld.clock fs := by
  simp [h.lines, h.reads, h.checks, h.clock]

lemma Quiet.after {fs : List Event} (h : Quiet fs) (es : List Event) :
    SketchWorld.lines (es ++ fs) = SketchWorld.lines es ∧ SketchWorld.reads (es ++ fs) = SketchWorld.reads es ∧
    SketchWorld.checks (es ++ fs) = SketchWorld.checks es ∧ SketchWorld.clock (es ++ fs) = SketchWorld.clock es := by
  simp [h.lines, h.reads, h.checks, h.clock]

lemma Quiet.append {es fs : List Event} (h : Quiet es) (g : Quiet fs) : Quiet (es ++ fs) := by
  obtain ⟨hlines, hreads, hchecks, hclock⟩ := h.before fs
  exact ⟨hlines.trans g.lines, hreads.trans g.reads, hchecks.trans g.checks, hclock.trans g.clock⟩

lemma Quiet.flatten {segments : List (List Event)} (h : ∀ es ∈ segments, Quiet es) :
    Quiet segments.flatten := by
  induction segments with
  | nil => exact ⟨rfl, rfl, rfl, rfl⟩
  | cons es segments ih =>
    exact (h es (by simp)).append (ih fun fs hfs => h fs (by simp [hfs]))

lemma printAll_acts (texts : List String) (w : World) :
    ∃ es, Acts w es (printAll texts w) ∧ Quiet es ∧ Steady w (printAll texts w) := by
  induction texts generalizing w with
  | nil => exact ⟨[], sketchLog.nil w, ⟨rfl, rfl, rfl, rfl⟩, Steady.refl w⟩
  | cons text texts ih =>
    obtain ⟨es, hacts, hquiet, hsteady⟩ := ih (print text w)
    have hbegin : Steady w (print text w) := ⟨rfl, rfl⟩
    exact ⟨_, (print_acts text w).trans hacts, Quiet.append ⟨rfl, rfl, rfl, rfl⟩ hquiet, hbegin.trans hsteady⟩

/-- `solenoid` drives its own pin once, also when it reads back another level. -/
lemma solenoid_performs (b : Board) (n : Fin 16) (isOpen : Bool) (w : World) :
    Performs sketchLog (solenoid b n isOpen) w (fun es w' =>
      (∀ m, writesTo b m es = if m = n then [isOpen] else []) ∧ Quiet es ∧ Steady w w') := by
  set pin := b.solenoidEnables n with hpin
  have hwrite := digitalWrite_acts pin isOpen w
  have hsteady : Steady w (digitalWrite pin isOpen w) := ⟨rfl, rfl⟩
  have hquiet : Quiet [Event.write pin isOpen] := ⟨rfl, rfl, rfl, rfl⟩
  have hto (m : Fin 16) : writesTo b m [.write pin isOpen] = if m = n then [isOpen] else [] := by
    simp [writesTo, writesOn, Event.writeOn, hpin, b.distinct.eq_iff, eq_comm, List.filterMap_cons]
    split_ifs <;> rfl
  by_cases hstate : b.digitalRead (digitalWrite pin isOpen w).trace pin = isOpen
  · refine performs_done ?_ hwrite ⟨hto, hquiet, hsteady⟩
    simp [solenoid, ← hpin, hstate]
  · set state := b.digitalRead (digitalWrite pin isOpen w).trace pin
    have hreport := log_acts (e := .report n isOpen pin state) (digitalWrite pin isOpen w)
      (fun _ => rfl) rfl
    have hdelay := delay_acts 5000 ((digitalWrite pin isOpen w).log (.report n isOpen pin state))
    refine performs_done ?_ ((hwrite.trans hreport).trans hdelay)
      ⟨hto, hquiet.append ⟨rfl, rfl, rfl, rfl⟩, rfl, rfl⟩
    simp [solenoid, ← hpin, hstate, delay, state]

end WaterHarp.SketchWorld
