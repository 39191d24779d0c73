import WaterHarp.SerialPrint

/-! `sensorupdate` polls the timers of the seven sensors and updates the first one which
is due. Assignments to a timer, readings and printed texts are logged. -/
namespace WaterHarp.SensorUpdate
open SerialPrint

instance linearOrder : LinearOrder Int16 where
  le_refl := Int16.le_refl
  le_trans _ _ _ := Int16.le_trans
  le_antisymm _ _ := Int16.le_antisymm
  le_total := Int16.le_total
  lt_iff_le_not_ge _ _ := by
    rw [Int16.not_le]
    exact ⟨fun h => ⟨Int16.le_of_lt h, h⟩, fun h => h.2⟩
  min_def _ _ := rfl
  max_def _ _ := rfl
  toDecidableLE := inferInstance
  toDecidableLT := inferInstance
  toDecidableEq := inferInstance

inductive SensorEvent
  | update (i : Fin 7) (time : ℕ)
  | reading (i : Fin 7) (value : Int16)
  | print (text : List Char)
  deriving DecidableEq, Repr

structure Sensors where
  sensorValues : Fin 7 → Int16
  sensorLow : Fin 7 → Int16
  sensorHigh : Fin 7 → Int16
  lastsensorupdate : Fin 7 → BitVec 32
  trace : List SensorEvent

def boot : Sensors := ⟨fun _ => 0, fun _ => 32767, fun _ => -32768, fun _ => 0, []⟩

/-- What a call meets: the milliseconds since the boot, the microseconds at its start and
in its rounds, and the readings of the sensors as converted to `int16_t`. -/
structure Call where
  time : ℕ
  timer : BitVec 32
  micros : Fin 7 → BitVec 32
  temperature : Int16
  pressure : Int16
  solenoidVoltage : Int16
  solenoidCurrent : Int16

/-- The counter wraps. -/
def Call.millis (c : Call) : BitVec 32 := BitVec.ofNat 32 c.time

/-- The initialiser has six elements. -/
def updatePeriod : Fin 7 → BitVec 32 := ![5000, 1000, 1000, 500, 500, 500, 0]

def Sensors.log (e : SensorEvent) (s : Sensors) : Sensors := { s with trace := s.trace ++ [e] }

/-- The `switch`: the assignments for the other sensors are commented out. -/
def readSensor (c : Call) : Fin 7 → Option Int16
  | 1 => some c.temperature
  | 2 => some c.pressure
  | 3 => some c.solenoidVoltage
  | 4 => some c.solenoidCurrent
  | _ => none

def assignValue (c : Call) (i : Fin 7) (s : Sensors) : Sensors :=
  match readSensor c i with
  | none => s
  | some value => { s with sensorValues := Function.update s.sensorValues i value }.log (.reading i value)

def valueReport (i : Fin 7) (value : Int16) : List Char :=
  "Sensor ".toList ++ printInt i ++ ": ".toList ++ printInt value.toInt

/-- A value of 0 is taken for a bad reading. -/
def adjustExtremes (i : Fin 7) (s : Sensors) : Sensors :=
  if s.sensorValues i ≠ 0 then
    { s with
      sensorLow := Function.update s.sensorLow i (min (s.sensorLow i) (s.sensorValues i))
      sensorHigh := Function.update s.sensorHigh i (max (s.sensorHigh i) (s.sensorValues i)) }
  else s

/-- A value which has changed is reported and accounted for. -/
def account (i : Fin 7) (oldval : Int16) (s : Sensors) : Sensors :=
  if s.sensorValues i ≠ oldval then
    (adjustExtremes i (s.log (.print (valueReport i (s.sensorValues i))))).log (.print "\r\n".toList)
  else s

def updateSensor (c : Call) (i : Fin 7) (s : Sensors) : Sensors :=
  let s := { s with lastsensorupdate := Function.update s.lastsensorupdate i c.millis }.log (.update i c.time)
  let oldval := s.sensorValues i
  account i oldval (assignValue c i s)

def reportElapsed (c : Call) (i : Fin 7) (s : Sensors) : Sensors :=
  let elapsed := c.micros i-c.timer
  if 1000 < elapsed then
    s.log (.print ("sensorupdate took ".toList ++ printNumber dec elapsed.toNat ++ " micros.".toList))
  else s

/-- `millis() - lastsensorupdate[i] > updatePeriod[i]`. -/
def DueNow (c : Call) (s : Sensors) (i : Fin 7) : Prop := updatePeriod i < c.millis-s.lastsensorupdate i

instance (c : Call) (s : Sensors) (i : Fin 7) : Decidable (DueNow c s i) :=
  inferInstanceAs (Decidable (_ < _))

/-- The loop, which breaks after an update. -/
def sensorupdateFrom (c : Call) : List (Fin 7) → Sensors → Sensors
  | [], s => s
  | i :: is, s => if DueNow c s i then updateSensor c i s else sensorupdateFrom c is (reportElapsed c i s)

def sensorupdate (c : Call) (s : Sensors) : Sensors := sensorupdateFrom c (List.finRange 7) s

def getSensorValue (sensorNr : UInt8) (s : Sensors) : Option (Int16 × Int16 × Int16) :=
  if h : sensorNr.toNat < 7 then
    some (s.sensorValues ⟨_, h⟩, s.sensorLow ⟨_, h⟩, s.sensorHigh ⟨_, h⟩)
  else none

/-- The state after these calls. -/
def after (calls : List Call) : Sensors := calls.foldl (fun s c => sensorupdate c s) boot

lemma after_append_singleton (calls : List Call) (c : Call) :
    after (calls ++ [c]) = sensorupdate c (after calls) := by
  simp [after]

/-! What is seen in a log. -/

def SensorEvent.updated : SensorEvent → Option (Fin 7)
  | .update i _ => some i
  | _ => none

def SensorEvent.timeOf (i : Fin 7) : SensorEvent → Option ℕ
  | .update j time => if j = i then some time else none
  | _ => none

def SensorEvent.valueOf (i : Fin 7) : SensorEvent → Option Int16
  | .reading j value => if j = i then some value else none
  | _ => none

def updates (es : List SensorEvent) : List (Fin 7) := es.filterMap SensorEvent.updated
def updateTimes (i : Fin 7) (es : List SensorEvent) : List ℕ := es.filterMap (SensorEvent.timeOf i)
def readings (i : Fin 7) (es : List SensorEvent) : List Int16 := es.filterMap (SensorEvent.valueOf i)

@[simp] lemma updates_append (es fs : List SensorEvent) : updates (es ++ fs) = updates es ++ updates fs :=
  List.filterMap_append

@[simp] lemma updateTimes_append (i : Fin 7) (es fs : List SensorEvent) :
    updateTimes i (es ++ fs) = updateTimes i es ++ updateTimes i fs := List.filterMap_append

@[simp] lemma readings_append (i : Fin 7) (es fs : List SensorEvent) :
    readings i (es ++ fs) = readings i es ++ readings i fs := List.filterMap_append

def prints (texts : List (List Char)) : List SensorEvent := texts.map .print

def Sensors.printAll (texts : List (List Char)) (s : Sensors) : Sensors :=
  { s with trace := s.trace ++ prints texts }

@[simp] lemma updates_prints (texts : List (List Char)) : updates (prints texts) = [] := by
  simp [updates, prints, SensorEvent.updated]

@[simp] lemma updateTimes_prints (i : Fin 7) (texts : List (List Char)) :
    updateTimes i (prints texts) = [] := by
  simp [updateTimes, prints, SensorEvent.timeOf]

@[simp] lemma readings_prints (i : Fin 7) (texts : List (List Char)) : readings i (prints texts) = [] := by
  simp [readings, prints, SensorEvent.valueOf]

@[simp] lemma printAll_nil (s : Sensors) : s.printAll [] = s := by
  simp [Sensors.printAll, prints]

lemma printAll_append (texts texts' : List (List Char)) (s : Sensors) :
    s.printAll (texts ++ texts') = (s.printAll texts).printAll texts' := by
  simp [Sensors.printAll, prints]

/-! One call. -/

/-- The value of sensor `i` after its update. -/
def newValue (c : Call) (i : Fin 7) (s : Sensors) : Int16 := (readSensor c i).getD (s.sensorValues i)

/-- The extremes are adjusted for a value which is new and not 0. -/
def Accounted (c : Call) (i : Fin 7) (s : Sensors) : Prop :=
  newValue c i s ≠ s.sensorValues i ∧ newValue c i s ≠ 0

instance (c : Call) (i : Fin 7) (s : Sensors) : Decidable (Accounted c i s) :=
  inferInstanceAs (Decidable (_ ∧ _))

/-- Nothing but the log may have changed. -/
structure Kept (s t : Sensors) : Prop where
  values : t.sensorValues = s.sensorValues
  low : t.sensorLow = s.sensorLow
  high : t.sensorHigh = s.sensorHigh
  last : t.lastsensorupdate = s.lastsensorupdate

structure Updated (c : Call) (i : Fin 7) (s t : Sensors) : Prop where
  values : t.sensorValues = Function.update s.sensorValues i (newValue c i s)
  low : t.sensorLow = if Accounted c i s then
    Function.update s.sensorLow i (min (s.sensorLow i) (newValue c i s)) else s.sensorLow
  high : t.sensorHigh = if Accounted c i s then
    Function.update s.sensorHigh i (max (s.sensorHigh i) (newValue c i s)) else s.sensorHigh
  last : t.lastsensorupdate = Function.update s.lastsensorupdate i c.millis

/-- The other sensors are left alone. -/
lemma Updated.other {c : Call} {k : Fin 7} {s t : Sensors} (h : Updated c k s t) {i : Fin 7} (hik : i ≠ k) :
    t.sensorValues i = s.sensorValues i ∧ t.sensorLow i = s.sensorLow i ∧ t.sensorHigh i = s.sensorHigh i := by
  rw [h.values, h.low, h.high, Function.update_of_ne hik]
  split_ifs
  · rw [Function.update_of_ne hik, Function.update_of_ne hik]
    exact ⟨rfl, rfl, rfl⟩
  · exact ⟨rfl, rfl, rfl⟩

/-- The new events are the updates of these sensors at the time of the call, these
readings, and prints. -/
structure Logs (c : Call) (is : List (Fin 7)) (taken : Fin 7 → List Int16) (es : List SensorEvent) : Prop where
  updates : updates es = is
  times : ∀ k, updateTimes k es = if k ∈ is then [c.time] else []
  readings : ∀ k, readings k es = taken k

/-- All that a call can do: nothing is due, or the first sensor which is due is updated. -/
inductive CallDone (c : Call) (s t : Sensors) : Prop
  | idle {es : List SensorEvent} (hdue : ∀ i, ¬ DueNow c s i) (hkept : Kept s t)
      (htrace : t.trace = s.trace ++ es) (hlogs : Logs c [] (fun _ => []) es)
  | served {i : Fin 7} {es : List SensorEvent} (hdue : DueNow c s i) (hfirst : ∀ j < i, ¬ DueNow c s j)
      (hupdated : Updated c i s t) (htrace : t.trace = s.trace ++ es)
      (hlogs : Logs c [i] (fun k => if k = i then (readSensor c i).toList else []) es)

lemma assignValue_eq (c : Call) (i : Fin 7) (s : Sensors) :
    assignValue c i s = { s with
      sensorValues := Function.update s.sensorValues i (newValue c i s)
      trace := s.trace ++ (readSensor c i).toList.map (.reading i) } := by
  cases h : readSensor c i with
  | none => simp [assignValue, newValue, h]
  | some value => simp [assignValue, newValue, h, Sensors.log]

lemma adjustExtremes_eq (i : Fin 7) (s : Sensors) :
    adjustExtremes i s = { s with
      sensorLow := if s.sensorValues i ≠ 0 then
        Function.update s.sensorLow i (min (s.sensorLow i) (s.sensorValues i)) else s.sensorLow
      sensorHigh := if s.sensorValues i ≠ 0 then
        Function.update s.sensorHigh i (max (s.sensorHigh i) (s.sensorValues i)) else s.sensorHigh } := by
  unfold adjustExtremes
  split_ifs <;> rfl

lemma account_eq (i : Fin 7) (oldval : Int16) (s : Sensors) :
    ∃ texts, account i oldval s = { s with
      sensorLow := if s.sensorValues i ≠ oldval ∧ s.sensorValues i ≠ 0 then
        Function.update s.sensorLow i (min (s.sensorLow i) (s.sensorValues i)) else s.sensorLow
      sensorHigh := if s.sensorValues i ≠ oldval ∧ s.sensorValues i ≠ 0 then
        Function.update s.sensorHigh i (max (s.sensorHigh i) (s.sensorValues i)) else s.sensorHigh
      trace := s.trace ++ prints texts } := by
  by_cases hnew : s.sensorValues i ≠ oldval
  · refine ⟨[valueReport i (s.sensorValues i), "\r\n".toList], ?_⟩
    rw [account, if_pos hnew, adjustExtremes_eq]
    by_cases hzero : s.sensorValues i = 0
    · simp [hzero, Sensors.log, prints]
    · simp [hnew, hzero, Sensors.log, prints]
  · refine ⟨[], ?_⟩
    rw [account, if_neg hnew]
    simp [hnew, prints]

lemma Logs.surround {c : Call} {is : List (Fin 7)} {taken : Fin 7 → List Int16} {es : List SensorEvent}
    (h : Logs c is taken es) (before later : List (List Char)) :
    Logs c is taken (prints before ++ es ++ prints later) where
  updates := by simp [h.updates]
  times k := by simp [h.times]
  readings k := by simp [h.readings]

lemma updates_readings (i : Fin 7) (values : List Int16) : updates (values.map (.reading i)) = [] := by
  simp [updates, SensorEvent.updated]

lemma updateTimes_readings (k i : Fin 7) (values : List Int16) :
    updateTimes k (values.map (.reading i)) = [] := by
  simp [updateTimes, SensorEvent.timeOf]

lemma readings_readings (k i : Fin 7) (values : List Int16) :
    readings k (values.map (.reading i)) = if k = i then values else [] := by
  rw [readings, List.filterMap_map]
  by_cases hk : k = i
  · have hvalue : SensorEvent.valueOf k ∘ SensorEvent.reading i = some := by
      funext value
      simp [SensorEvent.valueOf, hk]
    rw [hvalue, List.filterMap_some, if_pos hk]
  · have hvalue : SensorEvent.valueOf k ∘ SensorEvent.reading i = fun _ => none := by
      funext value
      simp [SensorEvent.valueOf, Ne.symm hk]
    rw [hvalue, if_neg hk]
    simp

lemma logs_update (c : Call) (i : Fin 7) :
    Logs c [i] (fun k => if k = i then (readSensor c i).toList else [])
      (.update i c.time :: (readSensor c i).toList.map (.reading i)) where
  updates := congrArg (i :: ·) (updates_readings i _)
  times k := by
    by_cases hk : k = i
    · simp only [hk, List.mem_singleton, if_true]
      rw [updateTimes, List.filterMap_cons_some (by rw [SensorEvent.timeOf, if_pos rfl]), ← updateTimes,
        updateTimes_readings]
    · rw [if_neg (by simpa using hk), updateTimes,
        List.filterMap_cons_none (by rw [SensorEvent.timeOf, if_neg (Ne.symm hk)]), ← updateTimes,
        updateTimes_readings]
  readings k := readings_readings k i _

lemma updateSensor_spec (c : Call) (i : Fin 7) (s : Sensors) :
    Updated c i s (updateSensor c i s) ∧ ∃ texts, (updateSensor c i s).trace =
      s.trace ++ (.update i c.time :: (readSensor c i).toList.map (.reading i) ++ prints texts) := by
  set v := { s with lastsensorupdate := Function.update s.lastsensorupdate i c.millis }.log
    (.update i c.time) with hv
  have hvalue : newValue c i v = newValue c i s := rfl
  obtain ⟨texts, htexts⟩ := account_eq i (s.sensorValues i) (assignValue c i v)
  have hupdate : updateSensor c i s = _ := htexts
  rw [assignValue_eq, hvalue] at hupdate
  simp only [Function.update_self] at hupdate
  rw [hupdate]
  refine ⟨⟨rfl, rfl, rfl, rfl⟩, texts, ?_⟩
  simp [hv, Sensors.log]

lemma reportElapsed_eq (c : Call) (i : Fin 7) (s : Sensors) :
    ∃ texts, reportElapsed c i s = s.printAll texts := by
  by_cases hlong : 1000 < c.micros i-c.timer
  · refine ⟨["sensorupdate took ".toList ++ printNumber dec (c.micros i-c.timer).toNat ++ " micros.".toList], ?_⟩
    simp only [reportElapsed, if_pos hlong]
    rfl
  · refine ⟨[], ?_⟩
    simp only [reportElapsed, if_neg hlong, printAll_nil]

/-- The loop passes over the sensors which are not due, and may print for each of them. -/
lemma sensorupdateFrom_cases (c : Call) (is : List (Fin 7)) (s : Sensors) :
    (∃ texts, (∀ i ∈ is, ¬ DueNow c s i) ∧ sensorupdateFrom c is s = s.printAll texts) ∨
    ∃ passed i rest texts, is = passed ++ i :: rest ∧ (∀ j ∈ passed, ¬ DueNow c s j) ∧ DueNow c s i ∧
      sensorupdateFrom c is s = updateSensor c i (s.printAll texts) := by
  induction is generalizing s with
  | nil => exact .inl ⟨[], by simp, by rw [sensorupdateFrom, printAll_nil]⟩
  | cons i is ih =>
    by_cases hdue : DueNow c s i
    · refine .inr ⟨[], i, is, [], rfl, by simp, hdue, ?_⟩
      rw [sensorupdateFrom, if_pos hdue, printAll_nil]
    · obtain ⟨texts, htexts⟩ := reportElapsed_eq c i s
      rw [sensorupdateFrom, if_neg hdue, htexts]
      cases ih (s.printAll texts) with
      | inl hidle =>
        obtain ⟨texts', hnone, heq⟩ := hidle
        refine .inl ⟨texts ++ texts', List.forall_mem_cons.mpr ⟨hdue, hnone⟩, ?_⟩
        rw [heq, printAll_append]
      | inr hserved =>
        obtain ⟨passed, k, rest, texts', hsplit, hnone, hk, heq⟩ := hserved
        refine .inr ⟨i :: passed, k, rest, texts ++ texts', by rw [hsplit]; rfl,
          List.forall_mem_cons.mpr ⟨hdue, hnone⟩, hk, ?_⟩
        rw [heq, printAll_append]

theorem sensorupdate_done (c : Call) (s : Sensors) : CallDone c s (sensorupdate c s) := by
  cases sensorupdateFrom_cases c (List.finRange 7) s with
  | inl hidle =>
    obtain ⟨texts, hnone, heq⟩ := hidle
    rw [sensorupdate, heq]
    exact .idle (fun i => hnone i (List.mem_finRange i)) ⟨rfl, rfl, rfl, rfl⟩ rfl
      ⟨updates_prints texts, by simp, by simp⟩
  | inr hserved =>
    obtain ⟨passed, i, rest, texts, hsplit, hnone, hdue, heq⟩ := hserved
    have hsorted : (passed ++ i :: rest).Pairwise (· < ·) := hsplit ▸ List.pairwise_lt_finRange 7
    have hfirst : ∀ j < i, ¬ DueNow c s j := by
      intro j hji
      have hj : j ∈ passed ++ i :: rest := hsplit ▸ List.mem_finRange j
      rw [List.mem_append] at hj
      cases hj with
      | inl hj => exact hnone j hj
      | inr hj =>
        cases List.mem_cons.mp hj with
        | inl heq => exact absurd heq (ne_of_lt hji)
        | inr hrest =>
          have hgt := List.rel_of_pairwise_cons (List.pairwise_append.mp hsorted).2.1 hrest
          exact absurd hgt (lt_asymm hji)
    obtain ⟨hupdated, texts', htrace⟩ := updateSensor_spec c i (s.printAll texts)
    rw [sensorupdate, heq]
    refine .served hdue hfirst ⟨hupdated.values, hupdated.low, hupdated.high, hupdated.last⟩ ?_
      ((logs_update c i).surround texts texts')
    rw [htrace]
    simp [Sensors.printAll]

/-- The new events of a call. -/
def newEvents (c : Call) (s : Sensors) : List SensorEvent := (sensorupdate c s).trace.drop s.trace.length

lemma newEvents_eq {c : Call} {s : Sensors} {es : List SensorEvent}
    (h : (sensorupdate c s).trace = s.trace ++ es) : newEvents c s = es := by
  rw [newEvents, h, List.drop_left]

end WaterHarp.SensorUpdate
