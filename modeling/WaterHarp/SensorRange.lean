import WaterHarp.RunningRange
import WaterHarp.SensorUpdate

/-! The extremes which `getSensorValue` reports. They are adjusted only when a value
changes, and still are those of all readings which are not 0. -/
namespace WaterHarp.SensorRange
open RunningRange SensorUpdate

/-- The readings of sensor `i` so far, bad ones left out. -/
def taken (i : Fin 7) (s : Sensors) : List Int16 := (readings i s.trace).filter (· ≠ 0)

/-- The readings which the calls take of sensor `i`. A call takes one when the sensor is the
first which is due. -/
def servedReadings (i : Fin 7) : Sensors → List Call → List Int16
  | _, [] => []
  | s, c :: calls =>
    (if DueNow c s i ∧ ∀ j < i, ¬ DueNow c s j then (readSensor c i).toList else []) ++
      servedReadings i (sensorupdate c s) calls

/-- The log holds the readings of the call and no others. -/
lemma readings_call (c : Call) (i : Fin 7) (s : Sensors) :
    readings i (sensorupdate c s).trace = readings i s.trace ++
      if DueNow c s i ∧ ∀ j < i, ¬ DueNow c s j then (readSensor c i).toList else [] := by
  cases sensorupdate_done c s with
  | idle hdue hkept htrace hlogs =>
    rw [htrace, readings_append, hlogs.readings, if_neg fun h => hdue i h.1]
  | @served k es hdue hfirst hupdated htrace hlogs =>
    rw [htrace, readings_append, hlogs.readings]
    by_cases hik : i = k
    · subst hik
      rw [if_pos rfl, if_pos ⟨hdue, hfirst⟩]
    · rw [if_neg hik, if_neg]
      rintro ⟨hdue', hfirst'⟩
      cases lt_or_gt_of_ne hik with
      | inl hlt => exact hfirst i hlt hdue'
      | inr hgt => exact hfirst' k hgt hdue

lemma readings_run (calls : List Call) (i : Fin 7) (s : Sensors) :
    readings i (calls.foldl (fun s c => sensorupdate c s) s).trace =
      readings i s.trace ++ servedReadings i s calls := by
  induction calls generalizing s with
  | nil => exact (List.append_nil _).symm
  | cons c calls ih => rw [List.foldl_cons, ih, readings_call, servedReadings, List.append_assoc]

lemma taken_after (calls : List Call) (i : Fin 7) :
    taken i (after calls) = (servedReadings i boot calls).filter (· ≠ 0) := by
  rw [taken, after, readings_run]
  rfl

/-- The current value, if it is not bad, is accounted for already. -/
structure Tracks (i : Fin 7) (s : Sensors) : Prop where
  low : s.sensorLow i = RunningRange.low 32767 (taken i s)
  high : s.sensorHigh i = RunningRange.high (-32768) (taken i s)
  current : s.sensorValues i = 0 ∨ s.sensorValues i ∈ taken i s

lemma taken_append {i : Fin 7} {s t : Sensors} {es : List SensorEvent} (h : t.trace = s.trace ++ es) :
    taken i t = taken i s ++ (readings i es).filter (· ≠ 0) := by
  rw [taken, h, readings_append, List.filter_append, taken]

lemma Tracks.kept {i : Fin 7} {s t : Sensors} (h : Tracks i s) (hvalues : t.sensorValues i = s.sensorValues i)
    (hlow : t.sensorLow i = s.sensorLow i) (hhigh : t.sensorHigh i = s.sensorHigh i)
    (htaken : taken i t = taken i s) : Tracks i t where
  low := by rw [hlow, htaken, h.low]
  high := by rw [hhigh, htaken, h.high]
  current := by rw [hvalues, htaken]; exact h.current

/-- The sensor which is updated: its reading is new, repeated or bad. -/
lemma Tracks.updated {c : Call} {i : Fin 7} {s t : Sensors} (h : Tracks i s) (ht : Updated c i s t)
    (htaken : taken i t = taken i s ++ (readSensor c i).toList.filter (· ≠ 0)) : Tracks i t := by
  have hvalue : t.sensorValues i = newValue c i s := by rw [ht.values, Function.update_self]
  cases hread : readSensor c i with
  | none =>
    have hold : newValue c i s = s.sensorValues i := by rw [newValue, hread, Option.getD_none]
    have hskip : ¬ Accounted c i s := fun hacc => hacc.1 hold
    have hnone : taken i t = taken i s := by rw [htaken, hread]; exact List.append_nil _
    exact h.kept (hvalue.trans hold) (by rw [ht.low, if_neg hskip]) (by rw [ht.high, if_neg hskip]) hnone
  | some v =>
    have hnew : newValue c i s = v := by rw [newValue, hread, Option.getD_some]
    rw [hnew] at hvalue
    rw [hread, Option.toList_some] at htaken
    by_cases hzero : v = 0
    · have hskip : ¬ Accounted c i s := fun hacc => hacc.2 (hnew.trans hzero)
      have hnone : taken i t = taken i s := by simpa [hzero] using htaken
      constructor
      · rw [ht.low, if_neg hskip, hnone, h.low]
      · rw [ht.high, if_neg hskip, hnone, h.high]
      · exact .inl (hvalue.trans hzero)
    · have hmore : taken i t = taken i s ++ [v] := by simpa [hzero] using htaken
      have hcurrent : t.sensorValues i = 0 ∨ t.sensorValues i ∈ taken i t := by
        rw [hvalue, hmore]
        exact .inr (by simp)
      by_cases hold : v = s.sensorValues i
      · have hskip : ¬ Accounted c i s := fun hacc => hacc.1 (hnew.trans hold)
        have hmem : v ∈ taken i s := by
          cases h.current with
          | inl hbad => exact absurd (hold.trans hbad) hzero
          | inr hmem => exact hold ▸ hmem
        constructor
        · rw [ht.low, if_neg hskip, hmore, low_of_mem hmem, h.low]
        · rw [ht.high, if_neg hskip, hmore, high_of_mem hmem, h.high]
        · exact hcurrent
      · have hacc : Accounted c i s := ⟨hnew ▸ hold, hnew ▸ hzero⟩
        constructor
        · rw [ht.low, if_pos hacc, Function.update_self, hmore, low_append_singleton, h.low, hnew]
        · rw [ht.high, if_pos hacc, Function.update_self, hmore, high_append_singleton, h.high, hnew]
        · exact hcurrent

lemma Tracks.call {c : Call} {i : Fin 7} {s t : Sensors} (h : Tracks i s) (ht : CallDone c s t) : Tracks i t := by
  cases ht with
  | idle hdue hkept htrace hlogs =>
    have hnone : taken i t = taken i s := by
      rw [taken_append htrace, hlogs.readings]
      exact List.append_nil _
    exact h.kept (by rw [hkept.values]) (by rw [hkept.low]) (by rw [hkept.high]) hnone
  | @served k es hdue hfirst hupdated htrace hlogs =>
    have htaken := taken_append (i := i) htrace
    rw [hlogs.readings] at htaken
    by_cases hik : i = k
    · rw [if_pos hik] at htaken
      rw [← hik] at hupdated htaken
      exact h.updated hupdated htaken
    · rw [if_neg hik] at htaken
      obtain ⟨hvalues, hlow, hhigh⟩ := hupdated.other hik
      exact h.kept hvalues hlow hhigh (htaken.trans (List.append_nil _))

lemma after_tracks (calls : List Call) (i : Fin 7) : Tracks i (after calls) := by
  induction calls using List.reverseRecOn with
  | nil => exact ⟨rfl, rfl, .inl rfl⟩
  | append_singleton calls c ih =>
    rw [after_append_singleton]
    exact ih.call (sensorupdate_done c _)

/-- What is reported of a sensor after these readings. -/
structure Reported (taken : List Int16) (value low high : Int16) : Prop where
  seen : taken ≠ [] → IsLeast {v | v ∈ taken} low ∧ IsGreatest {v | v ∈ taken} high
  unseen : taken = [] → low = 32767 ∧ high = -32768
  current : value = 0 ∨ low ≤ value ∧ value ≤ high

lemma Tracks.reported {i : Fin 7} {s : Sensors} (h : Tracks i s) :
    Reported (taken i s) (s.sensorValues i) (s.sensorLow i) (s.sensorHigh i) where
  seen hne := by
    rw [h.low, h.high]
    exact ⟨isLeast_low hne fun v _ => Int16.le_iff_toInt_le.mpr (Int16.toInt_le v),
      isGreatest_high hne fun v _ => Int16.le_iff_toInt_le.mpr (Int16.le_toInt v)⟩
  unseen hnone := by
    rw [h.low, h.high, hnone]
    exact ⟨rfl, rfl⟩
  current := by
    rw [h.low, h.high]
    cases h.current with
    | inl hbad => exact .inl hbad
    | inr hmem => exact .inr ⟨(low_le _ _).2 _ hmem, (le_high _ _).2 _ hmem⟩

/-- After every run each sensor reports the extremes of the readings taken by the calls. -/
theorem sensors_reported (calls : List Call) (i : Fin 7) :
    ∃ value low high, getSensorValue (UInt8.ofNat i) (after calls) = some (value, low, high) ∧
      value = (after calls).sensorValues i ∧ low = (after calls).sensorLow i ∧
      high = (after calls).sensorHigh i ∧ Reported (taken i (after calls)) value low high ∧
      taken i (after calls) = (servedReadings i boot calls).filter (· ≠ 0) := by
  refine ⟨_, _, _, ?_, rfl, rfl, rfl, (after_tracks calls i).reported, taken_after calls i⟩
  have hnr : (UInt8.ofNat i).toNat = i := by
    rw [UInt8.toNat_ofNat']
    omega
  simp only [getSensorValue, hnr, dif_pos i.isLt]

end WaterHarp.SensorRange
