import WaterHarp.PriorityTimers
import WaterHarp.RunHistory
import WaterHarp.SensorUpdate

/-! The schedule of `sensorupdate`. Its wrapping counters implement timers which are
polled in the order of the sensors, so that frequent calls starve none of them. -/
namespace WaterHarp.SensorSchedule
open PriorityTimers RunHistory SensorUpdate

def period (i : Fin 7) : ℕ := (updatePeriod i).toNat

/-- The time of the last update of sensor `i`, at first that of the boot. -/
def lastUpdate (calls : List Call) (i : Fin 7) : ℕ := (updateTimes i (after calls).trace).getLastD 0

/-- The sensors whose branch is taken in a call after others. -/
def updatedBy (before : List Call) (c : Call) : List (Fin 7) := updates (newEvents c (after before))

def InOrder (calls : List Call) : Prop := calls.Pairwise fun c d => c.time ≤ d.time

instance (calls : List Call) : Decidable (InOrder calls) := inferInstanceAs (Decidable (List.Pairwise _ _))

lemma InOrder.earlier {calls later : List Call} (h : InOrder (calls ++ later)) : InOrder calls :=
  (List.pairwise_append.mp h).1

/-! The counters and the times. -/

structure Timed (calls : List Call) : Prop where
  counter : ∀ i, (after calls).lastsensorupdate i = BitVec.ofNat 32 (lastUpdate calls i)
  called : ∀ i, lastUpdate calls i = 0 ∨ ∃ c ∈ calls, lastUpdate calls i = c.time

lemma lastUpdate_append {calls : List Call} {c : Call} {is : List (Fin 7)} {values : Fin 7 → List Int16}
    {es : List SensorEvent} (htrace : (sensorupdate c (after calls)).trace = (after calls).trace ++ es)
    (hlogs : Logs c is values es) (i : Fin 7) :
    lastUpdate (calls ++ [c]) i = if i ∈ is then c.time else lastUpdate calls i := by
  rw [lastUpdate, after_append_singleton, htrace, updateTimes_append, hlogs.times]
  split_ifs
  · rw [List.getLastD_concat]
  · rw [List.append_nil, lastUpdate]

lemma lastUpdate_idle {calls : List Call} {c : Call} {values : Fin 7 → List Int16} {es : List SensorEvent}
    (htrace : (sensorupdate c (after calls)).trace = (after calls).trace ++ es)
    (hlogs : Logs c [] values es) : lastUpdate (calls ++ [c]) = lastUpdate calls := by
  funext i
  rw [lastUpdate_append htrace hlogs, if_neg List.not_mem_nil]

lemma lastUpdate_served {calls : List Call} {c : Call} {k : Fin 7} {values : Fin 7 → List Int16}
    {es : List SensorEvent} (htrace : (sensorupdate c (after calls)).trace = (after calls).trace ++ es)
    (hlogs : Logs c [k] values es) :
    lastUpdate (calls ++ [c]) = Function.update (lastUpdate calls) k c.time := by
  funext i
  rw [lastUpdate_append htrace hlogs, Function.update_apply]
  simp only [List.mem_singleton]

lemma after_timed (calls : List Call) : Timed calls := by
  induction calls using List.reverseRecOn with
  | nil => exact ⟨fun _ => rfl, fun _ => .inl rfl⟩
  | append_singleton calls c ih =>
    have hkeep : ∀ i, lastUpdate calls i = 0 ∨ ∃ d ∈ calls ++ [c], lastUpdate calls i = d.time := by
      intro i
      cases ih.called i with
      | inl hzero => exact .inl hzero
      | inr hcall =>
        obtain ⟨d, hd, heq⟩ := hcall
        exact .inr ⟨d, by simp [hd], heq⟩
    cases sensorupdate_done c (after calls) with
    | idle hdue hkept htrace hlogs =>
      have hlast := lastUpdate_idle htrace hlogs
      constructor
      · intro i
        rw [after_append_singleton, hkept.last, hlast, ih.counter]
      · intro i
        rw [hlast]
        exact hkeep i
    | @served k es hdue hfirst hupdated htrace hlogs =>
      have hlast := lastUpdate_served htrace hlogs
      constructor
      · intro i
        rw [after_append_singleton, hupdated.last, hlast]
        by_cases hik : i = k
        · rw [hik, Function.update_self, Function.update_self, Call.millis]
        · rw [Function.update_of_ne hik, Function.update_of_ne hik, ih.counter]
      · intro i
        rw [hlast]
        by_cases hik : i = k
        · rw [hik, Function.update_self]
          exact .inr ⟨c, by simp, rfl⟩
        · rw [Function.update_of_ne hik]
          exact hkeep i

/-- The counter shows the elapsed time up to its wrap. -/
lemma toNat_elapsed {last time : ℕ} (hle : last ≤ time) :
    (BitVec.ofNat 32 time-BitVec.ofNat 32 last).toNat = (time-last)%2^32 := by
  rw [BitVec.toNat_sub, BitVec.toNat_ofNat, BitVec.toNat_ofNat]
  omega

lemma InOrder.lastUpdate_le {calls : List Call} {c : Call} (h : InOrder (calls ++ [c])) (i : Fin 7) :
    lastUpdate calls i ≤ c.time := by
  cases (after_timed calls).called i with
  | inl hzero => omega
  | inr hcall =>
    obtain ⟨d, hd, heq⟩ := hcall
    rw [heq]
    exact (List.pairwise_append.mp h).2.2 d hd c (by simp)

lemma InOrder.dueNow_iff {calls : List Call} {c : Call} (h : InOrder (calls ++ [c])) (i : Fin 7) :
    DueNow c (after calls) i ↔ period i < (c.time-lastUpdate calls i)%2^32 := by
  rw [DueNow, BitVec.lt_def, Call.millis, (after_timed calls).counter, toNat_elapsed (h.lastUpdate_le i), period]

/-- However often the counter has wrapped, no sensor is updated too early. -/
lemma InOrder.due_of_dueNow {calls : List Call} {c : Call} (h : InOrder (calls ++ [c])) {i : Fin 7}
    (hdue : DueNow c (after calls) i) : Due period (lastUpdate calls) c.time i := by
  have hlt := (h.dueNow_iff i).mp hdue
  have hmod := Nat.mod_le (c.time-lastUpdate calls i) (2^32)
  unfold Due
  omega

/-- Before its counter has wrapped no sensor is overlooked. -/
lemma InOrder.dueNow_of_due {calls : List Call} {c : Call} (h : InOrder (calls ++ [c])) {i : Fin 7}
    (hrecent : c.time < lastUpdate calls i+2^32) (hdue : Due period (lastUpdate calls) c.time i) :
    DueNow c (after calls) i := by
  rw [h.dueNow_iff, Nat.mod_eq_of_lt (by omega)]
  unfold Due at hdue
  omega

/-- A call polls the timers, and the sensor which it updates is the one they serve. -/
lemma call_polls (calls : List Call) (c : Call) :
    Poll (DueNow c (after calls)) (lastUpdate calls) c.time (lastUpdate (calls ++ [c])) ∧
    ∀ i, Serves (DueNow c (after calls)) i → updatedBy calls c = [i] := by
  cases sensorupdate_done c (after calls) with
  | idle hdue hkept htrace hlogs =>
    rw [lastUpdate_idle htrace hlogs]
    constructor
    · exact .idle hdue
    · exact fun i hserves => absurd hserves.1 (hdue i)
  | @served k es hdue hfirst hupdated htrace hlogs =>
    rw [lastUpdate_served htrace hlogs]
    constructor
    · exact .serve ⟨hdue, hfirst⟩
    · intro i hserves
      rw [updatedBy, newEvents_eq htrace, hlogs.updates]
      cases lt_trichotomy i k with
      | inl hlt => exact absurd hserves.1 (hfirst i hlt)
      | inr hge =>
        cases hge with
        | inl heq => rw [heq]
        | inr hgt => exact absurd hdue (hserves.2 k hgt)

lemma updatedBy_length (calls : List Call) (c : Call) : (updatedBy calls c).length ≤ 1 := by
  rw [updatedBy]
  cases sensorupdate_done c (after calls) with
  | idle hdue hkept htrace hlogs =>
    rw [newEvents_eq htrace, hlogs.updates]
    exact Nat.zero_le 1
  | served hdue hfirst hupdated htrace hlogs =>
    rw [newEvents_eq htrace, hlogs.updates]
    exact le_rfl

/-- Between two updates of a sensor more than its period passes. -/
lemma updateTimes_apart {calls : List Call} (h : InOrder calls) (i : Fin 7) :
    (updateTimes i (after calls).trace).IsChain fun t u => t+period i < u := by
  induction calls using List.reverseRecOn with
  | nil => exact .nil
  | append_singleton calls c ih =>
    have hchain := ih h.earlier
    rw [after_append_singleton]
    cases sensorupdate_done c (after calls) with
    | idle hdue hkept htrace hlogs =>
      rw [htrace, updateTimes_append, hlogs.times, if_neg List.not_mem_nil, List.append_nil]
      exact hchain
    | @served k es hdue hfirst hupdated htrace hlogs =>
      rw [htrace, updateTimes_append, hlogs.times]
      by_cases hik : i = k
      · rw [if_pos (List.mem_singleton.mpr hik), List.isChain_append]
        refine ⟨hchain, List.isChain_singleton _, ?_⟩
        intro t ht u hu
        have hapart := h.due_of_dueNow hdue
        have hlast : lastUpdate calls k = t := by
          rw [lastUpdate, ← hik, List.getLastD_eq_getLast?, Option.mem_def.mp ht, Option.getD_some]
        rw [List.head?_cons, Option.mem_some_iff] at hu
        rw [← hu, hik, ← hlast]
        exact hapart
      · rw [if_neg (by simpa using hik), List.append_nil]
        exact hchain

/-! Windows of consecutive calls. -/

lemma period_of_lower {i j : Fin 7} (h : j < i) : 500 ≤ period j := by
  have hall : ∀ j : Fin 7, j < 6 → 500 ≤ period j := by decide
  exact hall j (h.trans_le (Fin.le_last i))

section Window
variable (before window : List Call) (k : ℕ)

/-! The polls of a window, by the number of its calls before them. -/

def pollLast : Fin 7 → ℕ := lastUpdate (before ++ window.take k)
def pollTime : ℕ := (window[k]?.map Call.time).getD 0
def pollDue (i : Fin 7) : Prop := ∃ c ∈ window[k]?, DueNow c (after (before ++ window.take k)) i

variable {before window k} {i : Fin 7}

lemma pollLast_zero : pollLast before window 0 = lastUpdate before := by
  rw [pollLast, List.take_zero, List.append_nil]

lemma pollTime_eq (hk : k < window.length) : pollTime window k = window[k].time := by
  rw [pollTime, List.getElem?_eq_getElem hk, Option.map_some, Option.getD_some]

lemma pollDue_eq (hk : k < window.length) :
    pollDue before window k = DueNow window[k] (after (before ++ window.take k)) := by
  funext i
  simp [pollDue, List.getElem?_eq_getElem hk]

lemma InOrder.upto (h : InOrder (before ++ window)) (hk : k < window.length) :
    InOrder (before ++ window.take k ++ [window[k]]) := by
  have hsplit : before ++ window = before ++ window.take k ++ [window[k]] ++ window.drop (k+1) := by
    rw [List.append_assoc, List.append_assoc, List.singleton_append, ← List.drop_eq_getElem_cons hk,
      List.take_append_drop]
  rw [hsplit] at h
  exact h.earlier

lemma InOrder.pollTime_le (h : InOrder (before ++ window)) (hk : k < window.length) :
    pollTime window 0 ≤ pollTime window k := by
  have h0 : 0 < window.length := by omega
  have hsorted := (List.pairwise_append.mp h).2.1
  cases Nat.eq_zero_or_pos k with
  | inl hzero => rw [hzero]
  | inr hpos =>
    rw [pollTime_eq hk, pollTime_eq h0]
    exact List.pairwise_iff_getElem.mp hsorted 0 k h0 hk hpos

lemma InOrder.watch (h : InOrder (before ++ window))
    (hspan : ∀ c ∈ window, ∀ d ∈ window, d.time ≤ c.time+500)
    (hrecent : ∀ c ∈ window, c.time < lastUpdate before i+2^32) :
    Watch period (pollDue before window) (pollLast before window) (pollTime window) i window.length where
  polls k hk := by
    have hnext : pollLast before window (k+1) = lastUpdate (before ++ window.take k ++ [window[k]]) := by
      rw [pollLast, List.take_succ_eq_append_getElem hk, List.append_assoc]
    rw [pollTime_eq hk, hnext, pollDue_eq hk]
    exact (call_polls _ _).1
  sound k hk j _ hj := by
    rw [pollDue_eq hk] at hj
    rw [pollTime_eq hk]
    exact (h.upto hk).due_of_dueNow hj
  complete k hk hlast hi := by
    rw [pollTime_eq hk] at hi
    rw [pollLast_zero, pollLast] at hlast
    have hlt : window[k].time < lastUpdate (before ++ window.take k) i+2^32 := by
      rw [hlast]
      exact hrecent _ (List.getElem_mem hk)
    rw [pollDue_eq hk]
    exact (h.upto hk).dueNow_of_due hlt hi
  first k hk := h.pollTime_le hk
  span k hk j hj := by
    have h0 : 0 < window.length := by omega
    have hlong := period_of_lower hj
    have hclose := hspan window[0] (List.getElem_mem h0) window[k] (List.getElem_mem hk)
    rw [pollTime_eq hk, pollTime_eq h0]
    omega

/-- The sensor which is due at the first of `i+1` calls within 500 ms is updated by one. -/
lemma window_served (h : InOrder (before ++ window)) (hlength : window.length = i.val+1)
    (hspan : ∀ c ∈ window, ∀ d ∈ window, d.time ≤ c.time+500)
    (hrecent : ∀ c ∈ window, c.time < lastUpdate before i+2^32)
    (hdue : ∀ c ∈ window.head?, DueNow c (after before) i) :
    ∃ earlier c rest, window = earlier ++ c :: rest ∧ i ∈ updatedBy (before ++ earlier) c := by
  have h0 : 0 < window.length := by omega
  have hdue0 : Due period (pollLast before window 0) (pollTime window 0) i := by
    have hfirst := h.upto h0
    rw [List.take_zero, List.append_nil] at hfirst
    rw [pollTime_eq h0, pollLast_zero]
    exact hfirst.due_of_dueNow (hdue window[0] (by simp [List.head?_eq_getElem?, h0]))
  have hcard : (Finset.Iio i).card < window.length := by
    rw [Fin.card_Iio]
    omega
  obtain ⟨k, hk, hserves⟩ := (h.watch hspan hrecent).served_within hdue0 hcard
  rw [pollDue_eq hk] at hserves
  refine ⟨window.take k, window[k], window.drop (k+1), ?_, ?_⟩
  · rw [← List.drop_eq_getElem_cons hk, List.take_append_drop]
  · rw [(call_polls _ _).2 i hserves]
    exact List.mem_singleton.mpr rfl

end Window

/-- A run of calls: at most one update in each call, updates of a sensor apart by more than its
period, and no sensor which is due starved by those before it unless its counter wraps. -/
structure Scheduled (calls : List Call) : Prop where
  single : Along (fun before c => (updatedBy before c).length ≤ 1) calls
  apart : ∀ i, (updateTimes i (after calls).trace).IsChain fun t u => t+(updatePeriod i).toNat < u
  served : ∀ before window later, calls = before ++ window ++ later → ∀ i : Fin 7,
    window.length = i.val+1 → (∀ c ∈ window, ∀ d ∈ window, d.time ≤ c.time+500) →
    (∀ c ∈ window, c.time < lastUpdate before i+2^32) →
    (∀ c ∈ window.head?, DueNow c (after before) i) →
    ∃ earlier c rest, window = earlier ++ c :: rest ∧ i ∈ updatedBy (before ++ earlier) c

theorem sensors_scheduled {calls : List Call} (h : InOrder calls) : Scheduled calls where
  single before c _ _ := updatedBy_length before c
  apart := updateTimes_apart h
  served before window later hsplit i hlength hspan hrecent hdue := by
    rw [hsplit] at h
    exact window_served h.earlier hlength hspan hrecent hdue

/-- Seven calls shortly before the counter wraps and one after it. -/
def wrapCalls : List Call :=
  List.replicate 7 ⟨2^32-100, 0, fun _ => 0, 211, 0, 5000, 0⟩ ++ [⟨2^32+5000, 0, fun _ => 0, 212, 5, 5000, 0⟩]

theorem sensors_scheduled_wrap : Scheduled wrapCalls := sensors_scheduled (by decide)

end WaterHarp.SensorSchedule
