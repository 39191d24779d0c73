import WaterHarp.RunningRange
import WaterHarp.Showline
import WaterHarp.Timeline

/-! `cycle` pulses each solenoid once: it is driven LOW from its offset on for the
duration, as far as the readings of the clock show, and the loop ends when all are over. -/
namespace WaterHarp.DripCycle
open Program EventLog Timeline SketchWorld Showline RunningRange

variable (offset : Fin 16 → BitVec 32) (duration : BitVec 32)

def maxOffset : BitVec 32 :=
  (List.finRange 16).foldl (fun m i => if m.slt (offset i) then offset i else m) 0

def state (now : BitVec 32) (i : Fin 16) : Bool :=
  (offset i).sle now && now.slt (offset i+duration)

/-- `active` at the end of a round. -/
def stillActive (now : BitVec 32) : Bool :=
  (List.finRange 16).foldl (fun active i => active || state offset duration now i)
    (now.slt (maxOffset offset+duration))

/-- The loop, for as many rounds as there are readings. -/
def cycleFrom (b : Board) (start : BitVec 32) : ℕ → World → Outcome SketchError World
  | 0, w => .raised .noReading w
  | fuel+1, w =>
    match millis w with
    | none => .raised .noReading w
    | some (time, w) =>
      let now := time-start
      (drive b (List.finRange 16) (fun i => !state offset duration now i) w).bind fun w =>
        let w := delay 1 w
        if stillActive offset duration now then cycleFrom b start fuel w else .done w

def cycle (b : Board) (w : World) : Outcome SketchError World :=
  match millis w with
  | none => .raised .noReading w
  | some (start, w) => cycleFrom offset duration b start w.readings.length w

/-! The same over the integers. -/

/-- No end of a pulse overflows. From below this excludes only the sums which are no `int`. -/
def NoOverflow : Prop :=
  ∀ i, -2^31 ≤ (offset i).toInt+duration.toInt ∧ (offset i).toInt+duration.toInt < 2^31

def latest : ℤ := ((List.finRange 16).map fun i => (offset i).toInt).foldl max 0

/-- Solenoid `ord i` is pulsed at the time `elapsed`. -/
def Pulse (i : Fin 16) (elapsed : ℤ) : Prop :=
  (offset i).toInt ≤ elapsed ∧ elapsed < (offset i).toInt+duration.toInt

instance (i : Fin 16) (elapsed : ℤ) : Decidable (Pulse offset duration i elapsed) :=
  inferInstanceAs (Decidable (_ ∧ _))

variable {offset duration}

lemma toInt_foldl_max (xs : List (BitVec 32)) (m : BitVec 32) :
    (xs.foldl (fun m x => if m.slt x then x else m) m).toInt =
      (xs.map BitVec.toInt).foldl max m.toInt := by
  induction xs generalizing m with
  | nil => rfl
  | cons x xs ih =>
    rw [List.foldl_cons, ih, List.map_cons, List.foldl_cons]
    congr 1
    by_cases hlt : m.slt x
    · rw [if_pos hlt, max_eq_right (BitVec.slt_iff_toInt_lt.mp hlt).le]
    · rw [if_neg hlt, max_eq_left (not_lt.mp (mt BitVec.slt_iff_toInt_lt.mpr hlt))]

lemma toInt_maxOffset : (maxOffset offset).toInt = latest offset := by
  have hmap : maxOffset offset =
      ((List.finRange 16).map offset).foldl (fun m x => if m.slt x then x else m) 0 := by
    rw [maxOffset, List.foldl_map]
  rw [hmap, toInt_foldl_max, List.map_map, latest]
  rfl

lemma latest_eq_high (offset : Fin 16 → BitVec 32) :
    latest offset = high 0 ((List.finRange 16).map fun i => (offset i).toInt) := rfl

lemma offset_le_latest (offset : Fin 16 → BitVec 32) (i : Fin 16) : (offset i).toInt ≤ latest offset := by
  rw [latest_eq_high]
  exact (le_high 0 _).2 _ (List.mem_map.mpr ⟨i, List.mem_finRange i, rfl⟩)

lemma toInt_add_of_range {x y : BitVec 32} (h : -2^31 ≤ x.toInt+y.toInt ∧ x.toInt+y.toInt < 2^31) :
    (x+y).toInt = x.toInt+y.toInt := by
  rw [BitVec.toInt_add]
  exact Int.bmod_eq_of_le_mul_two (by omega) (by omega)

lemma toInt_end (h : NoOverflow offset duration) (i : Fin 16) :
    (offset i+duration).toInt = (offset i).toInt+duration.toInt := toInt_add_of_range (h i)

lemma toInt_bound (h : NoOverflow offset duration) :
    (maxOffset offset+duration).toInt = latest offset+duration.toInt := by
  rw [← toInt_maxOffset]
  refine toInt_add_of_range ?_
  rw [toInt_maxOffset]
  have hlow := BitVec.le_toInt duration
  have hhigh := BitVec.toInt_lt (x := duration)
  rw [latest_eq_high]
  cases high_mem 0 ((List.finRange 16).map fun i => (offset i).toInt) with
  | inl hzero =>
    rw [hzero]
    omega
  | inr hmem =>
    obtain ⟨i, -, hi⟩ := List.mem_map.mp hmem
    rw [← hi]
    exact h i

lemma toInt_elapsed (start : BitVec 32) {elapsed : ℤ} (h : 0 ≤ elapsed ∧ elapsed < 2^31) :
    (start+BitVec.ofInt 32 elapsed-start).toInt = elapsed := by
  rw [add_sub_cancel_left, BitVec.toInt_ofInt]
  exact Int.bmod_eq_of_le_mul_two (by omega) (by omega)

lemma state_eq (hno : NoOverflow offset duration) (start : BitVec 32) {elapsed : ℤ}
    (h : 0 ≤ elapsed ∧ elapsed < 2^31) (i : Fin 16) :
    state offset duration (start+BitVec.ofInt 32 elapsed-start) i = decide (Pulse offset duration i elapsed) := by
  rw [state, BitVec.sle_eq_decide, BitVec.slt_eq_decide, toInt_elapsed start h, toInt_end hno,
    ← Bool.decide_and]
  rfl

lemma foldl_or (p : Fin 16 → Bool) (xs : List (Fin 16)) (active : Bool) :
    xs.foldl (fun active i => active || p i) active = (active || xs.any p) := by
  induction xs generalizing active with
  | nil => simp
  | cons x xs ih => rw [List.foldl_cons, ih, List.any_cons, Bool.or_assoc]

/-- The flags of the streams never keep the loop alive longer than its bound. -/
lemma stillActive_eq (hno : NoOverflow offset duration) (start : BitVec 32) {elapsed : ℤ}
    (h : 0 ≤ elapsed ∧ elapsed < 2^31) :
    stillActive offset duration (start+BitVec.ofInt 32 elapsed-start) =
      decide (elapsed < latest offset+duration.toInt) := by
  rw [stillActive, foldl_or, BitVec.slt_eq_decide, toInt_elapsed start h, toInt_bound hno]
  by_cases hlt : elapsed < latest offset+duration.toInt
  · simp [hlt]
  · have hnone : ∀ i, state offset duration (start+BitVec.ofInt 32 elapsed-start) i = false := by
      intro i
      rw [state_eq hno start h]
      have := offset_le_latest offset i
      exact decide_eq_false fun hp => hlt (by have := hp.2; omega)
    rw [decide_eq_false hlt, Bool.false_or, List.any_eq_false]
    exact fun i _ => by simp only [hnone i, Bool.false_eq_true, not_false_eq_true]

/-! One round and the whole loop. -/

structure Round (b : Board) (offset : Fin 16 → BitVec 32) (duration start : BitVec 32)
    (elapsed : ℤ) (es : List Event) : Prop where
  clock : clock es = [start+BitVec.ofInt 32 elapsed]
  writes : ∀ i, writesTo b (ord i) es = [!decide (Pulse offset duration i elapsed)]

variable {b : Board} {start : BitVec 32}

lemma cycleFrom_succ {time : BitVec 32} {w v : World} (hv : millis w = some (time, v)) (fuel : ℕ) :
    cycleFrom offset duration b start (fuel+1) w =
      (drive b (List.finRange 16) (fun i => !state offset duration (time-start) i) v).bind fun u =>
        if stillActive offset duration (time-start)
        then cycleFrom offset duration b start fuel (delay 1 u) else .done (delay 1 u) := by
  rw [cycleFrom, hv]

lemma round_performs (hno : NoOverflow offset duration) {elapsed : ℤ} (h : 0 ≤ elapsed ∧ elapsed < 2^31)
    {readings : List (BitVec 32)} {w : World}
    (hw : w.readings = (start+BitVec.ofInt 32 elapsed) :: readings) (fuel : ℕ) :
    ∃ es w', Acts w es w' ∧ Round b offset duration start elapsed es ∧ w'.readings = readings ∧
      cycleFrom offset duration b start (fuel+1) w =
        if elapsed < latest offset+duration.toInt then cycleFrom offset duration b start fuel w'
        else .done w' := by
  obtain ⟨v, hv, hreadings, hmillis⟩ := millis_acts hw
  obtain ⟨es, u, hu, hacts, hwrites, hquiet, hsteady⟩ := drive_performs b complete_finRange
    (fun i => !state offset duration (start+BitVec.ofInt 32 elapsed-start) i) v
  refine ⟨_, delay 1 u, (hmillis.trans hacts).trans (delay_acts 1 u), ⟨?_, fun i => ?_⟩, ?_, ?_⟩
  · rw [clock_append, clock_append, hquiet.clock]
    rfl
  · rw [writesTo, writesOn_append, writesOn_append, ← writesTo, ← writesTo, ← writesTo, hwrites i,
      state_eq hno start h]
    rfl
  · exact hsteady.readings.trans hreadings
  · rw [cycleFrom_succ hv, hu, Outcome.bind_done]
    simp only [stillActive_eq hno start h, decide_eq_true_eq]

/-- The loop runs through the readings before its bound and stops at the next one. -/
lemma cycleFrom_performs (hno : NoOverflow offset duration) {before : List ℤ} {elapsed : ℤ}
    (hrange : ∀ x ∈ before ++ [elapsed], 0 ≤ x ∧ x < 2^31)
    (hbefore : ∀ x ∈ before, x < latest offset+duration.toInt)
    (hstop : latest offset+duration.toInt ≤ elapsed) {later : List (BitVec 32)} {fuel : ℕ}
    (hfuel : before.length < fuel) {w : World}
    (hw : w.readings = (before ++ [elapsed]).map (fun x => start+BitVec.ofInt 32 x) ++ later) :
    Performs sketchLog (cycleFrom offset duration b start fuel) w (fun es w' => w'.readings = later ∧
      ∃ rounds, rounds.flatten = es ∧
        List.Forall₂ (Round b offset duration start) (before ++ [elapsed]) rounds) := by
  obtain ⟨fuel, rfl⟩ : ∃ n, fuel = n+1 := ⟨fuel-1, by omega⟩
  induction before generalizing w fuel with
  | nil =>
    obtain ⟨es, w', hacts, hround, hreadings, heq⟩ := round_performs hno (hrange elapsed (by simp)) hw fuel
    rw [if_neg (not_lt.mpr hstop)] at heq
    exact performs_done heq hacts ⟨hreadings, [es], by simp, .cons hround .nil⟩
  | cons x before ih =>
    obtain ⟨es, v, hacts, hround, hreadings, heq⟩ :=
      round_performs (b := b) hno (hrange x (by simp)) hw fuel
    rw [if_pos (hbefore x (by simp))] at heq
    obtain ⟨m, rfl⟩ : ∃ m, fuel = m+1 := ⟨fuel-1, by simp only [List.length_cons] at hfuel; omega⟩
    obtain ⟨fs, u, hu, hacts', hlater, rounds, rfl, hrounds⟩ :=
      ih (fun y hy => hrange y (List.mem_cons_of_mem x hy))
        (fun y hy => hbefore y (List.mem_cons_of_mem x hy)) hreadings m
        (by simp only [List.length_cons] at hfuel; omega)
    exact ⟨_, u, heq.trans hu, hacts.trans hacts', hlater, es :: rounds, rfl, .cons hround hrounds⟩

/-- A cycle over readings at the given times, until the first one at which all is over. -/
structure Cycled (b : Board) (offset : Fin 16 → BitVec 32) (duration start : BitVec 32)
    (times : List ℤ) (later : List (BitVec 32)) (es : List Event) (w' : World) : Prop where
  stops : ∃ before elapsed after, times = before ++ elapsed :: after ∧
    (∀ x ∈ before, x < latest offset+duration.toInt) ∧ latest offset+duration.toInt ≤ elapsed ∧
    w'.readings = after.map (fun x => start+BitVec.ofInt 32 x) ++ later ∧
    ∃ rounds, es = .millis start :: rounds.flatten ∧
      List.Forall₂ (Round b offset duration start) (before ++ [elapsed]) rounds
  contiguous : ∀ i, ∃ p q r, writesTo b (ord i) es =
    List.replicate p true ++ (List.replicate q false ++ List.replicate r true)
  high : ∀ n, w'.level (b.solenoidEnables n) = true
  pulsed : ∀ i, 0 < duration.toInt → 0 ≤ (offset i).toInt → (∀ x ∈ times.head?, x < duration.toInt) →
    times.IsChain (fun x y => y ≤ x+duration.toInt) → false ∈ writesTo b (ord i) es

lemma writesTo_rounds {xs : List ℤ} {rounds : List (List Event)}
    (h : List.Forall₂ (Round b offset duration start) xs rounds) (i : Fin 16) :
    writesTo b (ord i) (.millis start :: rounds.flatten) =
      xs.map fun x => !decide (Pulse offset duration i x) := by
  rw [List.map_eq_flatMap]
  exact filterMap_segments (h.imp fun x es hround => hround.writes i)

lemma pulses_contiguous {xs : List ℤ} (hsorted : xs.Pairwise (· ≤ ·)) (i : Fin 16) :
    ∃ p q r, xs.map (fun x => !decide (Pulse offset duration i x)) =
      List.replicate p true ++ (List.replicate q false ++ List.replicate r true) := by
  obtain ⟨p, q, r, h⟩ :=
    window_contiguous hsorted (offset i).toInt ((offset i).toInt+duration.toInt)
  refine ⟨p, q, r, ?_⟩
  have hmap := congrArg (List.map not) h
  rw [List.map_map, List.map_append, List.map_append, List.map_replicate, List.map_replicate,
    List.map_replicate] at hmap
  exact hmap

lemma pulse_seen {xs : List ℤ} {i : Fin 16} (hoffset : 0 ≤ (offset i).toInt)
    (hfirst : ∀ x ∈ xs.head?, x < duration.toInt)
    (hgap : xs.IsChain (fun x y => y ≤ x+duration.toInt)) (hpast : ∃ x ∈ xs, (offset i).toInt ≤ x) :
    false ∈ xs.map fun x => !decide (Pulse offset duration i x) := by
  obtain ⟨x, hx, hpulse⟩ :=
    exists_mem_window (fun x hx => by have := hfirst x hx; omega) hgap hpast
  have hin : Pulse offset duration i x := hpulse
  exact List.mem_map.mpr ⟨x, hx, by simp [hin]⟩

/-- A cycle ends, and has pulsed the solenoids, for all offsets and readings in the range
of the integers. -/
theorem cycle_cycled (b : Board) (hno : NoOverflow offset duration) (start : BitVec 32)
    (times : List ℤ) (hsorted : times.Pairwise (· ≤ ·)) (hrange : ∀ x ∈ times, 0 ≤ x ∧ x < 2^31)
    (hpass : ∃ x ∈ times, latest offset+duration.toInt ≤ x) (later : List (BitVec 32)) (w : World)
    (hw : w.readings = start :: (times.map (fun x => start+BitVec.ofInt 32 x) ++ later)) :
    Performs sketchLog (cycle offset duration b) w (Cycled b offset duration start times later) := by
  obtain ⟨before, elapsed, after, rfl, hbefore, hstop⟩ := exists_first hpass
  obtain ⟨v, hv, hreadings, hmillis⟩ := millis_acts hw
  have hsplit : v.readings = (before ++ [elapsed]).map (fun x => start+BitVec.ofInt 32 x) ++
      (after.map (fun x => start+BitVec.ofInt 32 x) ++ later) := by
    rw [hreadings, ← List.append_assoc, ← List.map_append, List.append_assoc, List.singleton_append]
  have hread : (before ++ [elapsed]).Sublist (before ++ elapsed :: after) := by simp
  have hfuel : before.length < v.readings.length := by simp [hsplit]
  obtain ⟨es, w', hw', hacts, hlater, rounds, rfl, hrounds⟩ := cycleFrom_performs (b := b) hno
    (fun x hx => hrange x (hread.subset hx)) hbefore hstop hfuel hsplit
  have hall : Acts w (.millis start :: rounds.flatten) w' := hmillis.trans hacts
  have hwrites := writesTo_rounds hrounds
  have hover (i : Fin 16) : ¬ Pulse offset duration i elapsed := by
    have := offset_le_latest offset i
    exact fun hp => absurd hp.2 (by omega)
  refine ⟨_, w', by rw [cycle, hv]; exact hw', hall, ?_⟩
  constructor
  · exact ⟨before, elapsed, after, rfl, hbefore, hstop, hlater, rounds, rfl, hrounds⟩
  · intro i
    rw [hwrites i]
    exact pulses_contiguous (hsorted.sublist hread) i
  · intro n
    obtain ⟨i, rfl⟩ := ord_surjective n
    have hlevel := hall.level (b.solenoidEnables (ord i))
    rw [← writesTo, hwrites i] at hlevel
    simpa [hover i] using hlevel
  · intro i hpos hoffset hfirst hgap
    rw [hwrites i]
    refine pulse_seen hoffset ?_ ?_ ⟨elapsed, by simp, ?_⟩
    · cases before <;> exact hfirst
    · rw [List.append_cons] at hgap
      exact hgap.left_of_append
    · have := offset_le_latest offset i
      omega

theorem cycle_cycled_skew :
    Performs sketchLog (cycle (fun i => BitVec.ofNat 32 (10*i)) 50 default)
      (boot (fun _ => false) [] [0xffffffd0, 0xffffffd1, 12, 60, 110, 152])
      (Cycled default (fun i => BitVec.ofNat 32 (10*i)) 50 0xffffffd0 [1, 60, 108, 158, 200] []) :=
  cycle_cycled default (by unfold NoOverflow; decide) _ _ (by decide) (by decide) (by decide) _ _ (by decide)

end WaterHarp.DripCycle
