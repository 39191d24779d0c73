import WaterHarp.RunHistory

/-! The joystick and `menu` of the sketch. In `getButtons` the conditional operator
binds weaker than `|`, so that a chord is read as its first button alone. -/
namespace WaterHarp.ButtonMenu
open RunHistory

inductive Button
  | left
  | down
  | center
  | right
  | up
  deriving DecidableEq, Repr

instance : Fintype Button := ⟨{.left, .down, .center, .right, .up}, fun b => by cases b <;> decide⟩

def left : BitVec 32 := 1
def down : BitVec 32 := 2
def center : BitVec 32 := 4
def right : BitVec 32 := 8
def up : BitVec 32 := 0x10

/-- The pins are pulled up, a held button connects its own to LOW. -/
def digitalRead (held : Finset Button) (button : Button) : Bool := button ∉ held

def isLow (held : Finset Button) (button : Button) : BitVec 32 :=
  if digitalRead held button = false then 1 else 0

/-- Each conditional operator has the rest of the expression as its last operand. -/
def getButtons (held : Finset Button) : BitVec 32 :=
  if isLow held .left ≠ 0 then left
  else if 0 ||| isLow held .down ≠ 0 then down
  else if 0 ||| isLow held .center ≠ 0 then center
  else if 0 ||| isLow held .right ≠ 0 then right
  else if 0 ||| isLow held .up ≠ 0 then up
  else 0

/-- The static variables which `menu` uses, and the flash storage. -/
structure Menu where
  lastButtons : BitVec 32
  unitNumber : ℤ
  unitStorage : ℤ
  deriving DecidableEq, Repr

def boot (stored : ℤ) : Menu := ⟨-1, 1, stored⟩

def menu (held : Finset Button) (m : Menu) : Menu :=
  let sw := getButtons held
  if m.lastButtons ≠ 0 ∧ sw ≠ 0 then m
  else
    let m := { m with lastButtons := 0 }
    if sw = 0 then m
    else
      let m := { m with lastButtons := sw }
      let m :=
        if sw &&& up ≠ 0 ∧ m.unitNumber < 24 then { m with unitNumber := m.unitNumber+1 }
        else if sw &&& down ≠ 0 ∧ 0 < m.unitNumber then { m with unitNumber := m.unitNumber-1 }
        else m
      { m with unitStorage := m.unitNumber }

/-- The state after calls of `menu` at which these buttons are held. -/
def afterCalls (stored : ℤ) (calls : List (Finset Button)) : Menu :=
  calls.foldl (fun m held => menu held m) (boot stored)

lemma afterCalls_append_singleton (stored : ℤ) (calls : List (Finset Button)) (held : Finset Button) :
    afterCalls stored (calls ++ [held]) = menu held (afterCalls stored calls) := by
  simp [afterCalls]

/-! What is read of a chord. -/

lemma getButtons_eq_zero (held : Finset Button) : getButtons held = 0 ↔ held = ∅ := by
  revert held
  decide

/-- UP is only read when it is the only button held. -/
lemma getButtons_up (held : Finset Button) : getButtons held &&& up ≠ 0 ↔ held = {.up} := by
  revert held
  decide

/-- DOWN is only read without LEFT. -/
lemma getButtons_down (held : Finset Button) :
    getButtons held &&& down ≠ 0 ↔ .down ∈ held ∧ .left ∉ held := by
  revert held
  decide

/-! One call. -/

/-- A button is held, and at the call before none was. -/
def Press (before : List (Finset Button)) (held : Finset Button) : Prop :=
  held ≠ ∅ ∧ before.getLast? = some ∅

/-- The number which the held buttons ask for. -/
def target (unitNumber : ℤ) (held : Finset Button) : ℤ :=
  if .up ∈ held ∧ unitNumber < 24 then unitNumber+1
  else if .down ∈ held ∧ 0 < unitNumber then unitNumber-1
  else unitNumber

/-- The number which the code computes. -/
def moved (unitNumber : ℤ) (held : Finset Button) : ℤ :=
  if held = {.up} ∧ unitNumber < 24 then unitNumber+1
  else if (.down ∈ held ∧ .left ∉ held) ∧ 0 < unitNumber then unitNumber-1
  else unitNumber

/-- No chord hides the button which counts: UP is held alone unless the number is at its
top, and not both LEFT and DOWN are held unless it is at its bottom. -/
def Legible (unitNumber : ℤ) (held : Finset Button) : Prop :=
  ¬ (.up ∈ held ∧ held ≠ {.up} ∧ unitNumber < 24) ∧ ¬ (.left ∈ held ∧ .down ∈ held ∧ 0 < unitNumber)

lemma moved_eq_target {unitNumber : ℤ} {held : Finset Button} :
    moved unitNumber held = target unitNumber held ↔ Legible unitNumber held := by
  have hup : held = {.up} → .up ∈ held ∧ .left ∉ held ∧ .down ∉ held := by
    rintro rfl
    decide
  unfold moved target Legible
  split_ifs with h1 h2 h3 h4 h5 <;> grind

lemma moved_range {unitNumber : ℤ} (h : 0 ≤ unitNumber ∧ unitNumber ≤ 24) (held : Finset Button) :
    0 ≤ moved unitNumber held ∧ moved unitNumber held ≤ 24 := by
  unfold moved
  split_ifs <;> omega

lemma menu_press {m : Menu} {held : Finset Button} (hlast : m.lastButtons = 0) (hheld : held ≠ ∅) :
    menu held m = ⟨getButtons held, moved m.unitNumber held, moved m.unitNumber held⟩ := by
  have hsw : getButtons held ≠ 0 := mt (getButtons_eq_zero held).mp hheld
  simp only [menu, getButtons_up, getButtons_down]
  rw [if_neg fun h => h.1 hlast, if_neg hsw, moved]
  split_ifs <;> rfl

lemma menu_idle {m : Menu} {held : Finset Button} (h : ¬ (m.lastButtons = 0 ∧ held ≠ ∅)) :
    menu held m = { m with lastButtons := if held = ∅ then 0 else m.lastButtons } := by
  unfold menu
  by_cases hheld : held = ∅
  · have hsw : getButtons held = 0 := (getButtons_eq_zero held).mpr hheld
    rw [if_neg fun hact => hact.2 hsw, if_pos hsw, if_pos hheld]
  · have hsw : getButtons held ≠ 0 := mt (getButtons_eq_zero held).mp hheld
    have hlast : m.lastButtons ≠ 0 := fun hzero => h ⟨hzero, hheld⟩
    rw [if_pos ⟨hlast, hsw⟩, if_neg hheld]

/-- The debounce: a call acts when the one before it has seen no button. -/
lemma lastButtons_eq_zero (stored : ℤ) (calls : List (Finset Button)) :
    (afterCalls stored calls).lastButtons = 0 ↔ calls.getLast? = some ∅ := by
  induction calls using List.reverseRecOn with
  | nil => exact iff_of_false (fun hzero => absurd hzero (by decide : (-1 : BitVec 32) ≠ 0)) (by simp)
  | append_singleton calls held ih =>
    rw [afterCalls_append_singleton, List.getLast?_concat, Option.some_inj]
    by_cases hpress : (afterCalls stored calls).lastButtons = 0 ∧ held ≠ ∅
    · rw [menu_press hpress.1 hpress.2]
      exact getButtons_eq_zero held
    · rw [menu_idle hpress]
      by_cases hheld : held = ∅
      · simp [hheld]
      · simpa [hheld] using fun hlast => hpress ⟨hlast, hheld⟩

lemma press_iff (stored : ℤ) {before : List (Finset Button)} {held : Finset Button} :
    Press before held ↔ (afterCalls stored before).lastButtons = 0 ∧ held ≠ ∅ := by
  rw [lastButtons_eq_zero, Press, and_comm]

/-! Runs. -/

/-- One call obeys the buttons: only a press moves the number, as asked, and it is stored. -/
structure Obeys (stored : ℤ) (before : List (Finset Button)) (held : Finset Button) : Prop where
  range : 0 ≤ (afterCalls stored (before ++ [held])).unitNumber ∧
    (afterCalls stored (before ++ [held])).unitNumber ≤ 24
  idle : ¬ Press before held →
    (afterCalls stored (before ++ [held])).unitNumber = (afterCalls stored before).unitNumber
  press : Press before held → (afterCalls stored (before ++ [held])).unitNumber =
    target (afterCalls stored before).unitNumber held
  written : Press before held → (afterCalls stored (before ++ [held])).unitStorage =
    (afterCalls stored (before ++ [held])).unitNumber

def FollowsButtons (stored : ℤ) (calls : List (Finset Button)) : Prop :=
  (afterCalls stored []).unitNumber = 1 ∧ Along (Obeys stored) calls

def LegiblePresses (stored : ℤ) (calls : List (Finset Button)) : Prop :=
  Along (fun before held => Press before held → Legible (afterCalls stored before).unitNumber held) calls

lemma unitNumber_range (stored : ℤ) (calls : List (Finset Button)) :
    0 ≤ (afterCalls stored calls).unitNumber ∧ (afterCalls stored calls).unitNumber ≤ 24 := by
  induction calls using List.reverseRecOn with
  | nil => exact ⟨(by norm_num : (0 : ℤ) ≤ 1), (by norm_num : (1 : ℤ) ≤ 24)⟩
  | append_singleton calls held ih =>
    rw [afterCalls_append_singleton]
    by_cases hpress : (afterCalls stored calls).lastButtons = 0 ∧ held ≠ ∅
    · rw [menu_press hpress.1 hpress.2]
      exact moved_range ih held
    · rw [menu_idle hpress]
      exact ih

lemma obeys_iff {stored : ℤ} {before : List (Finset Button)} {held : Finset Button} :
    Obeys stored before held ↔
      (Press before held → Legible (afterCalls stored before).unitNumber held) := by
  have hrange := unitNumber_range stored (before ++ [held])
  by_cases hpress : Press before held
  · obtain ⟨hlast, hheld⟩ := (press_iff stored).mp hpress
    have hstep : afterCalls stored (before ++ [held]) = _ :=
      (afterCalls_append_singleton stored before held).trans (menu_press hlast hheld)
    rw [← moved_eq_target]
    constructor
    · intro h _
      rw [← h.press hpress, hstep]
    · intro h
      refine ⟨hrange, fun hno => absurd hpress hno, fun _ => ?_, fun _ => ?_⟩
      · rw [hstep, h hpress]
      · rw [hstep]
  · have hidle := menu_idle (mt (press_iff stored).mpr hpress)
    refine iff_of_true ⟨hrange, fun _ => ?_, fun h => absurd h hpress, fun h => absurd h hpress⟩
      fun h => absurd h hpress
    rw [afterCalls_append_singleton, hidle]

/-- The unit number follows the buttons in exactly the runs whose presses are legible. -/
theorem followsButtons_iff (stored : ℤ) (calls : List (Finset Button)) :
    FollowsButtons stored calls ↔ LegiblePresses stored calls := by
  constructor
  · exact fun h => h.2.imp fun before held => obeys_iff.mp
  · exact fun h => ⟨rfl, h.imp fun before held => obeys_iff.mpr⟩

/-- UP and DOWN together are read as DOWN. -/
theorem not_followsButtons_chord : ¬ FollowsButtons 0 [∅, {.up, .down}] := by
  intro h
  have hobeys : Obeys 0 [∅] {.up, .down} := h.2 [∅] {.up, .down} [] rfl
  exact absurd (hobeys.press ⟨by decide, rfl⟩) (by decide)

end WaterHarp.ButtonMenu
