import WaterHarp.Program
import WaterHarp.Rounding
import WaterHarp.PythonValues

/-! `DepthCamera`: the handlers of the OSC messages and `get_depth`, up to the
image filters, which change neither the object nor the window it asks for. -/
namespace WaterHarp.CameraState
open Program Rounding PythonValues

/-- A window of `cv2.getRectSubPix`, as its arguments are passed. -/
structure SubPixWindow (K : Type*) where
  patchSize : ℤ × ℤ
  center : K × K
  deriving DecidableEq, Repr

structure DepthCamera (K α : Type*) where
  mindist : K
  maxdist : K
  zoom : K
  aim : K × K
  savecnt : ℕ
  saveDepth : List α
  refreshGUI : Bool
  files : List (List α)
  patches : List (SubPixWindow K)
  deriving DecidableEq, Repr

inductive OscArg (K : Type*)
  | number (x : K)
  | text (s : String)
  deriving DecidableEq, Repr

inductive Message (K : Type*)
  | rangeMin (x : K)
  | rangeMax (x : K)
  | zoom (x : K)
  | aim (x y : K)
  | capture (arg : OscArg K)
  deriving DecidableEq, Repr

/-- `get_depth` is called with the next frame, and `savemat` will succeed or not. -/
inductive Event (K α : Type*)
  | message (m : Message K)
  | getDepth (dmap : α) (saves : Bool)
  deriving DecidableEq, Repr

variable {K α : Type*} [Field K] [LinearOrder K] [FloorRing K]

def init : DepthCamera K α := ⟨500, 2000, 1, (0, 0), 0, [], true, [], []⟩

def rangeHandler (c : DepthCamera K α) : DepthCamera K α :=
  { c with maxdist := if c.maxdist < c.mindist+10 then c.mindist+10 else c.maxdist, refreshGUI := true }

def zoomHandler (x : K) (c : DepthCamera K α) : DepthCamera K α := { c with zoom := x, refreshGUI := true }

def aimHandler (x y : K) (c : DepthCamera K α) : DepthCamera K α := { c with aim := (x, y), refreshGUI := true }

def captureHandler (arg : OscArg K) (c : DepthCamera K α) : DepthCamera K α :=
  if arg = .number 1 then { c with savecnt := 20 } else c

def handleMessage (m : Message K) (c : DepthCamera K α) : DepthCamera K α :=
  match m with
  | .rangeMin x => rangeHandler { c with mindist := x }
  | .rangeMax x => rangeHandler { c with maxdist := x }
  | .zoom x => zoomHandler x c
  | .aim x y => aimHandler x y c
  | .capture arg => captureHandler arg c

def recordFrame (dmap : α) (saves : Bool) (c : DepthCamera K α) : Outcome PyError (DepthCamera K α) :=
  if c.saveDepth.length < c.savecnt then
    let saveDepth := c.saveDepth ++ [dmap]
    if saveDepth.length = c.savecnt then
      if saves then .done { c with files := c.files ++ [saveDepth], saveDepth := [], savecnt := 0 }
      else .raised .osError { c with saveDepth }
    else .done { c with saveDepth }
  else .done c

/-- One coordinate of the center, moved so that a window of length `sz` stays in `0..extent`. -/
def clampCenter (extent : K) (sz : ℤ) (center : K) : K :=
  if center-sz/2 < 0 then sz/2 else if center+sz/2 > extent then extent-sz/2 else center

def zoomWindow (zoom : K) (aim : K × K) : SubPixWindow K :=
  let sz := (trunc (240/zoom), trunc (320/zoom))
  ⟨sz, clampCenter 240 sz.1 (120+90*aim.1), clampCenter 320 sz.2 (160-120*aim.2)⟩

def getDepth (dmap : α) (saves : Bool) (c : DepthCamera K α) : Outcome PyError (DepthCamera K α) :=
  (recordFrame dmap saves c).bind fun c =>
    if c.zoom = 0 then .raised .zeroDivisionError c
    else .done { c with patches := c.patches ++ [zoomWindow c.zoom c.aim] }

def handle (e : Event K α) (c : DepthCamera K α) : Outcome PyError (DepthCamera K α) :=
  match e with
  | .message m => .done (handleMessage m c)
  | .getDepth dmap saves => getDepth dmap saves c

def after (events : List (Event K α)) : DepthCamera K α := persist handle events init

lemma after_append_singleton (events : List (Event K α)) (e : Event K α) :
    after (events ++ [e]) = (handle e (after events)).state :=
  persist_append_singleton ..

lemma getDepth_recorded (dmap : α) (saves : Bool) (c : DepthCamera K α) :
    (getDepth dmap saves c).state.savecnt = (recordFrame dmap saves c).state.savecnt ∧
    (getDepth dmap saves c).state.saveDepth = (recordFrame dmap saves c).state.saveDepth ∧
    (getDepth dmap saves c).state.files = (recordFrame dmap saves c).state.files := by
  unfold getDepth
  cases recordFrame dmap saves c with
  | done d =>
    rw [Outcome.bind_done]
    split_ifs <;> exact ⟨rfl, rfl, rfl⟩
  | raised e d => exact ⟨rfl, rfl, rfl⟩

omit [Field K] [LinearOrder K] [FloorRing K] in
lemma recordFrame_view (dmap : α) (saves : Bool) (c : DepthCamera K α) :
    (recordFrame dmap saves c).state.zoom = c.zoom ∧ (recordFrame dmap saves c).state.aim = c.aim ∧
    (recordFrame dmap saves c).state.patches = c.patches := by
  simp only [recordFrame]
  split_ifs <;> exact ⟨rfl, rfl, rfl⟩

/-! The frame of 240 rows and 320 columns around a window. -/

/-- The window lies in the frame, read as (width, height) and (x, y). -/
def Inside (r : SubPixWindow K) : Prop :=
  (0 ≤ r.center.1-r.patchSize.1/2 ∧ r.center.1+r.patchSize.1/2 ≤ 320) ∧
  0 ≤ r.center.2-r.patchSize.2/2 ∧ r.center.2+r.patchSize.2/2 ≤ 240

def Whole (r : SubPixWindow K) : Prop := r.patchSize = (320, 240) ∧ r.center = (160, 120)

def ZoomInRange : Event K α → Prop
  | .message (.zoom x) => 1 ≤ x ∧ x ≤ 240
  | _ => True

/-- Zoomed in by more than 320/241 and aimed far enough to the second side. -/
def FitsRows (zoom : K) (aim : K × K) : Prop :=
  320 < 241*zoom ∧ (⌊320/zoom⌋ : K)/2-80 ≤ 120*aim.2

end WaterHarp.CameraState
