import WaterHarp.CameraState

/-! The window which `get_depth` cuts from the frame of 240 rows and 320 columns.
Its size and center are clamped row first, while `getRectSubPix` reads the column
first; the zooms and aims for which the window stays in the frame are characterised. -/
namespace WaterHarp.CameraWindow
open Program Rounding CameraState

variable {K α : Type*} [Field K] [LinearOrder K] [IsStrictOrderedRing K] [FloorRing K]

lemma trunc_side {extent : ℤ} (he : 0 ≤ extent) {zoom : K} (hz : 1 ≤ zoom) :
    0 ≤ trunc ((extent : K)/zoom) ∧ trunc ((extent : K)/zoom) ≤ extent := by
  have hext : (0 : K) ≤ extent := by exact_mod_cast he
  have hpos : (0 : K) < zoom := lt_of_lt_of_le zero_lt_one hz
  have hle : (extent : K)/zoom ≤ extent := div_le_self hext hz
  rw [trunc_of_nonneg (div_nonneg hext hpos.le)]
  exact ⟨Int.floor_nonneg.mpr (div_nonneg hext hpos.le), Int.floor_le_iff.mpr (by linarith)⟩

omit [FloorRing K] in
lemma clampCenter_inside {extent : K} {sz : ℤ} (hsz : (sz : K) ≤ extent) (center : K) :
    0 ≤ clampCenter extent sz center-sz/2 ∧ clampCenter extent sz center+sz/2 ≤ extent := by
  unfold clampCenter
  split_ifs <;> constructor <;> linarith

omit [FloorRing K] in
/-- Against a smaller extent the moved window fits just when it and its unmoved end do. -/
lemma clampCenter_le_iff {extent bound : K} (sz : ℤ) (hb : bound < extent) (center : K) :
    clampCenter extent sz center+sz/2 ≤ bound ↔ (sz : K) ≤ bound ∧ center+sz/2 ≤ bound := by
  unfold clampCenter
  split_ifs with hlow hhigh
  · constructor
    · intro h
      constructor <;> linarith
    · rintro ⟨h, -⟩
      linarith
  · constructor
    · intro h
      linarith
    · rintro ⟨-, h⟩
      linarith
  · constructor
    · intro h
      constructor <;> linarith
    · exact fun h => h.2

theorem zoomWindow_inside_iff {zoom : K} (hz : 1 ≤ zoom) (aim : K × K) :
    Inside (zoomWindow zoom aim) ↔ FitsRows zoom aim := by
  obtain ⟨-, hwidth⟩ := trunc_side (show (0 : ℤ) ≤ 240 by norm_num) hz
  obtain ⟨-, hheight⟩ := trunc_side (show (0 : ℤ) ≤ 320 by norm_num) hz
  push_cast at hwidth hheight
  have hw : ((trunc (240/zoom) : ℤ) : K) ≤ 240 := by exact_mod_cast hwidth
  have hh : ((trunc (320/zoom) : ℤ) : K) ≤ 320 := by exact_mod_cast hheight
  obtain ⟨hx0, hx1⟩ := clampCenter_inside hw (120+90*aim.1)
  obtain ⟨hy0, -⟩ := clampCenter_inside hh (160-120*aim.2)
  have hfits := clampCenter_le_iff (trunc (320/zoom))
    (show (240 : K) < 320 by norm_num) (160-120*aim.2)
  have hrows : Inside (zoomWindow zoom aim) ↔
      ((trunc (320/zoom) : ℤ) : K) ≤ 240 ∧ 160-120*aim.2+((trunc (320/zoom) : ℤ) : K)/2 ≤ 240 := by
    rw [← hfits]
    exact ⟨fun h => h.2.2, fun h => ⟨⟨hx0, hx1.trans (by norm_num)⟩, hy0, h⟩⟩
  have hpos : (0 : K) < zoom := lt_of_lt_of_le zero_lt_one hz
  have hside : ((⌊320/zoom⌋ : ℤ) : K) ≤ 240 ↔ 320 < 241*zoom := by
    rw [← div_lt_iff₀ hpos]
    have hfloor : ⌊320/zoom⌋ < 241 ↔ 320/zoom < (241 : ℤ) := Int.floor_lt
    push_cast at hfloor
    rw [← hfloor, ← Int.le_sub_one_iff]
    exact_mod_cast Iff.rfl
  rw [hrows, trunc_of_nonneg (by positivity), hside, FitsRows]
  exact and_congr_right fun _ => ⟨fun h => by linarith, fun h => by linarith⟩

lemma not_whole_one (aim : K × K) : ¬ Whole (zoomWindow (1 : K) aim) ∧ ¬ FitsRows (1 : K) aim := by
  have hside : trunc ((320 : K)/1) = 320 := by
    rw [div_one]
    exact_mod_cast trunc_intCast (K := K) 320
  constructor
  · rintro ⟨hsize, -⟩
    have := congrArg Prod.snd hsize
    simp only [zoomWindow, hside] at this
    norm_num at this
  · rintro ⟨hle, -⟩
    norm_num at hle

omit [IsStrictOrderedRing K] in
lemma zoom_ge_one {events : List (Event K α)} (h : ∀ e ∈ events, ZoomInRange e) :
    1 ≤ (after events).zoom := by
  induction events using List.reverseRecOn with
  | nil => exact le_rfl
  | append_singleton events e ih =>
    have hzoom := ih fun x hx => h x (by simp [hx])
    rw [after_append_singleton]
    match e, h e (by simp) with
    | .message (.zoom x), hx => exact hx.1
    | .message (.rangeMin x), _ => exact hzoom
    | .message (.rangeMax x), _ => exact hzoom
    | .message (.aim x y), _ => exact hzoom
    | .message (.capture arg), _ =>
      simp only [handle, handleMessage, captureHandler, Outcome.state_done]
      split_ifs <;> exact hzoom
    | .getDepth dmap saves, _ =>
      have hview := (recordFrame_view dmap saves (after events)).1
      simp only [handle, getDepth]
      cases hr : recordFrame dmap saves (after events) with
      | done c =>
        rw [hr, Outcome.state_done] at hview
        rw [Outcome.bind_done]
        split_ifs <;> simpa [hview] using hzoom
      | raised e c =>
        rw [hr, Outcome.state_raised] at hview
        simpa [hview] using hzoom

/-- In every run each call asks for one window, which lies in the frame, and is the whole
frame at zoom 1, exactly when the zoom and the aim at that moment fit it to the rows. -/
theorem window_inside_iff (events : List (Event K α)) (h : ∀ e ∈ events, ZoomInRange e) (dmap : α) :
    ∃ c r, getDepth dmap true (after events) = .done c ∧ c.patches = (after events).patches ++ [r] ∧
      ((Inside r ∧ ((after events).zoom = 1 → Whole r)) ↔
        FitsRows (after events).zoom (after events).aim) := by
  have hz := zoom_ge_one h
  have hne : (after events).zoom ≠ 0 := (lt_of_lt_of_le zero_lt_one hz).ne'
  obtain ⟨hzoom, haim, hpatches⟩ := recordFrame_view dmap true (after events)
  obtain ⟨d, hd⟩ : ∃ d, recordFrame dmap true (after events) = .done d := by
    simp only [recordFrame]
    split_ifs <;> exact ⟨_, rfl⟩
  rw [hd, Outcome.state_done] at hzoom haim hpatches
  refine ⟨{ d with patches := d.patches ++ [zoomWindow d.zoom d.aim] },
    zoomWindow (after events).zoom (after events).aim, ?_, ?_, ?_⟩
  · rw [getDepth, hd, Outcome.bind_done, if_neg (by rwa [hzoom])]
  · simp only [hpatches, hzoom, haim]
  · rw [zoomWindow_inside_iff hz]
    constructor
    · exact fun hin => hin.1
    · refine fun hfits => ⟨hfits, fun hone => ?_⟩
      rw [hone] at hfits
      exact absurd hfits (not_whole_one _).2

theorem window_inside_iff_zoom_two :
    ∃ c r, getDepth 0 true (after [Event.message (.zoom (2 : ℚ))]) = .done c ∧
      c.patches = (after [Event.message (.zoom (2 : ℚ))] : DepthCamera ℚ ℕ).patches ++ [r] ∧
      ((Inside r ∧ ((after [Event.message (.zoom (2 : ℚ))] : DepthCamera ℚ ℕ).zoom = 1 → Whole r)) ↔
        FitsRows (after [Event.message (.zoom (2 : ℚ))] : DepthCamera ℚ ℕ).zoom
          (after [Event.message (.zoom (2 : ℚ))] : DepthCamera ℚ ℕ).aim) :=
  window_inside_iff _ (by norm_num [ZoomInRange]) 0

theorem window_outside_at_zoom_one :
    ¬ ∀ events : List (Event ℚ ℕ), (∀ e ∈ events, ZoomInRange e) → ∀ dmap c r,
      getDepth dmap true (after events) = .done c → c.patches = (after events).patches ++ [r] →
      Inside r ∧ ((after events).zoom = 1 → Whole r) := by
  intro h
  have hin := (h [] (by simp) 0 ⟨500, 2000, 1, (0, 0), 0, [], true, [], [⟨(240, 320), (120, 160)⟩]⟩
    ⟨(240, 320), (120, 160)⟩ (by decide +kernel) rfl).1
  have hrows := hin.2.2
  norm_num at hrows

end WaterHarp.CameraWindow
