import WaterHarp.VideoTexture

/-! `play_video` over a sequence of frames. The texture persists between frames, and
a frame which is not flat writes all of its pixels anew. -/
namespace WaterHarp.VideoHistory
open Program PythonValues VideoTexture

variable {h w : ℕ}

def playVideos (frames : List (Matrix (Fin h) (Fin w) UInt16)) : Outcome PyError (Texture w h) :=
  runAll playVideo frames blank

/-- The depths which occur in a frame. -/
def depthSet (dmap : Matrix (Fin h) (Fin w) UInt16) : Set ℕ :=
  Set.range fun q : Fin h × Fin w => (dmap q.1 q.2).toNat

lemma mem_depthSet {dmap : Matrix (Fin h) (Fin w) UInt16} {d : ℕ} : d ∈ depthSet dmap ↔ d ∈ depths dmap := by
  rw [mem_depths]
  constructor
  · rintro ⟨q, rfl⟩
    exact ⟨q.1, q.2, rfl⟩
  · rintro ⟨r, c, rfl⟩
    exact ⟨(r, c), rfl⟩

/-- No blue has been drawn. -/
def Blueless (dtex : Texture w h) : Prop := ∀ x y, (dtex x y).blue = 0

lemma playVideo_blueless (hh : 0 < h) (hw : 0 < w) (dmap : Matrix (Fin h) (Fin w) UInt16) :
    Establishes Blueless (playVideo dmap) Blueless := by
  intro dtex hblue
  by_cases hflat : Flat dmap
  · exact ⟨dtex, playVideo_flat hh hw hflat dtex, hblue⟩
  · obtain ⟨m, M, t, -, -, ht, htex⟩ := playVideo_drawn hh hw hflat dtex
    refine ⟨t, ht, fun x y => ?_⟩
    rw [htex]
    exact hblue x y

lemma playVideos_blueless (hh : 0 < h) (hw : 0 < w) (frames : List (Matrix (Fin h) (Fin w) UInt16)) :
    ∃ t, playVideos frames = .done t ∧ Blueless t :=
  runAll_invariant playVideo frames Blueless (fun dmap _ => playVideo_blueless hh hw dmap)
    blank (fun _ _ => rfl)

/-- The texture after a frame with least depth `m` and greatest depth `M`. -/
structure Redrawn (dmap : Matrix (Fin h) (Fin w) UInt16) (m M : ℕ) (t : Texture w h) : Prop where
  red : ∀ x y, (t x y).red = ⌊(((dmap y x).toNat : ℚ)-m)*255/(M-m)⌋₊
  bounded : ∀ x y, (t x y).red ≤ 255
  least : ∀ x y, (dmap y x).toNat = m → (t x y).red = 0
  greatest : ∀ x y, (t x y).red = 255 ↔ (dmap y x).toNat = M
  mono : ∀ x y x' y', (dmap y x).toNat ≤ (dmap y' x').toNat → (t x y).red ≤ (t x' y').red
  green : ∀ x y, (t x y).green = 0 ∨ (t x y).green = 255
  blue : ∀ x y, (t x y).blue = 0

/-! The red channel as a function of the depth. -/

def redOf (m M d : ℕ) : ℕ := (d-m)*255/(M-m)

lemma redOf_eq_floor {m M d : ℕ} (hm : m ≤ d) (hM : m ≤ M) :
    redOf m M d = ⌊((d : ℚ)-m)*255/(M-m)⌋₊ := by
  have hquot : ((d : ℚ)-m)*255/(M-m) = (((d-m)*255 : ℕ) : ℚ)/((M-m : ℕ) : ℚ) := by
    rw [Nat.cast_mul, Nat.cast_sub hm, Nat.cast_sub hM]
    rfl
  rw [hquot, Nat.floor_div_eq_div, redOf]

lemma redOf_le {m M d : ℕ} (hd : d ≤ M) : redOf m M d ≤ 255 := by
  apply Nat.div_le_of_le_mul
  have hsub : d-m ≤ M-m := Nat.sub_le_sub_right hd m
  exact Nat.mul_le_mul_right 255 hsub

lemma redOf_mono (m M : ℕ) {d d' : ℕ} (h : d ≤ d') : redOf m M d ≤ redOf m M d' := by
  apply Nat.div_le_div_right
  exact Nat.mul_le_mul_right 255 (Nat.sub_le_sub_right h m)

/-- Only the greatest depth is shown at full red. -/
lemma redOf_eq_top {m M d : ℕ} (hlt : m < M) (hm : m ≤ d) (hd : d ≤ M) : redOf m M d = 255 ↔ d = M := by
  have hpos : 0 < M-m := Nat.sub_pos_of_lt hlt
  constructor
  · intro htop
    have hle : 255 ≤ (d-m)*255/(M-m) := by rw [← redOf, htop]
    have hmul := (Nat.le_div_iff_mul_le hpos).mp hle
    omega
  · rintro rfl
    rw [redOf, mul_comm]
    exact Nat.mul_div_cancel 255 hpos

lemma redrawn_of_shaded {dmap : Matrix (Fin h) (Fin w) UInt16} {m M : ℕ} (hlt : m < M)
    (hbounds : ∀ y x, m ≤ (dmap y x).toNat ∧ (dmap y x).toNat ≤ M) {old t : Texture w h}
    (hold : Blueless old) (ht : ∀ x y, t x y = shade m M (dmap y x) (old x y)) : Redrawn dmap m M t := by
  have hred : ∀ x y, (t x y).red = redOf m M (dmap y x).toNat := by
    intro x y
    rw [ht]
    rfl
  constructor
  · intro x y
    rw [hred, redOf_eq_floor (hbounds y x).1 hlt.le]
  · intro x y
    rw [hred]
    exact redOf_le (hbounds y x).2
  · intro x y hm
    simp [hred, redOf, hm]
  · intro x y
    rw [hred]
    exact redOf_eq_top hlt (hbounds y x).1 (hbounds y x).2
  · intro x y x' y' hle
    rw [hred, hred]
    exact redOf_mono m M hle
  · intro x y
    rw [ht]
    simp only [shade, greenOf]
    split_ifs
    · exact .inr rfl
    · exact .inl rfl
  · intro x y
    rw [ht]
    exact hold x y

lemma playVideo_shaded {dmap : Matrix (Fin h) (Fin w) UInt16} {m M : ℕ} (hm : IsLeast (depthSet dmap) m)
    (hM : IsGreatest (depthSet dmap) M) (hlt : m < M) (old : Texture w h) :
    ∃ t, playVideo dmap old = .done t ∧ ∀ x y, t x y = shade m M (dmap y x) (old x y) := by
  obtain ⟨⟨q, hq⟩, hleast⟩ := hm
  obtain ⟨⟨q', hq'⟩, hgreatest⟩ := hM
  have hflat : ¬ Flat dmap := by
    intro hflat
    have := hflat q.1 q.2 q'.1 q'.2
    dsimp only at hq hq'
    omega
  obtain ⟨m', M', t, hmin, hmax, ht, htex⟩ := playVideo_drawn q.1.pos q.2.pos hflat old
  obtain ⟨hm', hmle⟩ := List.min?_eq_some_iff.mp hmin
  obtain ⟨hM', hMle⟩ := List.max?_eq_some_iff.mp hmax
  have hmin : m' = m := le_antisymm (hmle m (mem_depthSet.mp ⟨q, hq⟩)) (hleast (mem_depthSet.mpr hm'))
  have hmax : M' = M := le_antisymm (hgreatest (mem_depthSet.mpr hM')) (hMle M (mem_depthSet.mp ⟨q', hq'⟩))
  rw [hmin, hmax] at htex
  exact ⟨t, ht, htex⟩

/-- After any frames a frame which is not flat is the whole picture, as if it had been the
only one. -/
theorem playVideos_redrawn (frames : List (Matrix (Fin h) (Fin w) UInt16))
    (dmap : Matrix (Fin h) (Fin w) UInt16) {m M : ℕ} (hm : IsLeast (depthSet dmap) m)
    (hM : IsGreatest (depthSet dmap) M) (hlt : m < M) :
    ∃ t, playVideos (frames ++ [dmap]) = .done t ∧ playVideos [dmap] = .done t ∧ Redrawn dmap m M t := by
  obtain ⟨q, -⟩ := hm.1
  obtain ⟨old, hold, hblue⟩ := playVideos_blueless q.1.pos q.2.pos frames
  obtain ⟨t, ht, htex⟩ := playVideo_shaded hm hM hlt old
  obtain ⟨t', ht', htex'⟩ := playVideo_shaded hm hM hlt blank
  have hsame : t' = t := by
    ext x y
    rw [htex, htex', shade, shade, hblue x y]
    rfl
  refine ⟨t, ?_, ?_, ?_⟩
  · rw [playVideos, runAll_append_singleton, ← playVideos, hold, Outcome.bind_done, ht]
  · rw [playVideos, runAll_cons, ht', hsame]
    rfl
  · exact redrawn_of_shaded hlt (fun y x => ⟨hm.2 ⟨(y, x), rfl⟩, hM.2 ⟨(y, x), rfl⟩⟩) hblue htex

theorem playVideos_redrawn_square :
    ∃ t, playVideos [fun _ _ => 7, ![![0, 500], ![10, 1000]]] = .done t ∧
      playVideos [![![0, 500], ![10, 1000]]] = .done t ∧
      Redrawn (h := 2) (w := 2) ![![0, 500], ![10, 1000]] 0 1000 t :=
  playVideos_redrawn [fun _ _ => 7] _
    ⟨⟨(0, 0), rfl⟩, fun _ _ => Nat.zero_le _⟩
    ⟨⟨(1, 1), rfl⟩, by
      rintro _ ⟨q, rfl⟩
      revert q
      decide⟩ (by norm_num)

end WaterHarp.VideoHistory
