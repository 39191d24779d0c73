import WaterHarp.HarpRun

/-! The picture of `play_video` against the detector of `run`. Both classify a
pixel of the play region by its depth, but the picture leaves out the near
edge of the depth band, and a flat frame is not drawn at all. -/
namespace WaterHarp.PictureAgreement
open Program MatrixWindow StreamDetector VideoTexture HarpRun

def InPlay (r : Fin 240) (c : Fin 320) : Prop := (10 ≤ r.val ∧ r.val ≤ 229) ∧ 54 ≤ c.val ∧ c.val ≤ 294

/-- `np.where` lists the pixel in the bin of its column. -/
def Counted (dmap : DMap) (r : Fin 240) (c : Fin 320) : Prop :=
  ∃ i < 16, (xBin i ≤ c.val ∧ c.val < xBin (i+1)) ∧
    (r.val-top, c.val-xBin i) ∈
      belowThreshold (maskNear dmap) (xBins.getD i 0) (xBins.getD (i+1) 0)

/-- The picture shows the pixel as active. -/
def Marked (s : Harp) (r : Fin 240) (c : Fin 320) : Prop := (s.dtex c r).green = 255

lemma exists_bin {c : ℕ} (hlo : 54 ≤ c) (hhi : c ≤ 294) : ∃ i < 16, xBin i ≤ c ∧ c < xBin (i+1) := by
  have hfirst : xBin 0 = 54 := by rw [xBin, xBins_eq]; rfl
  have hlast : xBin 16 = 295 := by rw [xBin, xBins_eq]; rfl
  by_contra hn
  push Not at hn
  have hle : ∀ k ≤ 16, xBin k ≤ c := by
    intro k
    induction k with
    | zero => intro _; omega
    | succ k ih => exact fun hk => hn k (by omega) (ih (by omega))
  have := hle 16 le_rfl
  omega

lemma mem_belowThreshold {dmap : DMap} {r : Fin 240} {c : Fin 320} {l u : ℤ}
    (hr : 10 ≤ r.val ∧ r.val ≤ 229) (hc : l.toNat ≤ c.val ∧ c.val < u.toNat) :
    (r.val-top, c.val-l.toNat) ∈ belowThreshold dmap l u ↔ BelowThreshold (dmap r c) := by
  have hrow : r.val-top < min bottom 240-top := by unfold top bottom; omega
  have hcol : c.val-l.toNat < min u.toNat 320-l.toNat := by omega
  have hpixel : slice dmap top bottom l.toNat u.toNat ⟨_, hrow⟩ ⟨_, hcol⟩ = dmap r c := by
    unfold slice top
    congr 1
    · exact Fin.ext (by simp; omega)
    · exact Fin.ext (by simp; omega)
  rw [belowThreshold, List.mem_map]
  constructor
  · rintro ⟨q, hq, he⟩
    obtain rfl : q = (⟨_, hrow⟩, ⟨_, hcol⟩) := by
      simp only [Prod.mk.injEq] at he
      exact Prod.ext (Fin.ext he.1) (Fin.ext he.2)
    rw [← hpixel]
    exact mem_positions.mp hq
  · intro hb
    rw [← hpixel] at hb
    exact ⟨(⟨_, hrow⟩, ⟨_, hcol⟩), mem_positions.mpr hb, rfl⟩

theorem counted_iff {dmap : DMap} {r : Fin 240} {c : Fin 320} (h : InPlay r c) :
    Counted dmap r c ↔ 455 ≤ (dmap r c).toNat ∧ (dmap r c).toNat < 910 := by
  rw [← belowThreshold_maskNear]
  constructor
  · rintro ⟨i, -, hc, hmem⟩
    exact (mem_belowThreshold h.1 hc).mp hmem
  · intro hb
    obtain ⟨i, hi, hc⟩ := exists_bin h.2.1 h.2.2
    exact ⟨i, hi, hc, (mem_belowThreshold h.1 hc).mpr hb⟩

lemma marked_iff {frames : List DMap} {dmap : DMap} {t : Harp} (ht : run (frames ++ [dmap]) = .done t)
    (hflat : ¬ Flat dmap) (r : Fin 240) (c : Fin 320) :
    Marked t r c ↔ 455 < (dmap r c).toNat ∧ (dmap r c).toNat < 910 := by
  obtain ⟨s, t', -, ht', hvideo, -⟩ := run_last frames dmap
  obtain rfl : t' = t := by
    rw [ht] at ht'
    exact (Outcome.done.inj ht').symm
  obtain ⟨m, M, u, -, -, hu, htex⟩ := playVideo_drawn (by norm_num) (by norm_num) hflat s.dtex
  obtain rfl : u = t'.dtex := by
    rw [hvideo] at hu
    exact (Outcome.done.inj hu).symm
  rw [Marked, htex, shade, greenOf_eq]

/-- A drawn frame marks every counted pixel of the play region off the near edge, and no
other; a flat frame leaves the picture as it was. -/
theorem picture_agrees (frames : List DMap) (dmap : DMap) :
    ∃ s t, run frames = .done s ∧ run (frames ++ [dmap]) = .done t ∧
      (¬ Flat dmap → ∀ r c, InPlay r c → (dmap r c).toNat ≠ 455 → (Marked t r c ↔ Counted dmap r c)) ∧
      (Flat dmap → t.dtex = s.dtex) := by
  obtain ⟨s, t, hs, ht, hvideo, -⟩ := run_last frames dmap
  refine ⟨s, t, hs, ht, fun hflat r c hplay hedge => ?_, fun hflat => ?_⟩
  · rw [marked_iff ht hflat, counted_iff hplay]
    omega
  · rw [playVideo_flat (by norm_num) (by norm_num) hflat] at hvideo
    exact (Outcome.done.inj hvideo).symm

def flatFrame : DMap := fun _ _ => 500
def edgeFrame : DMap := fun r _ => if r = 0 then 0 else 455

/-- A flat frame inside the band is counted and not drawn; a pixel on the near edge is
counted and drawn as idle. -/
theorem picture_disagrees :
    (∃ t, run [flatFrame] = .done t ∧ ¬ (Marked t 100 100 ↔ Counted flatFrame 100 100)) ∧
    (∃ t, run [edgeFrame] = .done t ∧ ¬ (Marked t 100 100 ↔ Counted edgeFrame 100 100)) := by
  have hplay : InPlay 100 100 := by unfold InPlay; decide
  constructor
  · obtain ⟨s, t, hs, ht, hvideo, -⟩ := run_last [] flatFrame
    obtain rfl : fresh = s := Outcome.done.inj hs
    have hflat : Flat flatFrame := fun _ _ _ _ => rfl
    rw [playVideo_flat (by norm_num) (by norm_num) hflat] at hvideo
    have hmarked : ¬ Marked t 100 100 := by
      rw [Marked, ← Outcome.done.inj hvideo]
      decide
    have hcounted : Counted flatFrame 100 100 := (counted_iff hplay).mpr (by decide)
    exact ⟨t, ht, fun hiff => hmarked (hiff.mpr hcounted)⟩
  · obtain ⟨s, t, -, ht, -, -⟩ := run_last [] edgeFrame
    have hflat : ¬ Flat edgeFrame := fun h => absurd (h 0 0 1 0) (by decide)
    have hmarked : ¬ Marked t 100 100 := by
      rw [marked_iff ht hflat]
      decide
    have hcounted : Counted edgeFrame 100 100 := (counted_iff hplay).mpr (by decide)
    exact ⟨t, ht, fun hiff => hmarked (hiff.mpr hcounted)⟩

end WaterHarp.PictureAgreement
