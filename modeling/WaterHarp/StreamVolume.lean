import WaterHarp.PictureAgreement

/-! What the array of `run` says about a frame. The bins count every touched pixel
once, an entry depends on its own bin alone, and a raised hand is never softer. -/
namespace WaterHarp.StreamVolume
open Program Rounding PythonValues StreamDetector AudioNotes HarpRun PictureAgreement

/-- `below_threshold` in the round of bin `i`. -/
def binBelow (dmap : DMap) (i : ℕ) : List (ℕ × ℕ) :=
  belowThreshold (maskNear dmap) (xBins.getD i 0) (xBins.getD (i+1) 0)

def numBelow (dmap : DMap) (i : ℕ) : ℕ := (binBelow dmap i).length

/-- `volume` in the round of bin `i`, before the cap. -/
def volume (dmap : DMap) (i : ℕ) : ℚ :=
  roundTo 100 (13/10-mean ((binBelow dmap i).map fun q => (q.1 : ℚ))/(bottom-top : ℕ))

lemma numBelow_eq (dmap : DMap) (i : ℕ) : numBelow dmap i = (binPixels dmap i).card :=
  length_belowThreshold dmap rfl rfl

lemma volume_eq (dmap : DMap) (i : ℕ) : volume dmap i = roundTo 100 (13/10-meanRow dmap i/220) := by
  rw [volume, binBelow, mean_belowThreshold dmap rfl rfl]
  norm_num [bottom, top]

lemma indicator_eq_volume {dmap : DMap} {i : ℕ} (h : Touched dmap i) :
    indicator dmap i = min (volume dmap i) 1 := by
  rw [indicator, if_pos h, volume_eq]

lemma indicator_eq (dmap : DMap) (i : ℕ) :
    indicator dmap i = if 50 < numBelow dmap i then min (volume dmap i) 1 else 0 := by
  by_cases h : Touched dmap i
  · rw [indicator_eq_volume h, if_pos ((numBelow_eq dmap i).symm ▸ h)]
  · rw [indicator_of_not_touched h, if_neg ((numBelow_eq dmap i).symm ▸ h)]

/-! The bins cut the play region into pieces. -/

lemma xBin_mono {i j : ℕ} (hij : i ≤ j) (hj : j ≤ 16) : xBin i ≤ xBin j := by
  have hall : ∀ j ≤ 16, ∀ i ≤ j, xBin i ≤ xBin j := by
    unfold xBin
    rw [xBins_eq]
    decide
  exact hall j hj i hij

lemma xBin_edges : xBin 0 = 54 ∧ xBin 1 = 69 ∧ xBin 16 = 295 := by
  unfold xBin
  rw [xBins_eq]
  decide

lemma bin_unique {i j c : ℕ} (hi : i < 16) (hj : j < 16) (hci : xBin i ≤ c ∧ c < xBin (i+1))
    (hcj : xBin j ≤ c ∧ c < xBin (j+1)) : i = j := by
  cases Nat.lt_trichotomy i j with
  | inl h =>
    have := xBin_mono (show i+1 ≤ j by omega) (by omega)
    omega
  | inr h =>
    cases h with
    | inl h => exact h
    | inr h =>
      have := xBin_mono (show j+1 ≤ i by omega) (by omega)
      omega

instance (r : Fin 240) (c : Fin 320) : Decidable (InPlay r c) := inferInstanceAs (Decidable (_ ∧ _))

def playPixels (dmap : DMap) : Finset (Fin 240 × Fin 320) :=
  Finset.univ.filter fun q => InPlay q.1 q.2 ∧ 455 ≤ (dmap q.1 q.2).toNat ∧ (dmap q.1 q.2).toNat < 910

lemma mem_playPixels {dmap : DMap} {q : Fin 240 × Fin 320} : q ∈ playPixels dmap ↔
    InPlay q.1 q.2 ∧ 455 ≤ (dmap q.1 q.2).toNat ∧ (dmap q.1 q.2).toNat < 910 := by
  simp only [playPixels, Finset.mem_filter, Finset.mem_univ, true_and]

-- no unifier is to enumerate the frame
attribute [irreducible] playPixels

lemma playPixels_eq (dmap : DMap) :
    playPixels dmap = (Finset.range 16).biUnion (binPixels dmap) := by
  ext q
  rw [mem_playPixels, Finset.mem_biUnion]
  constructor
  · intro h
    obtain ⟨i, hi, hcol⟩ := exists_bin h.1.2.1 h.1.2.2
    exact ⟨i, Finset.mem_range.mpr hi, mem_binPixels.mpr ⟨h.1.1, hcol, h.2⟩⟩
  · rintro ⟨i, hi, hq⟩
    have hi' := Finset.mem_range.mp hi
    have hfirst := xBin_mono (Nat.zero_le i) (by omega)
    have hlast := xBin_mono (show i+1 ≤ 16 by omega) le_rfl
    have hedges := xBin_edges
    obtain ⟨hrow, hcol, hdepth⟩ := mem_binPixels.mp hq
    exact ⟨⟨hrow, by omega, by omega⟩, hdepth⟩

lemma sum_numBelow (dmap : DMap) : ∑ i ∈ Finset.range 16, numBelow dmap i = (playPixels dmap).card := by
  rw [playPixels_eq, Finset.card_biUnion]
  · exact Finset.sum_congr rfl fun i _ => numBelow_eq dmap i
  · intro i hi j hj hne
    refine Finset.disjoint_left.mpr fun q hqi hqj => hne ?_
    exact bin_unique (Finset.mem_range.mp hi) (Finset.mem_range.mp hj)
      (mem_binPixels.mp hqi).2.1 (mem_binPixels.mp hqj).2.1

/-- `np.where` lists the pixel in bin `i`. -/
def CountedIn (dmap : DMap) (i : ℕ) (q : Fin 240 × Fin 320) : Prop :=
  (xBin i ≤ q.2.val ∧ q.2.val < xBin (i+1)) ∧ (q.1.val-top, q.2.val-xBin i) ∈ binBelow dmap i

lemma countedIn_unique {dmap : DMap} {q : Fin 240 × Fin 320} (h : q ∈ playPixels dmap) :
    ∃! i, i < 16 ∧ CountedIn dmap i q := by
  obtain ⟨hplay, hdepth⟩ := mem_playPixels.mp h
  obtain ⟨i, hi, hcol, hmem⟩ := (counted_iff hplay).mpr hdepth
  exact ⟨i, ⟨hi, hcol, hmem⟩, fun j hj => bin_unique hj.1 hi hj.2.1 hcol⟩

/-! One bin. -/

def SameBin (i : ℕ) (F G : DMap) : Prop := ∀ r c, 10 ≤ r.val ∧ r.val ≤ 229 →
  xBin i ≤ c.val ∧ c.val < xBin (i+1) → F r c = G r c

lemma binPixels_congr {i : ℕ} {F G : DMap} (h : SameBin i F G) : binPixels F i = binPixels G i := by
  ext q
  rw [mem_binPixels, mem_binPixels]
  constructor
  · rintro ⟨hrow, hcol, hdepth⟩
    exact ⟨hrow, hcol, by rwa [← h q.1 q.2 hrow hcol]⟩
  · rintro ⟨hrow, hcol, hdepth⟩
    exact ⟨hrow, hcol, by rwa [h q.1 q.2 hrow hcol]⟩

lemma indicator_congr {i : ℕ} {F G : DMap} (h : SameBin i F G) : indicator F i = indicator G i := by
  have hpixels := binPixels_congr h
  have hrow : meanRow F i = meanRow G i := by rw [meanRow, meanRow, hpixels]
  by_cases hF : Touched F i
  · have hG : Touched G i := by rwa [Touched, hpixels] at hF
    rw [indicator, indicator, if_pos hF, if_pos hG, hrow]
  · have hG : ¬ Touched G i := by rwa [Touched, hpixels] at hF
    rw [indicator_of_not_touched hF, indicator_of_not_touched hG]

/-- The array for a frame: it has an entry for each stream, in its range, and the entry
is the volume of the bin when more than fifty of its pixels count. -/
structure Described (dmap : DMap) (array : List ℚ) : Prop where
  length : array.length = 16
  entries : ∀ i < 16, array[i]? = some (if 50 < numBelow dmap i then min (volume dmap i) 1 else 0)
  total : ∑ i ∈ Finset.range 16, numBelow dmap i = (playPixels dmap).card
  once : ∀ q ∈ playPixels dmap, ∃! i, i < 16 ∧ CountedIn dmap i q
  range : ∀ entry ∈ array, entry = 0 ∨ 3/10 ≤ entry ∧ entry ≤ 1

/-- The array which `run` passes to `play_notes` describes the frame bin by bin. -/
theorem scan_describes (dmap : DMap) :
    ∃ v, scan dmap = .done v ∧ Described dmap v.streamIndicators ∧
      (∀ frames, ∃ s, run (frames ++ [dmap]) = .done s ∧ s.audio.lastKinectArray = v.streamIndicators) ∧
      ∀ dmap' v', scan dmap' = .done v' → ∀ i < 16, SameBin i dmap dmap' →
        v.streamIndicators[i]? = v'.streamIndicators[i]? := by
  refine ⟨_, scan_spec dmap, ?_, ?_, ?_⟩
  · constructor
    · rw [List.length_map, List.length_range]
    · intro i hi
      rw [List.getElem?_map, List.getElem?_range hi, Option.map_some, indicator_eq]
    · exact sum_numBelow dmap
    · exact fun q hq => countedIn_unique hq
    · intro entry hentry
      obtain ⟨i, -, rfl⟩ := List.mem_map.mp hentry
      exact indicator_range dmap i
  · intro frames
    obtain ⟨-, s, -, hs, -, hlive⟩ := run_last frames dmap
    exact ⟨s, hs, hlive.ready.recorded⟩
  · intro dmap' v' hv' i hi hsame
    rw [scan_spec] at hv'
    rw [← Outcome.done.inj hv']
    simp only [List.getElem?_map, List.getElem?_range hi, Option.map_some, indicator_congr hsame]

/-! Two frames. -/

/-- Each touched pixel of the bin moves to the same or a higher row. -/
structure Raised (i : ℕ) (G F : DMap) where
  move : binPixels G i ≃ binPixels F i
  up : ∀ q, (move q).1.1 ≤ q.1.1

lemma Raised.card {i : ℕ} {G F : DMap} (h : Raised i G F) :
    (binPixels G i).card = (binPixels F i).card := by
  have hcard := Fintype.card_congr h.move
  rwa [Fintype.card_coe, Fintype.card_coe] at hcard

lemma Raised.meanRow_le {i : ℕ} {G F : DMap} (h : Raised i G F) : meanRow F i ≤ meanRow G i := by
  have hsum : ∑ q ∈ binPixels F i, ((q.1.val : ℚ)-10) ≤ ∑ q ∈ binPixels G i, ((q.1.val : ℚ)-10) := by
    rw [← Finset.sum_coe_sort (binPixels F i), ← Finset.sum_coe_sort (binPixels G i),
      ← Equiv.sum_comp h.move]
    refine Finset.sum_le_sum fun q _ => ?_
    have hrow : ((h.move q).1.1.val : ℚ) ≤ q.1.1.val := by exact_mod_cast h.up q
    linarith
  rw [meanRow, meanRow, h.card]
  exact div_le_div_of_nonneg_right hsum (Nat.cast_nonneg _)

lemma Raised.volume_le {i : ℕ} {G F : DMap} (h : Raised i G F) : volume G i ≤ volume F i := by
  rw [volume_eq, volume_eq]
  apply roundTo_mono
  linarith [h.meanRow_le]

/-- A stream which was silent starts with the velocity of its volume. -/
lemma playStream_rise {a : WaterHarpAudio} {i : ℕ} {last volume : ℚ} (hi : i < 16)
    (hlast : a.lastKinectArray[i]? = some last) (hsilent : last ≤ 1/1000) (hv : 1/1000 < volume)
    (hquiet : ¬ Loud volume) : playStream i volume a =
      .done (a.call (.send ⟨.noteOn, 0, scaleNote i, max (trunc (127*volume)) 40⟩)) := by
  have hidle : ∀ b, turnOffStream i volume last b = .done b := by
    intro b
    rw [turnOffStream, if_neg fun h => absurd h.2.1 (not_le.mpr hv)]
  simp only [playStream, hlast]
  rw [if_pos ⟨hv, hsilent⟩, playNote_eq a hi hquiet, Outcome.bind_done, hidle]

lemma playStream_touched {dmap : DMap} {a : WaterHarpAudio} {i : ℕ} {last : ℚ} (h : Touched dmap i)
    (hi : i < 16) (hlast : a.lastKinectArray[i]? = some last) (hsilent : last ≤ 1/1000) :
    playStream i (indicator dmap i) a =
      .done (a.call (.send ⟨.noteOn, 0, scaleNote i, max (trunc (127*indicator dmap i)) 40⟩)) := by
  obtain ⟨hlow, hhigh⟩ := indicator_of_touched h
  apply playStream_rise hi hlast hsilent
  · linarith
  · unfold Loud
    linarith

/-- A hand which is raised over a bin is never softer: neither is the volume of the bin
less, nor the velocity with which its note starts. -/
theorem raised_louder {F G : DMap} {i : ℕ} (hi : i < 16) (hG : Touched G i) (hF : Touched F i)
    (h : Raised i G F) :
    volume G i ≤ volume F i ∧
    ∃ v w, scan G = .done v ∧ scan F = .done w ∧ ∃ soft loud,
      v.streamIndicators[i]? = some soft ∧ w.streamIndicators[i]? = some loud ∧ soft ≤ loud ∧
      ∀ a last, a.lastKinectArray[i]? = some last → last ≤ 1/1000 → ∃ velocity velocity' : ℤ,
        playStream i soft a = .done (a.call (.send ⟨.noteOn, 0, scaleNote i, velocity⟩)) ∧
        playStream i loud a = .done (a.call (.send ⟨.noteOn, 0, scaleNote i, velocity'⟩)) ∧
        velocity ≤ velocity' := by
  have hle : indicator G i ≤ indicator F i := by
    rw [indicator_eq_volume hG, indicator_eq_volume hF]
    exact min_le_min_right 1 h.volume_le
  refine ⟨h.volume_le, _, _, scan_spec G, scan_spec F, indicator G i, indicator F i, ?_, ?_, hle, ?_⟩
  · simp [List.getElem?_range hi]
  · simp [List.getElem?_range hi]
  · intro a last hlast hsilent
    refine ⟨_, _, playStream_touched hG hi hlast hsilent, playStream_touched hF hi hlast hsilent, ?_⟩
    have htrunc : trunc (127*indicator G i) ≤ trunc (127*indicator F i) := trunc_mono (by linarith)
    exact max_le_max_right 40 htrunc

/-- A hand of ten rows over all columns. -/
def handFrame (t : ℕ) : DMap := fun r _ => if t ≤ r.val ∧ r.val < t+10 then 500 else 0

lemma mem_binPixels_hand {t i : ℕ} (ht : 10 ≤ t ∧ t ≤ 220) {q : Fin 240 × Fin 320} :
    q ∈ binPixels (handFrame t) i ↔
      (t ≤ q.1.val ∧ q.1.val < t+10) ∧ xBin i ≤ q.2.val ∧ q.2.val < xBin (i+1) := by
  rw [mem_binPixels, handFrame]
  split_ifs with h
  · have hd : (500 : UInt16).toNat = 500 := rfl
    omega
  · have hd : (0 : UInt16).toNat = 0 := rfl
    omega

def handUp (i : ℕ) : Raised i (handFrame 110) (handFrame 60) where
  move :=
    { toFun q := ⟨(⟨q.1.1.val-50, by omega⟩, q.1.2), by
        have hq := (mem_binPixels_hand (by norm_num)).mp q.2
        rw [mem_binPixels_hand (by norm_num)]
        dsimp only
        omega⟩
      invFun q := ⟨(⟨q.1.1.val+50, by
        have hq := (mem_binPixels_hand (by norm_num)).mp q.2
        omega⟩, q.1.2), by
        have hq := (mem_binPixels_hand (by norm_num)).mp q.2
        rw [mem_binPixels_hand (by norm_num)]
        dsimp only
        omega⟩
      left_inv q := by
        have hq := (mem_binPixels_hand (by norm_num)).mp q.2
        ext
        · dsimp only
          omega
        · rfl
      right_inv q := by
        ext
        · dsimp only
          omega
        · rfl }
  up q := Nat.sub_le _ _

lemma touched_hand {t : ℕ} (ht : 10 ≤ t ∧ t ≤ 220) : Touched (handFrame t) 0 := by
  have hedges := xBin_edges
  have hcard : (Finset.univ : Finset (Fin 10 × Fin 15)).card ≤ (binPixels (handFrame t) 0).card := by
    refine Finset.card_le_card_of_injOn
      (fun q => (⟨t+q.1.val, by omega⟩, ⟨54+q.2.val, by omega⟩)) (fun q _ => ?_) fun q _ q' _ he => ?_
    · rw [Finset.mem_coe, mem_binPixels_hand ht, Nat.zero_add]
      dsimp only
      omega
    · simp only [Prod.mk.injEq, Fin.mk.injEq] at he
      exact Prod.ext (Fin.ext (by omega)) (Fin.ext (by omega))
  rw [Finset.card_univ, Fintype.card_prod, Fintype.card_fin, Fintype.card_fin] at hcard
  exact lt_of_lt_of_le (by norm_num) hcard

theorem raised_louder_hand :
    volume (handFrame 110) 0 ≤ volume (handFrame 60) 0 ∧
    ∃ v w, scan (handFrame 110) = .done v ∧ scan (handFrame 60) = .done w ∧ ∃ soft loud,
      v.streamIndicators[0]? = some soft ∧ w.streamIndicators[0]? = some loud ∧ soft ≤ loud ∧
      ∀ a last, a.lastKinectArray[0]? = some last → last ≤ 1/1000 → ∃ velocity velocity' : ℤ,
        playStream 0 soft a = .done (a.call (.send ⟨.noteOn, 0, scaleNote 0, velocity⟩)) ∧
        playStream 0 loud a = .done (a.call (.send ⟨.noteOn, 0, scaleNote 0, velocity'⟩)) ∧
        velocity ≤ velocity' :=
  raised_louder (by norm_num) (touched_hand (by norm_num)) (touched_hand (by norm_num)) (handUp 0)

end WaterHarp.StreamVolume
