import WaterHarp.FramePool

/-! References to pooled frames. As long as the holders of references are counted
rightly, no operation on the pool fails, none touches a frame of another holder, and
a block of memory has one user. -/
namespace WaterHarp.FrameOwnership
open FramePool FramePool.Pool

/-- What a holder of frame `f` sees of it. -/
def view (f : ℕ) (p : Pool) : BitVec 32 × ℕ × Option ℕ × Option Block :=
  ((p.frame f).frameIndex, (p.frame f).dataSize, (p.frame f).data, (p.frame f).data.map p.block)

structure InUse (p : Pool) (f b : ℕ) : Prop where
  data : (p.frame f).data = some b
  allocated : b < p.blocks
  live : (p.block b).live = true
  func : (p.frame f).backToPoolFunc = true
  pool : (p.frame f).poolRefCount = 1
  own : (p.frame f).backToPoolFuncCookie = true →
    (p.frame f).freeBufferFunc = some .releaseFrameBufferToPool ∧ (p.block b).size = p.requiredFrameSize
  cut : (p.frame f).backToPoolFuncCookie = false →
    (p.frame f).freeBufferFunc = some .freeFrameBufferMemory

/-- A buffer in the pool of the sensor. -/
structure Spare (p : Pool) (b : ℕ) : Prop where
  allocated : b < p.blocks
  live : (p.block b).live = true
  size : (p.block b).size = p.requiredFrameSize

/-- `owners` are the references which are held, each frame as often as it is. -/
structure Counted (p : Pool) (owners : Multiset ℕ) : Prop where
  allocated : ∀ f ∈ owners, f < p.frames
  counted : ∀ f < p.frames, (p.frame f).refCount = owners.count f
  freeNodup : p.available.Nodup
  free : ∀ f, f ∈ p.available ↔ f < p.frames ∧ f ∉ owners

structure Owned (p : Pool) (owners : Multiset ℕ) : Prop extends Counted p owners where
  used : ∀ f ∈ owners, ∃ b, InUse p f b
  distinct : ∀ f ∈ owners, ∀ g ∈ owners, (p.frame f).data = (p.frame g).data → f = g
  spareNodup : p.availableFrameBuffers.Nodup
  spare : ∀ b ∈ p.availableFrameBuffers, Spare p b ∧ ∀ f ∈ owners, (p.frame f).data ≠ some b
  currentNodup : p.currentStreamFrames.Nodup
  current : ∀ f, f ∈ p.currentStreamFrames ↔ f ∈ owners ∧ (p.frame f).backToPoolFuncCookie = true
  blocks : ∀ b, (p.block b).live = true →
    b < p.blocks ∧ (b ∈ p.availableFrameBuffers ∨ ∃ f ∈ owners, (p.frame f).data = some b)

variable {p q : Pool} {owners refs : Multiset ℕ} {f g b d : ℕ} {i : BitVec 32} {n : ℤ} {frame : OniFrame}

lemma setFrame_self : (p.setFrame f frame).frame f = frame := Function.update_self ..

lemma setFrame_of_ne (h : g ≠ f) : (p.setFrame f frame).frame g = p.frame g := Function.update_of_ne h ..

lemma setFrame_field {β : Type*} (field : OniFrame → β) (x : OniFrame) (h : field x = field (p.frame f)) (g : ℕ) :
    field ((p.setFrame f x).frame g) = field (p.frame g) := by
  by_cases hg : g = f
  · rw [hg, setFrame_self, h]
  · rw [setFrame_of_ne hg]

lemma InUse.transfer (h : InUse p f b)
    (hframe : q.frame f = { p.frame f with dataSize := d, frameIndex := i, refCount := n })
    (hblock : q.block b = p.block b) (hblocks : p.blocks ≤ q.blocks)
    (hsize : q.requiredFrameSize = p.requiredFrameSize) : InUse q f b where
  data := by rw [hframe]; exact h.data
  allocated := h.allocated.trans_le hblocks
  live := by rw [hblock]; exact h.live
  func := by rw [hframe]; exact h.func
  pool := by rw [hframe]; exact h.pool
  own := by rw [hframe, hblock, hsize]; exact h.own
  cut := by rw [hframe]; exact h.cut

lemma view_of_eq (hframe : q.frame f = { p.frame f with refCount := n })
    (hblock : ∀ b, (p.frame f).data = some b → q.block b = p.block b) : view f q = view f p := by
  have hmap : (p.frame f).data.map q.block = (p.frame f).data.map p.block := by
    cases h : (p.frame f).data with
    | none => rfl
    | some b => rw [Option.map_some, Option.map_some, hblock b h]
  simp only [view, hframe, hmap]

/-! Counting. -/

/-- The size, the index and the count of a frame which is held change, the count with its references. -/
lemma Owned.reframe (h : Owned p owners) (hsame : ∀ g, g ∈ refs ↔ g ∈ owners)
    (hcount : ∀ g, g ≠ f → refs.count g = owners.count g) (hn : n = refs.count f) :
    Owned (p.setFrame f { p.frame f with dataSize := d, frameIndex := i, refCount := n }) refs := by
  set frame := { p.frame f with dataSize := d, frameIndex := i, refCount := n } with hframe
  have hdata := setFrame_field (p := p) (f := f) OniFrame.data frame rfl
  have hcookie := setFrame_field (p := p) (f := f) OniFrame.backToPoolFuncCookie frame rfl
  refine ⟨⟨fun g hg => h.allocated g ((hsame g).mp hg), fun g hg => ?_, h.freeNodup, fun g => ?_⟩, ?_, ?_,
    h.spareNodup, ?_, h.currentNodup, ?_, ?_⟩
  · by_cases hgf : g = f
    · rw [hgf, setFrame_self]
      exact hn
    · rw [setFrame_of_ne hgf, hcount g hgf]
      exact h.counted g hg
  · rw [hsame]
    exact h.free g
  · intro g hg
    obtain ⟨b, hb⟩ := h.used g ((hsame g).mp hg)
    by_cases hgf : g = f
    · rw [hgf] at hb ⊢
      exact ⟨b, hb.transfer setFrame_self rfl le_rfl rfl⟩
    · exact ⟨b, hb.transfer (setFrame_of_ne hgf) rfl le_rfl rfl⟩
  · intro g hg k hk hgk
    rw [hdata, hdata] at hgk
    exact h.distinct g ((hsame g).mp hg) k ((hsame k).mp hk) hgk
  · intro b hb
    obtain ⟨hspare, hnone⟩ := h.spare b hb
    refine ⟨⟨hspare.allocated, hspare.live, hspare.size⟩, fun g hg => ?_⟩
    rw [hdata]
    exact hnone g ((hsame g).mp hg)
  · intro g
    rw [hcookie, hsame]
    exact h.current g
  · intro b hb
    obtain ⟨hlt, hwhere⟩ := h.blocks b hb
    refine ⟨hlt, hwhere.imp_right fun hg => ?_⟩
    obtain ⟨g, hg, hdatag⟩ := hg
    exact ⟨g, (hsame g).mpr hg, (hdata g).trans hdatag⟩

lemma view_recount (f g : ℕ) (n : ℤ) (p : Pool) :
    view g (p.setFrame f { p.frame f with refCount := n }) = view g p := by
  by_cases hg : g = f
  · rw [hg]
    exact view_of_eq setFrame_self fun _ _ => rfl
  · exact view_of_eq (setFrame_of_ne hg) fun _ _ => rfl

lemma Owned.addRef (h : Owned p owners) (hf : f ∈ owners) : Owned (p.addRef f) (f ::ₘ owners) := by
  refine h.reframe (fun g => ?_) (fun g hg => Multiset.count_cons_of_ne hg owners) ?_
  · rw [Multiset.mem_cons]
    exact ⟨fun hg => hg.elim (fun heq => heq ▸ hf) id, .inr⟩
  · rw [h.counted f (h.allocated f hf), Multiset.count_cons_self]
    push_cast
    ring

/-- A buffer is written by the one who uses it. -/
lemma Owned.setBytes (h : Owned p owners) (b : ℕ) (bytes : List UInt8) :
    Owned (p.setBlock b { p.block b with bytes := bytes }) owners := by
  have hlive : ∀ c, ((p.setBlock b { p.block b with bytes := bytes }).block c).live = (p.block c).live := by
    intro c
    by_cases hc : c = b
    · simp [Pool.setBlock, hc]
    · simp [Pool.setBlock, hc]
  have hsize : ∀ c, ((p.setBlock b { p.block b with bytes := bytes }).block c).size = (p.block c).size := by
    intro c
    by_cases hc : c = b
    · simp [Pool.setBlock, hc]
    · simp [Pool.setBlock, hc]
  refine ⟨⟨h.allocated, h.counted, h.freeNodup, h.free⟩, fun f hf => ?_, h.distinct, h.spareNodup,
    fun c hc => ?_, h.currentNodup, h.current, fun c hc => ?_⟩
  · obtain ⟨c, hc⟩ := h.used f hf
    refine ⟨c, hc.data, hc.allocated, (hlive c).trans hc.live, hc.func, hc.pool, fun hown => ?_, hc.cut⟩
    exact ⟨(hc.own hown).1, (hsize c).trans (hc.own hown).2⟩
  · obtain ⟨hspare, hnone⟩ := h.spare c hc
    exact ⟨⟨hspare.allocated, (hlive c).trans hspare.live, (hsize c).trans hspare.size⟩, hnone⟩
  · rw [hlive] at hc
    exact h.blocks c hc

/-! The last reference to a frame. -/

/-- The frame in the pool. -/
def retired (frame : OniFrame) : OniFrame := { frame with refCount := 0, data := none, poolRefCount := 0 }

lemma release_own (hb : InUse p f b) (hcount : (p.frame f).refCount = 1)
    (hown : (p.frame f).backToPoolFuncCookie = true) :
    p.release f = some { p.setFrame f (retired (p.frame f)) with
      available := f :: p.available
      availableFrameBuffers := p.availableFrameBuffers ++ [b]
      currentStreamFrames := p.currentStreamFrames.erase f } := by
  obtain ⟨hfree, -⟩ := hb.own hown
  simp [Pool.release, Pool.frameBackToPool, Pool.freeBuffer, Pool.releaseFrameBufferToPool, Pool.poolRelease,
    Pool.setFrame, hb.data, hb.func, hb.pool, hfree, hown, hcount, retired]

lemma release_cut (hb : InUse p f b) (hcount : (p.frame f).refCount = 1)
    (hcut : (p.frame f).backToPoolFuncCookie = false) :
    p.release f = some { (p.setFrame f (retired (p.frame f))).setBlock b { p.block b with live := false } with
      available := f :: p.available } := by
  have hfree := hb.cut hcut
  simp [Pool.release, Pool.frameBackToPool, Pool.freeBuffer, Pool.free, Pool.poolRelease,
    Pool.setFrame, Pool.setBlock, hb.data, hb.func, hb.pool, hb.live, hfree, hcut, hcount, retired]

lemma Counted.retire (h : Counted p (f ::ₘ refs)) (hf : f ∉ refs) (hframes : q.frames = p.frames)
    (hself : (q.frame f).refCount = 0) (hother : ∀ g, g ≠ f → q.frame g = p.frame g)
    (havailable : q.available = f :: p.available) : Counted q refs where
  allocated g hg := by
    rw [hframes]
    exact h.allocated g (Multiset.mem_cons_of_mem hg)
  counted g hg := by
    rw [hframes] at hg
    by_cases hgf : g = f
    · rw [hgf, hself, Multiset.count_eq_zero_of_notMem hf, Nat.cast_zero]
    · rw [hother g hgf, h.counted g hg, Multiset.count_cons_of_ne hgf]
  freeNodup := by
    rw [havailable, List.nodup_cons]
    exact ⟨fun hfree => ((h.free f).mp hfree).2 (Multiset.mem_cons_self f refs), h.freeNodup⟩
  free g := by
    rw [havailable, hframes, List.mem_cons, h.free, Multiset.mem_cons]
    by_cases hgf : g = f
    · simp [hgf, hf, h.allocated f (Multiset.mem_cons_self f refs)]
    · simp [hgf]

lemma Owned.retire_own (h : Owned p (f ::ₘ refs)) (hf : f ∉ refs) (hb : InUse p f b)
    (hown : (p.frame f).backToPoolFuncCookie = true) :
    Owned { p.setFrame f (retired (p.frame f)) with
      available := f :: p.available
      availableFrameBuffers := p.availableFrameBuffers ++ [b]
      currentStreamFrames := p.currentStreamFrames.erase f } refs := by
  have hmem : f ∈ f ::ₘ refs := Multiset.mem_cons_self f refs
  have hne : ∀ g ∈ refs, g ≠ f := fun g hg heq => hf (heq ▸ hg)
  have hother : ∀ g ∈ refs, (p.setFrame f (retired (p.frame f))).frame g = p.frame g :=
    fun g hg => setFrame_of_ne (hne g hg)
  refine ⟨h.toCounted.retire hf rfl (congrArg OniFrame.refCount setFrame_self) (fun g hg => setFrame_of_ne hg) rfl,
    ?_, ?_, ?_, ?_, ?_, ?_, ?_⟩
  · intro g hg
    obtain ⟨c, hc⟩ := h.used g (Multiset.mem_cons_of_mem hg)
    exact ⟨c, hc.transfer (hother g hg) rfl le_rfl rfl⟩
  · intro g hg k hk hgk
    simp only [hother g hg, hother k hk] at hgk
    exact h.distinct g (Multiset.mem_cons_of_mem hg) k (Multiset.mem_cons_of_mem hk) hgk
  · rw [List.nodup_append]
    refine ⟨h.spareNodup, List.nodup_singleton b, fun c hc d hd hcd => ?_⟩
    rw [List.mem_singleton] at hd
    rw [hcd, hd] at hc
    exact (h.spare b hc).2 f hmem hb.data
  · intro c hc
    rw [List.mem_append, List.mem_singleton] at hc
    cases hc with
    | inl hc =>
      obtain ⟨hspare, hnone⟩ := h.spare c hc
      refine ⟨⟨hspare.allocated, hspare.live, hspare.size⟩, fun g hg => ?_⟩
      simp only [hother g hg]
      exact hnone g (Multiset.mem_cons_of_mem hg)
    | inr hc =>
      refine ⟨⟨hc ▸ hb.allocated, hc ▸ hb.live, hc ▸ (hb.own hown).2⟩, fun g hg hdata => ?_⟩
      simp only [hother g hg] at hdata
      rw [hc, ← hb.data] at hdata
      exact hne g hg (h.distinct g (Multiset.mem_cons_of_mem hg) f hmem hdata)
  · exact h.currentNodup.erase f
  · intro g
    rw [h.currentNodup.mem_erase_iff, h.current, Multiset.mem_cons]
    by_cases hgf : g = f
    · simp [hgf, hf]
    · simp [hgf, setFrame_of_ne hgf]
  · intro c hc
    obtain ⟨hlt, hwhere⟩ := h.blocks c hc
    refine ⟨hlt, ?_⟩
    rw [List.mem_append, List.mem_singleton]
    cases hwhere with
    | inl hspare => exact .inl (.inl hspare)
    | inr hheld =>
      obtain ⟨g, hg, hdata⟩ := hheld
      cases Multiset.mem_cons.mp hg with
      | inl heq =>
        rw [heq, hb.data, Option.some_inj] at hdata
        exact .inl (.inr hdata.symm)
      | inr hg =>
        refine .inr ⟨g, hg, ?_⟩
        simp only [hother g hg]
        exact hdata

lemma Owned.retire_cut (h : Owned p (f ::ₘ refs)) (hf : f ∉ refs) (hb : InUse p f b)
    (hcut : (p.frame f).backToPoolFuncCookie = false) :
    Owned { (p.setFrame f (retired (p.frame f))).setBlock b { p.block b with live := false } with
      available := f :: p.available } refs := by
  have hmem : f ∈ f ::ₘ refs := Multiset.mem_cons_self f refs
  have hne : ∀ g ∈ refs, g ≠ f := fun g hg heq => hf (heq ▸ hg)
  have hother : ∀ g ∈ refs, (p.setFrame f (retired (p.frame f))).frame g = p.frame g :=
    fun g hg => setFrame_of_ne (hne g hg)
  have hblock : ∀ c, c ≠ b → ((p.setFrame f (retired (p.frame f))).setBlock b
      { p.block b with live := false }).block c = p.block c := fun c hc => Function.update_of_ne hc ..
  have hunused : ∀ g ∈ refs, (p.frame g).data ≠ some b := by
    intro g hg hdata
    rw [← hb.data] at hdata
    exact hne g hg (h.distinct g (Multiset.mem_cons_of_mem hg) f hmem hdata)
  refine ⟨h.toCounted.retire hf rfl (congrArg OniFrame.refCount setFrame_self) (fun g hg => setFrame_of_ne hg) rfl,
    ?_, ?_, h.spareNodup, ?_, h.currentNodup, ?_, ?_⟩
  · intro g hg
    obtain ⟨c, hc⟩ := h.used g (Multiset.mem_cons_of_mem hg)
    have hcb : c ≠ b := fun heq => hunused g hg (heq ▸ hc.data)
    exact ⟨c, hc.transfer (hother g hg) (hblock c hcb) le_rfl rfl⟩
  · intro g hg k hk hgk
    have hgk' : ((p.setFrame f (retired (p.frame f))).frame g).data =
        ((p.setFrame f (retired (p.frame f))).frame k).data := hgk
    rw [hother g hg, hother k hk] at hgk'
    exact h.distinct g (Multiset.mem_cons_of_mem hg) k (Multiset.mem_cons_of_mem hk) hgk'
  · intro c hc
    obtain ⟨hspare, hnone⟩ := h.spare c hc
    have hcb : c ≠ b := fun heq => hnone f hmem (heq ▸ hb.data)
    refine ⟨⟨hspare.allocated, ?_, ?_⟩, fun g hg => ?_⟩
    · exact (congrArg Block.live (hblock c hcb)).trans hspare.live
    · exact (congrArg Block.size (hblock c hcb)).trans hspare.size
    · exact (congrArg OniFrame.data (hother g hg)).symm ▸ hnone g (Multiset.mem_cons_of_mem hg)
  · intro g
    have hcurrent := h.current g
    by_cases hgf : g = f
    · rw [hgf] at hcurrent ⊢
      have hnot : f ∉ p.currentStreamFrames :=
        fun hin => Bool.false_ne_true (hcut.symm.trans (hcurrent.mp hin).2)
      exact iff_of_false hnot fun hin => hf hin.1
    · rw [Multiset.mem_cons] at hcurrent
      have hcookie : ((p.setFrame f (retired (p.frame f))).frame g).backToPoolFuncCookie =
        (p.frame g).backToPoolFuncCookie := congrArg _ (setFrame_of_ne hgf)
      exact hcurrent.trans (by simp [hgf, ← hcookie, Pool.setBlock])
  · intro c hc
    have hcb : c ≠ b := by
      intro heq
      rw [heq] at hc
      simp [Pool.setBlock] at hc
    have hlive : (p.block c).live = true := (congrArg Block.live (hblock c hcb)).symm.trans hc
    obtain ⟨hlt, hwhere⟩ := h.blocks c hlive
    refine ⟨hlt, hwhere.imp_right fun hheld => ?_⟩
    obtain ⟨g, hg, hdata⟩ := hheld
    cases Multiset.mem_cons.mp hg with
    | inl heq =>
      rw [heq, hb.data, Option.some_inj] at hdata
      exact absurd hdata.symm hcb
    | inr hg => exact ⟨g, hg, (congrArg OniFrame.data (hother g hg)).trans hdata⟩

/-- A reference which is held can be released. -/
lemma Owned.release (h : Owned p (f ::ₘ refs)) :
    ∃ q, p.release f = some q ∧ Owned q refs ∧ (∀ g ∈ refs, view g q = view g p) ∧
      q.frames = p.frames ∧ q.requiredFrameSize = p.requiredFrameSize := by
  have hmem : f ∈ f ::ₘ refs := Multiset.mem_cons_self f refs
  have hcount := h.counted f (h.allocated f hmem)
  rw [Multiset.count_cons_self] at hcount
  by_cases hf : f ∈ refs
  · have hpos : 0 < refs.count f := Multiset.count_pos.mpr hf
    have hrelease : p.release f = some (p.setFrame f { p.frame f with refCount := (p.frame f).refCount-1 }) := by
      have hne : (p.frame f).refCount-1 ≠ 0 := by omega
      simp only [Pool.release, setFrame_self, if_neg hne]
    refine ⟨_, hrelease, h.reframe (fun g => ?_) (fun g hg => (Multiset.count_cons_of_ne hg refs).symm) ?_,
      fun g _ => view_recount f g _ p, rfl, rfl⟩
    · rw [Multiset.mem_cons]
      exact ⟨.inr, fun hg => hg.elim (fun heq => heq ▸ hf) id⟩
    · omega
  · rw [Multiset.count_eq_zero_of_notMem hf] at hcount
    obtain ⟨b, hb⟩ := h.used f hmem
    have hne : ∀ g ∈ refs, g ≠ f := fun g hg heq => hf (heq ▸ hg)
    have hone : (p.frame f).refCount = 1 := by omega
    cases hcookie : (p.frame f).backToPoolFuncCookie with
    | true =>
      exact ⟨_, release_own hb hone hcookie, h.retire_own hf hb hcookie,
        fun g hg => view_of_eq (setFrame_of_ne (hne g hg)) fun _ _ => rfl, rfl, rfl⟩
    | false =>
      refine ⟨_, release_cut hb hone hcookie, h.retire_cut hf hb hcookie,
        fun g hg => view_of_eq (setFrame_of_ne (hne g hg)) fun c hc => ?_, rfl, rfl⟩
      have hcb : c ≠ b := by
        intro heq
        rw [heq, ← hb.data] at hc
        exact hne g hg (h.distinct g (Multiset.mem_cons_of_mem hg) f hmem hc)
      exact Function.update_of_ne hcb ..

/-! A new frame. -/

/-- Frame `f` is taken out of the pool, which grows only when all its frames are held. -/
structure FrameTaken (p : Pool) (owners : Multiset ℕ) (f : ℕ) (q : Pool) : Prop where
  fresh : f ∉ owners
  self : q.frame f = reset
  other : ∀ g, g ≠ f → q.frame g = p.frame g
  counted : Counted q (f ::ₘ owners)
  block : q.block = p.block
  blocks : q.blocks = p.blocks
  size : q.requiredFrameSize = p.requiredFrameSize
  spare : q.availableFrameBuffers = p.availableFrameBuffers
  current : q.currentStreamFrames = p.currentStreamFrames
  grows : q.frames = p.frames ∨ q.frames = p.frames+1 ∧ ∀ g < p.frames, g ∈ owners

lemma Counted.managerAcquireFrame (h : Counted p owners) :
    ∃ f q, p.managerAcquireFrame = (f, q) ∧ FrameTaken p owners f q := by
  cases hfree : p.available with
  | nil =>
    have hnew : p.frames ∉ owners := fun hmem => (h.allocated _ hmem).false
    have hheld : ∀ g < p.frames, g ∈ owners := by
      intro g hg
      by_contra hnot
      have hin := (h.free g).mpr ⟨hg, hnot⟩
      rw [hfree] at hin
      exact List.not_mem_nil hin
    have hacquire : p.managerAcquireFrame =
        (p.frames, { p with frame := Function.update p.frame p.frames reset, frames := p.frames+1 }) := by
      simp [Pool.managerAcquireFrame, Pool.acquire, Pool.setFrame, hfree]
    refine ⟨_, _, hacquire, hnew, Function.update_self .., fun g hg => Function.update_of_ne hg ..,
      ⟨fun g hg => ?_, fun g hg => ?_, h.freeNodup, fun g => ?_⟩, rfl, rfl, rfl, rfl, rfl, .inr ⟨rfl, hheld⟩⟩
    · cases Multiset.mem_cons.mp hg with
      | inl heq => exact heq ▸ Nat.lt_succ_self _
      | inr hg => exact (h.allocated g hg).trans (Nat.lt_succ_self _)
    · by_cases hgf : g = p.frames
      · simp only [hgf, Function.update_self, Multiset.count_cons_self, Multiset.count_eq_zero_of_notMem hnew]
        rfl
      · have hlt : g < p.frames+1 := hg
        simp only [Function.update_of_ne hgf, Multiset.count_cons_of_ne hgf]
        exact h.counted g (by omega)
    · simp only [hfree, List.not_mem_nil, Multiset.mem_cons, false_iff]
      intro hg
      exact hg.2 (by
        by_cases hgf : g = p.frames
        · exact .inl hgf
        · exact .inr (hheld g (by omega)))
  | cons f rest =>
    have hf := (h.free f).mp (by rw [hfree]; exact List.mem_cons_self)
    have hnodup := h.freeNodup
    rw [hfree, List.nodup_cons] at hnodup
    have hacquire : p.managerAcquireFrame =
        (f, { p with frame := Function.update p.frame f reset, available := rest }) := by
      simp [Pool.managerAcquireFrame, Pool.acquire, Pool.setFrame, hfree]
    refine ⟨_, _, hacquire, hf.2, Function.update_self .., fun g hg => Function.update_of_ne hg ..,
      ⟨fun g hg => ?_, fun g hg => ?_, hnodup.2, fun g => ?_⟩, rfl, rfl, rfl, rfl, rfl, .inl rfl⟩
    · cases Multiset.mem_cons.mp hg with
      | inl heq => exact heq ▸ hf.1
      | inr hg => exact h.allocated g hg
    · by_cases hgf : g = f
      · simp only [hgf, Function.update_self, Multiset.count_cons_self, Multiset.count_eq_zero_of_notMem hf.2]
        rfl
      · simp only [Function.update_of_ne hgf, Multiset.count_cons_of_ne hgf]
        exact h.counted g hg
    · have hg := h.free g
      rw [hfree, List.mem_cons] at hg
      rw [Multiset.mem_cons]
      by_cases hgf : g = f
      · simp [hgf, hnodup.1]
      · simpa [hgf] using hg

/-- Buffer `b` is taken out of the pool of the sensor, or allocated. -/
structure BufferTaken (p : Pool) (b : ℕ) (q : Pool) : Prop where
  source : b = p.blocks ∨ b ∈ p.availableFrameBuffers
  allocated : b < q.blocks
  blocks : p.blocks ≤ q.blocks
  live : (q.block b).live = true
  size : (q.block b).size = p.requiredFrameSize
  other : ∀ c, c ≠ b → q.block c = p.block c
  spareNodup : q.availableFrameBuffers.Nodup
  spare : ∀ c, c ∈ q.availableFrameBuffers ↔ c ∈ p.availableFrameBuffers ∧ c ≠ b
  frame : q.frame = p.frame
  frames : q.frames = p.frames
  available : q.available = p.available
  required : q.requiredFrameSize = p.requiredFrameSize
  current : q.currentStreamFrames = p.currentStreamFrames

lemma allocFrameBuffer_taken (hnodup : p.availableFrameBuffers.Nodup)
    (hspare : ∀ b ∈ p.availableFrameBuffers, Spare p b) :
    ∃ b q, p.allocFrameBufferFromPool p.requiredFrameSize = (b, q) ∧ BufferTaken p b q := by
  cases hfree : p.availableFrameBuffers with
  | nil =>
    have halloc : p.allocFrameBufferFromPool p.requiredFrameSize = (p.blocks, { p with
        block := Function.update p.block p.blocks ⟨p.requiredFrameSize, [], true⟩
        blocks := p.blocks+1 }) := by
      simp [Pool.allocFrameBufferFromPool, Pool.malloc, Pool.setBlock, hfree]
    refine ⟨_, _, halloc, .inl rfl, Nat.lt_succ_self _, Nat.le_succ _, ?_, ?_,
      fun c hc => Function.update_of_ne hc .., hnodup, fun c => ?_, rfl, rfl, rfl, rfl, rfl⟩
    · simp only [Function.update_self]
    · simp only [Function.update_self]
    · simp [hfree]
  | cons b rest =>
    have hb : b ∈ p.availableFrameBuffers := by rw [hfree]; exact List.mem_cons_self
    have halloc : p.allocFrameBufferFromPool p.requiredFrameSize =
        (b, { p with availableFrameBuffers := rest }) := by
      simp [Pool.allocFrameBufferFromPool, hfree]
    rw [hfree, List.nodup_cons] at hnodup
    refine ⟨_, _, halloc, .inr hb, (hspare b hb).allocated, le_rfl, (hspare b hb).live, (hspare b hb).size,
      fun _ _ => rfl, hnodup.2, fun c => ?_, rfl, rfl, rfl, rfl, rfl⟩
    rw [hfree, List.mem_cons]
    by_cases hc : c = b
    · simp [hc, hnodup.1]
    · simp [hc]

/-- A frame as `Sensor::acquireFrame` returns it. -/
def acquired (size b : ℕ) : OniFrame := ⟨size, some b, 0, 1, true, true, some .releaseFrameBufferToPool, 1⟩

structure Acquired (p : Pool) (owners : Multiset ℕ) (f b : ℕ) (q : Pool) : Prop where
  fresh : f ∉ owners
  frame : q.frame f = acquired p.requiredFrameSize b
  block : (q.block b).size = p.requiredFrameSize
  owned : Owned q (f ::ₘ owners)
  kept : ∀ g ∈ owners, view g q = view g p
  size : q.requiredFrameSize = p.requiredFrameSize
  grows : q.frames = p.frames ∨ q.frames = p.frames+1 ∧ ∀ g < p.frames, g ∈ owners

/-- The frame is no one else's, and its buffer is its own. -/
lemma Owned.acquireFrame (h : Owned p owners) :
    ∃ f b q, p.acquireFrame = (f, q) ∧ Acquired p owners f b q := by
  obtain ⟨f, q, hacquire, hq⟩ := h.toCounted.managerAcquireFrame
  have hspare : ∀ b ∈ q.availableFrameBuffers, Spare q b := by
    intro b hb
    rw [hq.spare] at hb
    have hb' := (h.spare b hb).1
    exact ⟨hq.blocks ▸ hb'.allocated, hq.block ▸ hb'.live, by rw [hq.block, hq.size]; exact hb'.size⟩
  obtain ⟨b, r, halloc, hr⟩ := allocFrameBuffer_taken (hq.spare ▸ h.spareNodup) hspare
  have hne : ∀ g ∈ owners, g ≠ f := fun g hg heq => hq.fresh (heq ▸ hg)
  have hunused : ∀ g ∈ owners, (p.frame g).data ≠ some b := by
    intro g hg hdata
    cases hr.source with
    | inl hnew =>
      obtain ⟨c, hc⟩ := h.used g hg
      rw [hc.data, Option.some_inj] at hdata
      have hlt := hc.allocated
      rw [hdata, hnew, hq.blocks] at hlt
      exact hlt.false
    | inr hold =>
      rw [hq.spare] at hold
      exact (h.spare b hold).2 g hg hdata
  set s := { r.setFrame f (acquired p.requiredFrameSize b) with
    currentStreamFrames := r.currentStreamFrames ++ [f] } with hs
  have hself : s.frame f = acquired p.requiredFrameSize b := setFrame_self
  have hother : ∀ g, g ≠ f → s.frame g = p.frame g := by
    intro g hg
    have hset : s.frame g = r.frame g := setFrame_of_ne hg
    rw [hset, hr.frame, hq.other g hg]
  have hblock : ∀ c, c ≠ b → s.block c = p.block c := by
    intro c hc
    have hset : s.block c = r.block c := rfl
    rw [hset, hr.other c hc, hq.block]
  have hsize : s.requiredFrameSize = p.requiredFrameSize := hr.required.trans hq.size
  have hframes : s.frames = q.frames := hr.frames
  have hresult : p.acquireFrame = (f, s) := by
    rw [hq.size] at halloc
    simp only [Pool.acquireFrame, hacquire, hq.size, halloc, hr.frame, hq.self, hr.required]
    rfl
  have hkept : ∀ g ∈ owners, view g s = view g p := by
    intro g hg
    refine view_of_eq (hother g (hne g hg)) fun c hc => hblock c fun hcb => ?_
    exact hunused g hg (hcb ▸ hc)
  have hcounted : Counted s (f ::ₘ owners) := by
    refine ⟨fun g hg => ?_, fun g hg => ?_, ?_, fun g => ?_⟩
    · rw [hframes]
      exact hq.counted.allocated g hg
    · rw [hframes] at hg
      rw [← hq.counted.counted g hg]
      by_cases hgf : g = f
      · rw [hgf, hself, hq.self]
        rfl
      · rw [hother g hgf, hq.other g hgf]
    · exact hr.available ▸ hq.counted.freeNodup
    · have hfree := hq.counted.free g
      rw [← hr.available, ← hframes] at hfree
      exact hfree
  have hdata : ∀ g ∈ owners, (s.frame g).data ≠ some b := fun g hg => by
    rw [hother g (hne g hg)]
    exact hunused g hg
  have howned : Owned s (f ::ₘ owners) := by
    refine ⟨hcounted, fun g hg => ?_, fun g hg k hk hgk => ?_, hr.spareNodup, fun c hc => ?_, ?_, fun g => ?_,
      fun c hc => ?_⟩
    · cases Multiset.mem_cons.mp hg with
      | inl heq =>
        rw [heq]
        refine ⟨b, by rw [hself]; rfl, hr.allocated, hr.live, by rw [hself]; rfl, by rw [hself]; rfl,
          fun _ => ⟨by rw [hself]; rfl, hr.size.trans hr.required.symm⟩, fun hcut => ?_⟩
        rw [hself] at hcut
        cases hcut
      | inr hg =>
        obtain ⟨c, hc⟩ := h.used g hg
        have hcb : c ≠ b := fun heq => hunused g hg (heq ▸ hc.data)
        exact ⟨c, hc.transfer (hother g (hne g hg)) (hblock c hcb) (hq.blocks ▸ hr.blocks) hsize⟩
    · cases Multiset.mem_cons.mp hg with
      | inl hgf =>
        cases Multiset.mem_cons.mp hk with
        | inl hkf => rw [hgf, hkf]
        | inr hk =>
          rw [hgf, hself] at hgk
          exact absurd hgk.symm (hdata k hk)
      | inr hg =>
        cases Multiset.mem_cons.mp hk with
        | inl hkf =>
          rw [hkf, hself] at hgk
          exact absurd hgk (hdata g hg)
        | inr hk =>
          rw [hother g (hne g hg), hother k (hne k hk)] at hgk
          exact h.distinct g hg k hk hgk
    · obtain ⟨hc, hcb⟩ := (hr.spare c).mp hc
      rw [hq.spare] at hc
      obtain ⟨hspare, hnone⟩ := h.spare c hc
      refine ⟨⟨hspare.allocated.trans_le (hq.blocks ▸ hr.blocks), ?_, ?_⟩, fun g hg => ?_⟩
      · rw [hblock c hcb]
        exact hspare.live
      · rw [hblock c hcb, hsize]
        exact hspare.size
      · cases Multiset.mem_cons.mp hg with
        | inl hgf =>
          rw [hgf, hself]
          exact fun heq => hcb (Option.some_inj.mp heq).symm
        | inr hg =>
          rw [hother g (hne g hg)]
          exact hnone g hg
    · have hcurrent : s.currentStreamFrames = p.currentStreamFrames ++ [f] := by
        rw [← hq.current, ← hr.current]
      rw [hcurrent, List.nodup_append]
      refine ⟨h.currentNodup, List.nodup_singleton f, fun g hg k hk hgk => ?_⟩
      rw [List.mem_singleton] at hk
      rw [hgk, hk] at hg
      exact hq.fresh ((h.current f).mp hg).1
    · have hcurrent : s.currentStreamFrames = p.currentStreamFrames ++ [f] := by
        rw [← hq.current, ← hr.current]
      rw [hcurrent, List.mem_append, List.mem_singleton, h.current, Multiset.mem_cons]
      by_cases hgf : g = f
      · simp [hgf, hself, acquired]
      · simp [hgf, hother g hgf]
    · by_cases hcb : c = b
      · exact ⟨hcb ▸ hr.allocated, .inr ⟨f, Multiset.mem_cons_self f owners, by rw [hself, hcb]; rfl⟩⟩
      · rw [hblock c hcb] at hc
        obtain ⟨hlt, hwhere⟩ := h.blocks c hc
        refine ⟨hlt.trans_le (hq.blocks ▸ hr.blocks), ?_⟩
        cases hwhere with
        | inl hspare => exact .inl ((hr.spare c).mpr ⟨hq.spare ▸ hspare, hcb⟩)
        | inr hheld =>
          obtain ⟨g, hg, hdatag⟩ := hheld
          exact .inr ⟨g, Multiset.mem_cons_of_mem hg, by rw [hother g (hne g hg)]; exact hdatag⟩
  exact ⟨f, b, s, hresult, hq.fresh, hself, hr.size.trans hq.size, howned, hkept, hsize, hframes ▸ hq.grows⟩

/-! Another frame size. -/

/-- A frame which has been cut off from the sensor. -/
def cutOff (frame : OniFrame) : OniFrame :=
  { frame with
    freeBufferFunc :=
      if frame.freeBufferFunc = some .releaseFrameBufferToPool then some .freeFrameBufferMemory
      else frame.freeBufferFunc
    backToPoolFuncCookie := false }

lemma cutOff_cutOff (frame : OniFrame) : cutOff (cutOff frame) = cutOff frame := by
  unfold cutOff
  split_ifs <;> simp_all

lemma foldl_disown (fs : List ℕ) (p : Pool) : fs.foldl (fun p f => p.disown f) p =
    { p with frame := fun g => if g ∈ fs then cutOff (p.frame g) else p.frame g } := by
  induction fs generalizing p with
  | nil => simp
  | cons f fs ih =>
    have hframe : ∀ g, (if g ∈ fs then cutOff ((p.disown f).frame g) else (p.disown f).frame g) =
        if g ∈ f :: fs then cutOff (p.frame g) else p.frame g := by
      intro g
      by_cases hgf : g = f
      · have hself : (p.disown f).frame f = cutOff (p.frame f) := setFrame_self
        rw [hgf, hself, cutOff_cutOff, ite_self, if_pos List.mem_cons_self]
      · have hother : (p.disown f).frame g = p.frame g := setFrame_of_ne hgf
        simp only [hother, List.mem_cons, hgf, false_or]
    rw [List.foldl_cons, ih, funext hframe]
    rfl

lemma freeAll_eq {bs : List ℕ} {p : Pool} (hnodup : bs.Nodup) (hlive : ∀ b ∈ bs, (p.block b).live = true) :
    Pool.freeAll bs p =
      some { p with block := fun b => if b ∈ bs then { p.block b with live := false } else p.block b } := by
  induction bs generalizing p with
  | nil => simp [Pool.freeAll]
  | cons b bs ih =>
    obtain ⟨hb, hnodup⟩ := List.nodup_cons.mp hnodup
    have hfree : p.free b = some (p.setBlock b { p.block b with live := false }) := by
      rw [Pool.free, if_pos (hlive b List.mem_cons_self)]
    have hother : ∀ c, c ≠ b → (p.setBlock b { p.block b with live := false }).block c = p.block c :=
      fun c hc => Function.update_of_ne hc ..
    have hrest := ih (p := p.setBlock b { p.block b with live := false }) hnodup fun c hc => by
      rw [hother c fun heq => hb (heq ▸ hc)]
      exact hlive c (List.mem_cons_of_mem b hc)
    have hblock : ∀ c, (if c ∈ bs then
        { (p.setBlock b { p.block b with live := false }).block c with live := false }
        else (p.setBlock b { p.block b with live := false }).block c) =
        if c ∈ b :: bs then { p.block c with live := false } else p.block c := by
      intro c
      by_cases hcb : c = b
      · rw [hcb, if_neg hb, if_pos List.mem_cons_self]
        exact Function.update_self ..
      · simp only [hother c hcb, List.mem_cons, hcb, false_or]
    rw [Pool.freeAll, hfree, Option.bind_some, hrest, funext hblock]
    rfl

/-- The pool after `releaseAllFrames`. -/
def released (p : Pool) : Pool :=
  { p with
    frame := fun g => if g ∈ p.currentStreamFrames then cutOff (p.frame g) else p.frame g
    block := fun b => if b ∈ p.availableFrameBuffers then { p.block b with live := false } else p.block b
    availableFrameBuffers := []
    currentStreamFrames := [] }

lemma Owned.releaseAllFrames (h : Owned p owners) : p.releaseAllFrames = some (released p) := by
  have hlive : ∀ b ∈ p.availableFrameBuffers, (p.block b).live = true := fun b hb => (h.spare b hb).1.live
  rw [Pool.releaseAllFrames, foldl_disown]
  simp only [freeAll_eq (p := { p with
      frame := fun g => if g ∈ p.currentStreamFrames then cutOff (p.frame g) else p.frame g
      currentStreamFrames := [] }) h.spareNodup hlive, Option.map_some]
  rfl

lemma released_data (p : Pool) (f : ℕ) : ((released p).frame f).data = (p.frame f).data := by
  simp only [released]
  split_ifs <;> rfl

lemma Owned.cookie_released (h : Owned p owners) (hf : f ∈ owners) :
    ((released p).frame f).backToPoolFuncCookie = false := by
  by_cases hcurrent : f ∈ p.currentStreamFrames
  · simp only [released, if_pos hcurrent]
    rfl
  · have hcookie : (p.frame f).backToPoolFuncCookie ≠ true := fun hown => hcurrent ((h.current f).mpr ⟨hf, hown⟩)
    simp only [released, if_neg hcurrent]
    exact Bool.eq_false_iff.mpr hcookie

lemma Owned.inUse_released (h : Owned p owners) (hf : f ∈ owners) (hb : InUse p f b) (size : ℕ) :
    InUse { released p with requiredFrameSize := size } f b := by
  have hblock : (released p).block b = p.block b := if_neg fun hspare => (h.spare b hspare).2 f hf hb.data
  have hcookie := h.cookie_released hf
  refine ⟨(released_data p f).trans hb.data, hb.allocated, (congrArg Block.live hblock).trans hb.live, ?_, ?_,
    fun hown => absurd (hcookie.symm.trans hown) Bool.false_ne_true, fun _ => ?_⟩
  · simp only [released]
    split_ifs <;> exact hb.func
  · simp only [released]
    split_ifs <;> exact hb.pool
  · by_cases hcurrent : f ∈ p.currentStreamFrames
    · have hown := (hb.own ((h.current f).mp hcurrent).2).1
      simp only [released, if_pos hcurrent, cutOff, hown, if_true]
    · simp only [released, if_neg hcurrent] at hcookie ⊢
      exact hb.cut hcookie

/-- What is held is kept, whatever the size of the frames to come. -/
lemma Owned.released (h : Owned p owners) (size : ℕ) :
    Owned { FrameOwnership.released p with requiredFrameSize := size } owners := by
  refine ⟨⟨h.allocated, fun f hf => ?_, h.freeNodup, h.free⟩, fun f hf => ?_, fun f hf g hg hfg => ?_,
    List.nodup_nil, fun b hb => absurd hb List.not_mem_nil, List.nodup_nil, fun f => ?_, fun b hb => ?_⟩
  · rw [← h.counted f hf]
    simp only [FrameOwnership.released]
    split_ifs <;> rfl
  · obtain ⟨b, hb⟩ := h.used f hf
    exact ⟨b, h.inUse_released hf hb size⟩
  · simp only [released_data] at hfg
    exact h.distinct f hf g hg hfg
  · refine iff_of_false List.not_mem_nil fun hf => ?_
    exact Bool.false_ne_true ((h.cookie_released hf.1).symm.trans hf.2)
  · by_cases hspare : b ∈ p.availableFrameBuffers
    · simp only [FrameOwnership.released, if_pos hspare] at hb
      cases hb
    · simp only [FrameOwnership.released, if_neg hspare] at hb
      obtain ⟨hlt, hwhere⟩ := h.blocks b hb
      obtain ⟨f, hf, hdata⟩ := hwhere.resolve_left hspare
      exact ⟨hlt, .inr ⟨f, hf, (released_data p f).trans hdata⟩⟩

lemma Owned.view_released (h : Owned p owners) (hf : f ∈ owners) (size : ℕ) :
    view f { FrameOwnership.released p with requiredFrameSize := size } = view f p := by
  obtain ⟨b, hb⟩ := h.used f hf
  have hblock : (FrameOwnership.released p).block b = p.block b :=
    if_neg fun hspare => (h.spare b hspare).2 f hf hb.data
  simp only [view, released_data, hb.data, Option.map_some, hblock]
  simp only [FrameOwnership.released]
  split_ifs <;> rfl

lemma Owned.setRequiredFrameSize (h : Owned p owners) (size : ℕ) :
    ∃ q, p.setRequiredFrameSize size = some q ∧ Owned q owners ∧ (∀ f ∈ owners, view f q = view f p) ∧
      q.frames = p.frames ∧ q.requiredFrameSize = size := by
  by_cases hsize : p.requiredFrameSize = size
  · refine ⟨p, ?_, h, fun _ _ => rfl, rfl, hsize⟩
    rw [Pool.setRequiredFrameSize, if_neg (not_not.mpr hsize), Option.map_some, ← hsize]
  · refine ⟨{ FrameOwnership.released p with requiredFrameSize := size }, ?_, h.released size,
      fun f hf => h.view_released hf size, rfl, rfl⟩
    rw [Pool.setRequiredFrameSize, if_pos hsize, h.releaseAllFrames, Option.map_some]

end WaterHarp.FrameOwnership
