import WaterHarp.SketchWorld

/-! `showline` and `showmessage`: a word drives all solenoids through the table
`ord`, and a message is shown word by word until a byte is waiting. -/
namespace WaterHarp.Showline
open Program EventLog SketchWorld

def ord : Fin 16 → Fin 16 := ![2, 3, 4, 5, 1, 0, 7, 6, 9, 8, 15, 14, 10, 11, 12, 13]

def showlineFrom (b : Board) : List (Fin 16) → BitVec 16 → World → Outcome SketchError World
  | [], _, w => .done w
  | i :: is, line, w => (solenoid b (ord i) (line &&& 1 ≠ 0) w).bind (showlineFrom b is (line >>> 1))

/-- The loop runs from 15 down to 0. -/
def showline (b : Board) (line : BitVec 16) (w : World) : Outcome SketchError World :=
  showlineFrom b (List.finRange 16).reverse line (w.log (.showline line))

def showLines (b : Board) (msg : List (BitVec 16)) (period : ℕ) :
    List ℕ → World → Outcome SketchError World
  | [], w => showline b 0xffff w
  | i :: is, w =>
    let w := delay period w
    match msg[i]? with
    | none => .raised .outOfBounds w
    | some line => (showline b line w).bind fun w =>
        let w := available w
        if 0 < w.pending.length then .done w else showLines b msg period is w

def showmessage (b : Board) (len : ℕ) (msg : List (BitVec 16)) (period : ℕ) (w : World) :
    Outcome SketchError World :=
  showLines b msg period (List.range len) w

lemma ord_surjective : Function.Surjective ord := by decide

def drive (b : Board) (order : List (Fin 16)) (level : Fin 16 → Bool) :
    World → Outcome SketchError World :=
  runAll (fun i => solenoid b (ord i) (level i)) order

def Complete (order : List (Fin 16)) : Prop := ∀ i, order.filter (fun k => ord i = ord k) = [i]

lemma complete_finRange : Complete (List.finRange 16) := by unfold Complete; decide

lemma complete_reverse : Complete (List.finRange 16).reverse := by unfold Complete; decide

lemma drive_performs (b : Board) {order : List (Fin 16)} (horder : Complete order)
    (level : Fin 16 → Bool) (w : World) :
    Performs sketchLog (drive b order level) w (fun es w' =>
      (∀ i, writesTo b (ord i) es = [level i]) ∧ Quiet es ∧ Steady w w') := by
  have hround : ∀ i ∈ order, ∀ v, Steady w v →
      Performs sketchLog (solenoid b (ord i) (level i)) v (fun es v' =>
        ((∀ m, writesTo b m es = if m = ord i then [level i] else []) ∧ Quiet es) ∧ Steady w v') :=
    fun i _ v hv => (solenoid_performs b (ord i) (level i) v).conseq
      fun es v' h => ⟨⟨h.1, h.2.1⟩, hv.trans h.2.2⟩
  refine (performs_runAll (Steady.refl w) hround).conseq ?_
  rintro es w' ⟨hsteady, segments, rfl, hsegments⟩
  refine ⟨fun i => ?_, Quiet.flatten fun es hes => ?_, hsteady⟩
  · have hwrites := filterMap_segments (hsegments.imp fun k es h => h.1 (ord i))
    rw [writesTo, writesOn, hwrites, flatMap_ite, horder i, List.map_singleton]
  · obtain ⟨i, -, h⟩ := exists_of_mem_segments hsegments hes
    exact h.2

/-- The bit of `line` for the index `i` of the table. -/
def lineBit (line : BitVec 16) (i : Fin 16) : Bool := line.getLsbD (15-i)

lemma shifted_bit (line : BitVec 16) (k : ℕ) :
    decide ((line >>> k) &&& 1 ≠ 0) = line.getLsbD k := by
  have hone : (line >>> k) &&& 1 = 0 ↔ (line >>> k).getLsbD 0 = false := by
    change (line >>> k) &&& 1#16 = 0 ↔ _
    rw [BitVec.and_one_eq_setWidth_ofBool_getLsbD]
    cases (line >>> k).getLsbD 0 <;> decide
  rw [BitVec.getLsbD_ushiftRight] at hone
  cases h : line.getLsbD k
  · simpa using hone.mpr (by simpa using h)
  · simpa using mt hone.mp (by simpa using h)

lemma showlineFrom_eq (b : Board) (line : BitVec 16) {k : ℕ} {is : List (Fin 16)}
    (his : is = (List.finRange 16).reverse.drop k) :
    showlineFrom b is (line >>> k) = drive b is (lineBit line) := by
  induction is generalizing k with
  | nil => rfl
  | cons i is ih =>
    have hk : k < 16 := by
      have := congrArg List.length his
      simp only [List.length_cons, List.length_drop, List.length_reverse, List.length_finRange] at this
      omega
    obtain ⟨hi, hrest⟩ := List.cons_eq_cons.mp (his.trans (List.drop_eq_getElem_cons (by simpa using hk)))
    have hbit : lineBit line i = line.getLsbD k := by
      rw [hi, lineBit]
      congr 1
      simp
      omega
    funext w
    rw [showlineFrom, drive, runAll_cons, hbit, shifted_bit, ← BitVec.shiftRight_add, ih hrest, drive]

/-- One word has been shown: each solenoid was driven once, with its own bit. -/
structure Line (b : Board) (line : BitVec 16) (es : List Event) : Prop where
  lines : lines es = [line]
  reads : reads es = []
  checks : checks es = []
  clock : clock es = []
  writes : ∀ i, writesTo b (ord i) es = [lineBit line i]

/-- The part of a log which shows one word. -/
structure Driven (b : Board) (line : BitVec 16) (es : List Event) : Prop where
  lines : lines es = [line]
  writes : ∀ i, writesTo b (ord i) es = [lineBit line i]

lemma Line.driven {b : Board} {line : BitVec 16} {es : List Event} (h : Line b line es) :
    Driven b line es := ⟨h.lines, h.writes⟩

lemma Driven.polled {b : Board} {line : BitVec 16} {es : List Event} (h : Driven b line es)
    (bytes : ℕ) : Driven b line (es ++ [.available bytes]) where
  lines := by
    rw [lines_append, h.lines]
    rfl
  writes i := by
    rw [writesTo, writesOn_append, ← writesTo, h.writes]
    rfl

lemma Line.cons {b : Board} {line : BitVec 16} {es fs : List Event} (h : Line b line es)
    (hfs : Quiet fs) (hwrites : ∀ i, writesTo b i fs = []) : Line b line (fs ++ es) := by
  obtain ⟨hlines, hreads, hchecks, hclock⟩ := hfs.before es
  refine ⟨hlines.trans h.lines, hreads.trans h.reads, hchecks.trans h.checks, hclock.trans h.clock, ?_⟩
  intro i
  rw [writesTo, writesOn_append, ← writesTo, ← writesTo, hwrites, h.writes, List.nil_append]

lemma showline_performs (b : Board) (line : BitVec 16) (w : World) :
    Performs sketchLog (showline b line) w (fun es w' => Line b line es ∧ Steady w w') := by
  have hdrive : showlineFrom b (List.finRange 16).reverse line =
      drive b (List.finRange 16).reverse (lineBit line) := by
    have := showlineFrom_eq b line (k := 0) rfl
    rwa [BitVec.ushiftRight_zero] at this
  obtain ⟨es, w', hw', hacts, hwrites, hquiet, hsteady⟩ :=
    drive_performs b complete_reverse (lineBit line) (w.log (.showline line))
  have hlog := log_acts (e := .showline line) w (fun _ => rfl) rfl
  have hbegin : Steady w (w.log (.showline line)) := ⟨rfl, rfl⟩
  obtain ⟨hlines, hreads, hchecks, hclock⟩ := hquiet.after [.showline line]
  refine performs_done (by rw [showline, hdrive, hw']) (hlog.trans hacts)
    ⟨⟨hlines, hreads, hchecks, hclock, fun i => ?_⟩, hbegin.trans hsteady⟩
  rw [writesTo, writesOn_append, ← writesTo, ← writesTo, hwrites i]
  rfl

/-- The log of a message: the idle word after its last word, or an end at the first
word after which a byte is waiting. -/
inductive Shown (b : Board) : List (BitVec 16) → List Event → Prop
  | idle {es : List Event} (h : Line b 0xffff es) : Shown b [] es
  | stopped {line : BitVec 16} {msg : List (BitVec 16)} {es : List Event} {bytes : ℕ}
      (h : Line b line es) (hbytes : 0 < bytes) : Shown b (line :: msg) (es ++ [.available bytes])
  | next {line : BitVec 16} {msg : List (BitVec 16)} {es fs : List Event}
      (h : Line b line es) (hrest : Shown b msg fs) : Shown b (line :: msg) (es ++ [.available 0] ++ fs)

lemma delayed_performs (b : Board) (line : BitVec 16) (period : ℕ) (w : World) :
    Performs sketchLog (fun w => showline b line (delay period w)) w
      (fun es w' => Line b line es ∧ Steady w w') := by
  obtain ⟨es, w', hw', hacts, hline, hsteady⟩ := showline_performs b line (delay period w)
  have hbegin : Steady w (delay period w) := ⟨rfl, rfl⟩
  exact performs_done hw' ((delay_acts period w).trans hacts)
    ⟨hline.cons ⟨rfl, rfl, rfl, rfl⟩ (fun _ => rfl), hbegin.trans hsteady⟩

lemma showLines_performs (b : Board) {msg rest : List (BitVec 16)} (period : ℕ) {is : List ℕ}
    (his : is.map (msg[·]?) = rest.map some) (w : World) :
    Performs sketchLog (showLines b msg period is) w (fun es w' => Shown b rest es ∧ Steady w w') := by
  induction is generalizing rest w with
  | nil =>
    obtain rfl : rest = [] := by simpa using his.symm
    exact (showline_performs b 0xffff w).conseq fun es w' h => ⟨.idle h.1, h.2⟩
  | cons i is ih =>
    have hlength : is.length+1 = rest.length := by simpa using congrArg List.length his
    obtain ⟨line, rest, rfl⟩ := List.exists_cons_of_length_pos (by omega : 0 < rest.length)
    simp only [List.map_cons, List.cons.injEq] at his
    obtain ⟨es, v, hv, hacts, hline, hsteady⟩ := delayed_performs b line period w
    change showline b line (delay period w) = .done v at hv
    have hpoll := available_acts v
    have hpolled : Steady w (available v) := hsteady.trans ⟨rfl, rfl⟩
    by_cases hwaiting : 0 < (available v).pending.length
    · refine performs_done ?_ (hacts.trans hpoll) ⟨.stopped hline hwaiting, hpolled⟩
      simp only [showLines, his.1]
      rw [hv, Outcome.bind_done, if_pos hwaiting]
    · obtain ⟨fs, u, hu, hacts', hrest, hsteady'⟩ := ih his.2 (available v)
      have hzero : (available v).pending.length = 0 := Nat.eq_zero_of_not_pos hwaiting
      rw [hzero] at hpoll
      refine performs_done ?_ ((hacts.trans hpoll).trans hacts')
        ⟨.next hline hrest, hpolled.trans hsteady'⟩
      simp only [showLines, his.1]
      rw [hv, Outcome.bind_done, if_neg hwaiting, hu]

theorem showmessage_performs (b : Board) (msg : List (BitVec 16)) (period : ℕ) (w : World) :
    Performs sketchLog (showmessage b msg.length msg period) w
      (fun es w' => Shown b msg es ∧ Steady w w') := by
  refine showLines_performs b period ?_ w
  refine List.ext_getElem? fun n => ?_
  by_cases hn : n < msg.length <;> simp [hn]

namespace Shown
variable {b : Board} {msg : List (BitVec 16)} {es : List Event}

lemma reads (h : Shown b msg es) : SketchWorld.reads es = [] := by
  induction h with
  | idle h => exact h.reads
  | stopped h _ => rw [reads_append, h.reads]; rfl
  | next h _ ih => rw [reads_append, reads_append, h.reads, ih]; rfl

lemma writes (h : Shown b msg es) (i : Fin 16) :
    writesTo b (ord i) es = (SketchWorld.lines es).map (fun line => lineBit line i) := by
  have hpoll (bytes : ℕ) : writesTo b (ord i) [.available bytes] = [] := rfl
  have happend (es fs : List Event) : writesTo b (ord i) (es ++ fs) =
      writesTo b (ord i) es ++ writesTo b (ord i) fs := writesOn_append _ _ _
  induction h with
  | idle h => rw [h.writes, h.lines, List.map_singleton]
  | stopped h _ =>
    rw [happend, hpoll, h.writes, lines_append, h.lines]
    rfl
  | next h _ ih =>
    rw [happend, happend, hpoll, h.writes, ih, lines_append, lines_append, h.lines]
    rfl

/-- Each word which was shown has its own part of the log. -/
lemma segments (h : Shown b msg es) : ∃ segments : List (List Event), segments.flatten = es ∧
    List.Forall₂ (Driven b) (SketchWorld.lines es) segments := by
  induction h with
  | @idle es h => exact ⟨[es], by simp, by simpa [h.lines] using h.driven⟩
  | @stopped line msg es bytes h _ =>
    have hpart := h.driven.polled bytes
    exact ⟨[es ++ [.available bytes]], by simp, by simpa [hpart.lines] using hpart⟩
  | @next line msg es fs h _ ih =>
    obtain ⟨segments, rfl, hsegments⟩ := ih
    have hpart := h.driven.polled 0
    refine ⟨(es ++ [.available 0]) :: segments, by simp, ?_⟩
    rw [lines_append, hpart.lines]
    exact .cons hpart hsegments

/-- The message was shown to its end, or until the first check which saw a byte. -/
theorem outcome (h : Shown b msg es) :
    (SketchWorld.checks es = List.replicate msg.length 0 ∧ SketchWorld.lines es = msg ++ [0xffff]) ∨
    ∃ k < msg.length, ∃ bytes, 0 < bytes ∧ SketchWorld.checks es = List.replicate k 0 ++ [bytes] ∧
      SketchWorld.lines es = msg.take (k+1) := by
  induction h with
  | idle h => exact .inl ⟨h.checks, h.lines⟩
  | @stopped line msg es bytes h hbytes =>
    refine .inr ⟨0, by simp, bytes, hbytes, ?_, ?_⟩
    · rw [checks_append, h.checks]
      rfl
    · rw [lines_append, h.lines]
      rfl
  | @next line msg es fs h _ ih =>
    have hchecks : SketchWorld.checks (es ++ [.available 0] ++ fs) = 0 :: SketchWorld.checks fs := by
      rw [checks_append, checks_append, h.checks]
      rfl
    have hlines : SketchWorld.lines (es ++ [.available 0] ++ fs) = line :: SketchWorld.lines fs := by
      rw [lines_append, lines_append, h.lines]
      rfl
    rw [hchecks, hlines]
    rcases ih with ⟨hc, hl⟩ | ⟨k, hk, bytes, hbytes, hc, hl⟩
    · exact .inl ⟨by rw [hc]; rfl, by rw [hl]; rfl⟩
    · exact .inr ⟨k+1, by simpa using hk, bytes, hbytes, by rw [hc]; rfl, by rw [hl]; rfl⟩

end Shown

end WaterHarp.Showline
