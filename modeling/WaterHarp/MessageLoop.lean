import WaterHarp.Showline

/-! The main loop of `WaterDrip.ino`: a byte from the serial line selects one of the
messages of `all.h`, and the selected message is shown again and again. -/
namespace WaterHarp.MessageLoop
open Program EventLog SketchWorld Showline

structure Headers where
  rain : List (BitVec 16)
  mary : List (BitVec 16)
  shd : List (BitVec 16)
  smiley : List (BitVec 16)
  sine : List (BitVec 16)
  bars : List (BitVec 16)
  nonempty : ∀ msg ∈ [rain, mary, shd, smiley, sine, bars], msg ≠ []

namespace Headers

def data (h : Headers) : List (List (BitVec 16)) := [h.rain, h.mary, h.shd, h.smiley, h.sine, h.bars]

def len (h : Headers) : List ℕ :=
  [h.rain.length, h.mary.length, h.shd.length, h.smiley.length, h.sine.length, h.bars.length]

def ndata (h : Headers) : ℕ := h.data.length

end Headers

def names : List String := ["rain", "mary", "shd", "smiley", "sine", "bars"]
def step : List ℕ := [5, 10, 20, 40, 20, 40]
def del : List ℕ := [0, 1000, 1000, 1000, 0, 0]

def printName (texts : List String) (i : ℕ) (w : World) : Outcome SketchError World :=
  let w := printAll texts w
  match names[i]? with
  | none => .raised .outOfBounds w
  | some name => .done (print name w)

def select (h : Headers) (byte : UInt8) (w : World) : Outcome SketchError World :=
  if '0'.toNat ≤ byte.toNat ∧ byte.toNat < '0'.toNat+h.ndata then
    let w := { w with cur := byte.toNat - '0'.toNat }
    printName ["Src: "] w.cur w
  else runAll (fun i => printName [toString i, " "] i) (List.range h.ndata) w

/-- The top of `loop`. -/
def readCommand (h : Headers) (w : World) : Outcome SketchError World :=
  let w := available w
  if 0 < w.pending.length then
    let (byte, w) := read w
    select h byte w
  else .done w

/-- The rest of `loop`. -/
def showCurrent (h : Headers) (b : Board) (w : World) : Outcome SketchError World :=
  (printName ["Starting: ", toString w.cur, " "] w.cur w).bind fun w =>
    let w := digitalWrite b.ds18b20Ext true w
    match h.len[w.cur]?, h.data[w.cur]?, step[w.cur]? with
    | some len, some msg, some period => (showmessage b len msg period w).bind fun w =>
      match del[w.cur]? with
      | none => .raised .outOfBounds w
      | some ms => .done (delay ms w)
    | _, _, _ => .raised .outOfBounds w

def loop (h : Headers) (b : Board) (w : World) : Outcome SketchError World :=
  (readCommand h w).bind (showCurrent h b)

def iterations (h : Headers) (b : Board) (n : ℕ) : World → Outcome SketchError World :=
  runAll (fun _ => loop h b) (List.range n)

/-! What is selected and shown. -/

def IsIndex (byte : UInt8) : Prop := 48 ≤ byte.toNat ∧ byte.toNat < 54

instance : DecidablePred IsIndex := fun _ => inferInstanceAs (Decidable (_ ∧ _))

/-- The index which the last such byte gives, at first 0. -/
def selected (bytes : List UInt8) : ℕ :=
  match (bytes.filter IsIndex).getLast? with
  | none => 0
  | some byte => byte.toNat-48

lemma selected_append_singleton (bytes : List UInt8) (byte : UInt8) :
    selected (bytes ++ [byte]) = if IsIndex byte then byte.toNat-48 else selected bytes := by
  rw [selected, List.filter_append]
  by_cases hbyte : IsIndex byte <;> simp [hbyte, selected]

lemma selected_lt (bytes : List UInt8) : selected bytes < 6 := by
  induction bytes using List.reverseRecOn with
  | nil => decide
  | append_singleton bytes byte ih =>
    rw [selected_append_singleton]
    split_ifs with hbyte
    · obtain ⟨hlow, hhigh⟩ := hbyte
      omega
    · exact ih

example : selected [49, 120, 50, 88] = 2 := by decide

lemma tables_get (h : Headers) {i : ℕ} (hi : i < 6) :
    ∃ name msg period ms, names[i]? = some name ∧ h.data[i]? = some msg ∧
      h.len[i]? = some msg.length ∧ step[i]? = some period ∧ del[i]? = some ms ∧ msg ≠ [] := by
  have hdata : i < h.data.length := hi
  have hmem : h.data[i] ∈ [h.rain, h.mary, h.shd, h.smiley, h.sine, h.bars] := List.getElem_mem hdata
  have hlen : h.len = h.data.map List.length := rfl
  refine ⟨_, h.data[i], _, _, List.getElem?_eq_getElem hi, List.getElem?_eq_getElem hdata, ?_,
    List.getElem?_eq_getElem hi, List.getElem?_eq_getElem hi, h.nonempty _ hmem⟩
  rw [hlen, List.getElem?_map, List.getElem?_eq_getElem hdata]
  rfl

lemma printName_performs (texts : List String) {i : ℕ} (hi : i < 6) (w : World) :
    Performs sketchLog (printName texts i) w (fun es w' => Quiet es ∧ Steady w w') := by
  obtain ⟨es, hacts, hquiet, hsteady⟩ := printAll_acts texts w
  have hname : names[i]? = some (names.get ⟨i, hi⟩) := List.getElem?_eq_getElem hi
  have hprint := print_acts (names.get ⟨i, hi⟩) (printAll texts w)
  refine performs_done ?_ (hacts.trans hprint) ⟨hquiet.append ⟨rfl, rfl, rfl, rfl⟩, hsteady.trans ⟨rfl, rfl⟩⟩
  simp only [printName, hname]

lemma acts_of_cur {w w' : World} {es : List Event} {cur : ℕ} (h : Acts { w with cur := cur } es w') :
    Acts w es w' := ⟨h.trace, h.level, h.bytes⟩

lemma select_performs (h : Headers) (byte : UInt8) (w : World) :
    Performs sketchLog (select h byte) w (fun es w' =>
      Quiet es ∧ w'.cur = if IsIndex byte then byte.toNat-48 else w.cur) := by
  have hcond : ('0'.toNat ≤ byte.toNat ∧ byte.toNat < '0'.toNat+h.ndata) = IsIndex byte := rfl
  by_cases hbyte : IsIndex byte
  · have hlt : byte.toNat-48 < 6 := by
      obtain ⟨hlow, hhigh⟩ := hbyte
      omega
    obtain ⟨es, w', hw', hacts, hquiet, hsteady⟩ :=
      printName_performs ["Src: "] hlt { w with cur := byte.toNat-48 }
    refine performs_done ?_ (acts_of_cur hacts) ⟨hquiet, ?_⟩
    · rw [select, if_pos (hcond ▸ hbyte)]
      exact hw'
    · rw [if_pos hbyte]
      exact hsteady.cur
  · have hnames : ∀ i ∈ List.range h.ndata, ∀ v, Steady w v →
        Performs sketchLog (printName [toString i, " "] i) v (fun es v' => Quiet es ∧ Steady w v') :=
      fun i hi v hv => (printName_performs _ (List.mem_range.mp hi) v).conseq
        fun es v' hes => ⟨hes.1, hv.trans hes.2⟩
    obtain ⟨es, w', hw', hacts, hsteady, segments, rfl, hsegments⟩ :=
      performs_runAll (Steady.refl w) hnames
    refine performs_done ?_ hacts ⟨Quiet.flatten fun fs hfs => ?_, ?_⟩
    · rw [select, if_neg (hcond ▸ hbyte)]
      exact hw'
    · obtain ⟨i, -, hquiet⟩ := exists_of_mem_segments hsegments hfs
      exact hquiet
    · rw [if_neg hbyte]
      exact hsteady.cur

/-- What the top of `loop` is to read: the first unread byte, if one is waiting at `available`. -/
def dueBytes (w : World) : List UInt8 := if (available w).pending = [] then [] else w.unread.take 1

lemma dueBytes_of_pending {w : World} {byte : UInt8} {pending : List UInt8}
    (h : (available w).pending = byte :: pending) : dueBytes w = [byte] := by
  have hunread : w.unread = byte :: pending ++ (available w).arrivals.flatten := by
    have hbytes := (available_acts w).bytes
    rw [World.unread, h] at hbytes
    exact hbytes.symm
  rw [dueBytes, if_neg (by simp [h]), hunread]
  rfl

/-- The due byte is read, and it alone decides about `cur`. -/
lemma readCommand_performs (h : Headers) (w : World) :
    Performs sketchLog (readCommand h) w (fun es w' => lines es = [] ∧ reads es = dueBytes w ∧
      ((reads es = [] ∧ w'.cur = w.cur) ∨
        ∃ byte, reads es = [byte] ∧ w'.cur = if IsIndex byte then byte.toNat-48 else w.cur)) := by
  have hpoll := available_acts w
  by_cases hwaiting : 0 < (available w).pending.length
  · obtain ⟨byte, pending, hpending⟩ := List.exists_cons_of_length_pos hwaiting
    have htick : (available w).tick.pending =
        byte :: (pending ++ (available w).arrivals.headD []) := by
      rw [World.tick, hpending]
      rfl
    obtain ⟨hbyte, hcur, hread⟩ := read_acts htick
    obtain ⟨es, w', hw', hacts, hquiet, hselect⟩ := select_performs h byte (read (available w)).2
    refine performs_done ?_ ((hpoll.trans hread).trans hacts) ⟨?_, ?_, .inr ⟨byte, ?_, ?_⟩⟩
    · simp only [readCommand, if_pos hwaiting]
      rw [hbyte, hw']
    · exact (hquiet.after _).1
    · rw [dueBytes_of_pending hpending]
      exact (hquiet.after _).2.1
    · exact (hquiet.after _).2.1
    · rw [hselect, hcur]
      rfl
  · have hnone : (available w).pending = [] := by simpa using hwaiting
    refine performs_done ?_ hpoll ⟨rfl, ?_, .inl ⟨rfl, rfl⟩⟩
    · simp only [readCommand, if_neg hwaiting]
    · rw [dueBytes, if_pos hnone]
      rfl

/-- A message has been shown: each of its lines has a part of the log, in which every
solenoid is written once, with its bit of the line. -/
structure Presented (b : Board) (msg : List (BitVec 16)) (es : List Event) : Prop where
  noRead : reads es = []
  driven : ∃ before segments after, es = before ++ segments.flatten ++ after ∧
    List.Forall₂ (Driven b) (lines es) segments
  outcome : (checks es = List.replicate msg.length 0 ∧ lines es = msg ++ [0xffff]) ∨
    ∃ k < msg.length, ∃ bytes, 0 < bytes ∧ checks es = List.replicate k 0 ++ [bytes] ∧
      lines es = msg.take (k+1)
  shown : lines es ≠ [] ∧ (lines es <+: msg ∨ lines es = msg ++ [0xffff])
  complete : lines es = msg ++ [0xffff] ↔ ∀ bytes ∈ checks es, bytes = 0
  first : ∀ bytes rest, checks es = bytes :: rest → 0 < bytes → lines es = msg.take 1

lemma presented_of_outcome {b : Board} {msg : List (BitVec 16)} (hmsg : msg ≠ []) {es : List Event}
    (hread : reads es = [])
    (hdriven : ∃ before segments after, es = before ++ segments.flatten ++ after ∧
      List.Forall₂ (Driven b) (lines es) segments)
    (h : (checks es = List.replicate msg.length 0 ∧ lines es = msg ++ [0xffff]) ∨
      ∃ k < msg.length, ∃ bytes, 0 < bytes ∧ checks es = List.replicate k 0 ++ [bytes] ∧
        lines es = msg.take (k+1)) : Presented b msg es := by
  have hpos : 0 < msg.length := List.length_pos_iff.mpr hmsg
  refine ⟨hread, hdriven, h, ?_, ?_, ?_⟩
  · rcases h with ⟨-, hl⟩ | ⟨k, hk, bytes, -, -, hl⟩
    · exact ⟨by simp [hl], .inr hl⟩
    · rw [hl]
      exact ⟨by simp [hmsg], .inl (List.take_prefix _ _)⟩
  · rcases h with ⟨hc, hl⟩ | ⟨k, hk, bytes, hbytes, hc, hl⟩
    · rw [hc, hl]
      exact ⟨fun _ bytes hbytes => List.eq_of_mem_replicate hbytes, fun _ => rfl⟩
    · rw [hc, hl]
      constructor
      · intro he
        have := congrArg List.length he
        simp only [List.length_take, List.length_append, List.length_singleton] at this
        omega
      · intro hzero
        have := hzero bytes (by simp)
        omega
  · intro bytes rest hcons hbytes
    rcases h with ⟨hc, -⟩ | ⟨k, hk, seen, -, hc, hl⟩
    · have hzero : bytes = 0 := List.eq_of_mem_replicate (n := msg.length) (by rw [← hc, hcons]; simp)
      omega
    · cases k with
      | zero => exact hl
      | succ k =>
        rw [hc, List.replicate_succ, List.cons_append, List.cons_eq_cons] at hcons
        omega

lemma showCurrent_performs (h : Headers) (b : Board) {w : World} (hcur : w.cur < 6) :
    Performs sketchLog (showCurrent h b) w (fun es w' =>
      (∃ msg, h.data[w.cur]? = some msg ∧ Presented b msg es) ∧ w'.cur = w.cur) := by
  obtain ⟨name, msg, period, ms, -, hdata, hlen, hstep, hdel, hmsg⟩ := tables_get h hcur
  obtain ⟨es, u, hu, hacts, hquiet, hsteady⟩ :=
    printName_performs ["Starting: ", toString w.cur, " "] hcur w
  have hpin := digitalWrite_acts b.ds18b20Ext true u
  obtain ⟨fs, v, hv, hacts', hshown, hsteady'⟩ :=
    showmessage_performs b msg period (digitalWrite b.ds18b20Ext true u)
  have hdelay := delay_acts ms v
  have hcur' : (digitalWrite b.ds18b20Ext true u).cur = w.cur := hsteady.cur
  have hend : v.cur = w.cur := hsteady'.cur.trans hcur'
  have hbefore : Quiet (es ++ [.write b.ds18b20Ext true]) := hquiet.append ⟨rfl, rfl, rfl, rfl⟩
  have hafter : Quiet [Event.delay ms] := ⟨rfl, rfl, rfl, rfl⟩
  obtain ⟨hlines, hreads, hchecks, -⟩ := hbefore.before fs
  obtain ⟨hlines', hreads', hchecks', -⟩ := hafter.after (es ++ [.write b.ds18b20Ext true] ++ fs)
  obtain ⟨segments, hflatten, hsegments⟩ := hshown.segments
  refine performs_done ?_ (((hacts.trans hpin).trans hacts').trans hdelay)
    ⟨⟨msg, hdata, presented_of_outcome hmsg ?_ ?_ ?_⟩, hend⟩
  · simp only [showCurrent, hu, Outcome.bind_done, hcur', hlen, hdata, hstep, hv, hend, hdel]
  · rw [hreads', hreads, hshown.reads]
  · refine ⟨es ++ [.write b.ds18b20Ext true], segments, [.delay ms], by rw [hflatten], ?_⟩
    rwa [hlines', hlines]
  · rw [hchecks', hchecks, hlines', hlines]
    exact hshown.outcome

/-- Between two iterations: no byte is lost or read twice, and `cur` follows the bytes. -/
structure Served (arrivals : List (List UInt8)) (w : World) : Prop where
  bytes : reads w.trace ++ w.unread = arrivals.flatten
  cur : w.cur = selected (reads w.trace)

/-- One iteration, split at the end of its top. -/
structure Iteration (h : Headers) (b : Board) (w w₁ w₂ : World) (top rest : List Event) : Prop where
  read : readCommand h w = .done w₁
  shows : showCurrent h b w₁ = .done w₂
  topTrace : w₁.trace = w.trace ++ top
  restTrace : w₂.trace = w₁.trace ++ rest
  oneRead : (reads top).length ≤ 1
  consumed : reads top = dueBytes w
  noLine : lines top = []
  cur : w₁.cur = selected (reads w₁.trace) ∧ w₂.cur = w₁.cur
  message : ∃ msg, h.data[w₁.cur]? = some msg ∧ Presented b msg rest

lemma iteration (h : Headers) (b : Board) {arrivals : List (List UInt8)} {w : World}
    (hw : Served arrivals w) :
    ∃ w₁ w₂ top rest, Iteration h b w w₁ w₂ top rest ∧ Served arrivals w₂ := by
  obtain ⟨top, w₁, hread, hacts, hnoline, hdue, hcases⟩ := readCommand_performs h w
  have htrace : reads w₁.trace = reads w.trace ++ reads top := by
    rw [Acts.trace hacts, reads_append]
  have hcur : w₁.cur = selected (reads w₁.trace) := by
    rw [htrace]
    rcases hcases with ⟨hnone, hc⟩ | ⟨byte, hone, hc⟩
    · rw [hnone, List.append_nil, hc, hw.cur]
    · rw [hone, selected_append_singleton, hc, hw.cur]
  have hone : (reads top).length ≤ 1 := by
    rcases hcases with ⟨hnone, -⟩ | ⟨byte, hone, -⟩
    · simp [hnone]
    · simp [hone]
  have hlt : w₁.cur < 6 := hcur ▸ selected_lt _
  obtain ⟨rest, w₂, hshow, hacts', hmessage, hcur'⟩ := showCurrent_performs h b hlt
  have hsilent : reads rest = [] := by
    obtain ⟨msg, -, hp⟩ := hmessage
    exact hp.noRead
  have htrace' : reads w₂.trace = reads w₁.trace := by
    rw [Acts.trace hacts', reads_append, hsilent, List.append_nil]
  refine ⟨w₁, w₂, top, rest, ⟨hread, hshow, hacts.trace, hacts'.trace, hone, hdue, hnoline,
    ⟨hcur, hcur'⟩, hmessage⟩, ?_, ?_⟩
  · have hbytes := Acts.bytes hacts
    have hbytes' := Acts.bytes hacts'
    rw [hsilent, List.nil_append] at hbytes'
    rw [htrace', htrace, List.append_assoc, hbytes', hbytes, hw.bytes]
  · rw [hcur', hcur, htrace']

lemma served_boot (level : ℕ → Bool) (arrivals : List (List UInt8)) (readings : List (BitVec 32)) :
    Served arrivals (boot level arrivals readings) := ⟨rfl, rfl⟩

lemma iterations_served (h : Headers) (b : Board) (n : ℕ) (arrivals : List (List UInt8)) :
    Establishes (Served arrivals) (iterations h b n) (Served arrivals) := by
  refine runAll_invariant _ _ _ fun _ _ w hw => ?_
  obtain ⟨w₁, w₂, top, rest, hit, hserved⟩ := iteration h b hw
  exact ⟨w₂, by rw [loop, hit.read, Outcome.bind_done, hit.shows], hserved⟩

/-- Every iteration of every run serves the serial line and shows the selected message. -/
theorem loop_serves (h : Headers) (b : Board) (level : ℕ → Bool) (arrivals : List (List UInt8))
    (readings : List (BitVec 32)) (n : ℕ) :
    ∃ w, iterations h b n (boot level arrivals readings) = .done w ∧ Served arrivals w ∧
      ∃ w₁ w₂ top rest, Iteration h b w w₁ w₂ top rest := by
  obtain ⟨w, hw, hserved⟩ := iterations_served h b n arrivals _ (served_boot level arrivals readings)
  obtain ⟨w₁, w₂, top, rest, hit, -⟩ := iteration h b hserved
  exact ⟨w, hw, hserved, w₁, w₂, top, rest, hit⟩

end WaterHarp.MessageLoop
