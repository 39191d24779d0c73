import WaterHarp.Program
import WaterHarp.Rounding
import WaterHarp.NoteStream
import WaterHarp.PythonValues

/-! `WaterHarpAudio`: the volumes of the streams become MIDI messages at the
edges of their notes. The port is the list of the calls it has received. -/
namespace WaterHarp.AudioNotes
open Program Rounding NoteStream PythonValues

def numStreams : ℕ := 16
def turnOffStreams : Bool := true
def cMixolydianScale : List ℕ := [48, 50, 52, 53, 55, 57, 58, 60, 62, 64, 65, 67, 69, 70, 72, 74]

inductive MessageType
  | noteOn
  | noteOff
  deriving DecidableEq, Repr

structure Message where
  type : MessageType
  channel : ℕ
  note : ℕ
  velocity : ℤ
  deriving DecidableEq, Repr

inductive PortCall
  | send (msg : Message)
  | reset
  deriving DecidableEq, Repr

/-- A channel of the pygame mixer. -/
structure Channel where
  busy : Bool
  deriving DecidableEq, Repr

structure WaterHarpAudio where
  streamChannels : List (Option Channel)
  lastKinectArray : List ℚ
  midiOutport : List PortCall
  deriving DecidableEq, Repr

def init : WaterHarpAudio := ⟨List.replicate numStreams none, List.replicate numStreams 0, []⟩

def WaterHarpAudio.call (a : WaterHarpAudio) (c : PortCall) : WaterHarpAudio :=
  { a with midiOutport := a.midiOutport ++ [c] }

/-- `mido.Message`, which rejects data bytes outside 0..127. -/
def message (type : MessageType) (note : ℕ) (velocity : ℤ) : Option Message :=
  if note ≤ 127 ∧ 0 ≤ velocity ∧ velocity ≤ 127 then some ⟨type, 0, note, velocity⟩ else none

def sendNote (type : MessageType) (noteIdx : ℕ) (velocity : ℤ) (a : WaterHarpAudio) :
    Outcome PyError WaterHarpAudio :=
  match cMixolydianScale[noteIdx]? with
  | none => .raised .indexError a
  | some note =>
    match message type note velocity with
    | none => .raised .valueError a
    | some msg => .done (a.call (.send msg))

def allNotesOff (a : WaterHarpAudio) : Outcome PyError WaterHarpAudio := .done (a.call .reset)

def stopNote (noteIdx : ℕ) (a : WaterHarpAudio) : Outcome PyError WaterHarpAudio :=
  sendNote .noteOff noteIdx 127 a

def playNote (noteIdx : ℕ) (volume : ℚ) (a : WaterHarpAudio) : Outcome PyError WaterHarpAudio :=
  sendNote .noteOn noteIdx (max (trunc (127*volume)) 40) a

/-- The end of one round of `play_notes`, for sounds played from files. -/
def turnOffStream (idx : ℕ) (volume last : ℚ) (a : WaterHarpAudio) : Outcome PyError WaterHarpAudio :=
  if turnOffStreams ∧ volume ≤ 1/1000 ∧ 1/1000 < last then
    match a.streamChannels[idx]? with
    | none => .raised .indexError a
    | some none => .done a
    | some (some channel) =>
      if channel.busy then .done { a with streamChannels := a.streamChannels.set idx none }
      else .done a
  else .done a

def playStream (idx : ℕ) (volume : ℚ) (a : WaterHarpAudio) : Outcome PyError WaterHarpAudio :=
  match a.lastKinectArray[idx]? with
  | none => .raised .indexError a
  | some last =>
    (if volume > 1/1000 ∧ 1/1000 ≥ last then playNote idx volume a
      else if volume < 1/1000 ∧ 1/1000 ≤ last then stopNote idx a
      else .done a).bind (turnOffStream idx volume last)

def playNotes (kinectArray : List ℚ) (a : WaterHarpAudio) : Outcome PyError WaterHarpAudio :=
  (if kinectArray.sum < 5/10000 then allNotesOff a else forEach playStream 0 kinectArray a).bind
    fun b => .done { b with lastKinectArray := kinectArray }

/-! The receiver at the other end of the port. -/

def PortCall.command : PortCall → Command ℕ ℤ
  | .send ⟨.noteOn, _, note, velocity⟩ => .on note velocity
  | .send ⟨.noteOff, _, note, velocity⟩ => .off note velocity
  | .reset => .reset

def commands (a : WaterHarpAudio) : List (Command ℕ ℤ) := a.midiOutport.map PortCall.command

def sounding (a : WaterHarpAudio) : Set ℕ := active ∅ (commands a)

def scaleNote (i : ℕ) : ℕ := cMixolydianScale.getD i 0

/-- A message which a MIDI receiver accepts, on a note of the scale. -/
def WellFormed : PortCall → Prop
  | .send ⟨.noteOn, _, note, velocity⟩ => note ∈ cMixolydianScale ∧ 40 ≤ velocity ∧ velocity ≤ 127
  | .send ⟨.noteOff, _, note, velocity⟩ => note ∈ cMixolydianScale ∧ velocity = 127
  | .reset => True

lemma commands_call (a : WaterHarpAudio) (c : PortCall) :
    commands (a.call c) = commands a ++ [c.command] := by
  simp [commands, WaterHarpAudio.call]

lemma sounding_call (a : WaterHarpAudio) (c : PortCall) :
    sounding (a.call c) = c.command.apply (sounding a) := by
  rw [sounding, commands_call, active_append_singleton, sounding]

lemma throughout_call {P : Set ℕ → Command ℕ ℤ → Prop} {a : WaterHarpAudio} {c : PortCall} :
    Throughout P ∅ (commands (a.call c)) ↔
      Throughout P ∅ (commands a) ∧ P (sounding a) c.command := by
  rw [commands_call, throughout_append_singleton, sounding]

lemma scaleNote_spec {i : ℕ} (hi : i < 16) :
    cMixolydianScale[i]? = some (scaleNote i) ∧ scaleNote i ≤ 127 := by
  revert i
  decide

lemma scaleNote_mem {i : ℕ} (hi : i < 16) : scaleNote i ∈ cMixolydianScale :=
  List.mem_of_getElem? (scaleNote_spec hi).1

lemma exists_scaleNote {n : ℕ} (hn : n ∈ cMixolydianScale) : ∃ i < 16, n = scaleNote i := by
  revert n
  decide

lemma scaleNote_inj {i j : ℕ} (hi : i < 16) (hj : j < 16) : scaleNote i = scaleNote j ↔ i = j := by
  have h : ∀ i < 16, ∀ j < 16, scaleNote i = scaleNote j ↔ i = j := by decide
  exact h i hi j hj

lemma sendNote_eq {type : MessageType} {i : ℕ} {velocity : ℤ} (a : WaterHarpAudio) (hi : i < 16)
    (hv : 0 ≤ velocity ∧ velocity ≤ 127) :
    sendNote type i velocity a = .done (a.call (.send ⟨type, 0, scaleNote i, velocity⟩)) := by
  obtain ⟨hnote, hle⟩ := scaleNote_spec hi
  simp [sendNote, hnote, message, hle, hv]

/-- A volume of 128/127 or more has no velocity. -/
def Loud (volume : ℚ) : Prop := 128/127 ≤ volume

instance : DecidablePred Loud := fun _ => inferInstanceAs (Decidable (_ ≤ _))

lemma velocity_range {volume : ℚ} (hv : ¬ Loud volume) :
    40 ≤ max (trunc (127*volume)) 40 ∧ max (trunc (127*volume)) 40 ≤ 127 := by
  refine ⟨le_max_right _ _, max_le ?_ (by norm_num)⟩
  unfold trunc Loud at *
  split_ifs with h
  · rw [← Int.lt_add_one_iff, Int.floor_lt]
    push_cast
    linarith
  · exact (Int.ceil_le.mpr (by push_cast; linarith [not_le.mp h])).trans (by norm_num : (0 : ℤ) ≤ 127)

lemma playNote_eq {i : ℕ} {volume : ℚ} (a : WaterHarpAudio) (hi : i < 16) (hv : ¬ Loud volume) :
    playNote i volume a =
      .done (a.call (.send ⟨.noteOn, 0, scaleNote i, max (trunc (127*volume)) 40⟩)) := by
  have := velocity_range hv
  exact sendNote_eq a hi (by omega)

lemma playNote_loud {i : ℕ} {volume : ℚ} (a : WaterHarpAudio) (hi : i < 16) (hv : Loud volume) :
    playNote i volume a = .raised .valueError a := by
  have hfloor : 128 ≤ trunc (127*volume) := by
    unfold Loud at hv
    rw [trunc_of_nonneg (by linarith), Int.le_floor]
    push_cast
    linarith
  have hno : ¬ max (trunc (127*volume)) 40 ≤ 127 := by omega
  obtain ⟨hnote, -⟩ := scaleNote_spec hi
  simp only [playNote, sendNote, hnote, message]
  rw [if_neg (fun h => hno h.2.2)]

/-! The object and its receiver together. -/

/-- The streams in `on` are the ones which sound, and every start was of a silent note. -/
structure Synced (a : WaterHarpAudio) (on : ℕ → Prop) : Prop where
  channels : a.streamChannels = List.replicate 16 none
  tracks : ∀ i < 16, scaleNote i ∈ sounding a ↔ on i
  starts : Throughout StartsSilent ∅ (commands a)
  wellFormed : ∀ c ∈ a.midiOutport, WellFormed c

def StopsOnly (a : WaterHarpAudio) : Prop := Throughout StopsActive ∅ (commands a)

namespace Synced
variable {a : WaterHarpAudio} {on : ℕ → Prop}

lemma congr {on' : ℕ → Prop} (h : Synced a on) (hon : ∀ i < 16, on i ↔ on' i) : Synced a on' :=
  ⟨h.channels, fun i hi => (h.tracks i hi).trans (hon i hi), h.starts, h.wellFormed⟩

lemma wellFormed_call (h : Synced a on) {call : PortCall} (hcall : WellFormed call) :
    ∀ c ∈ (a.call call).midiOutport, WellFormed c := by
  intro c hc
  cases List.mem_append.mp hc with
  | inl hold => exact h.wellFormed c hold
  | inr hnew =>
    rw [List.mem_singleton.mp hnew]
    exact hcall

lemma play (h : Synced a on) {i : ℕ} (hi : i < 16) (hoff : ¬ on i) {velocity : ℤ}
    (hv : 40 ≤ velocity ∧ velocity ≤ 127) :
    Synced (a.call (.send ⟨.noteOn, 0, scaleNote i, velocity⟩)) (Function.update on i True) := by
  refine ⟨h.channels, ?_, ?_, ?_⟩
  · intro j hj
    rw [sounding_call, PortCall.command, apply_on, Set.mem_insert_iff, scaleNote_inj hj hi,
      h.tracks j hj]
    by_cases hji : j = i
    · simp [hji]
    · simp [hji]
  · exact throughout_call.mpr ⟨h.starts, fun hs => hoff ((h.tracks i hi).mp hs)⟩
  · exact h.wellFormed_call ⟨scaleNote_mem hi, hv⟩

lemma stop (h : Synced a on) {i : ℕ} (hi : i < 16) :
    Synced (a.call (.send ⟨.noteOff, 0, scaleNote i, 127⟩)) (Function.update on i False) := by
  refine ⟨h.channels, ?_, ?_, ?_⟩
  · intro j hj
    rw [sounding_call, PortCall.command, apply_off, Set.mem_sdiff, Set.mem_singleton_iff,
      scaleNote_inj hj hi, h.tracks j hj]
    by_cases hji : j = i
    · simp [hji]
    · simp [hji]
  · exact throughout_call.mpr ⟨h.starts, trivial⟩
  · exact h.wellFormed_call ⟨scaleNote_mem hi, rfl⟩

lemma reset (h : Synced a on) : Synced (a.call .reset) (fun _ => False) := by
  refine ⟨h.channels, ?_, ?_, ?_⟩
  · intro j _
    rw [sounding_call, PortCall.command, apply_reset, Set.mem_empty_iff_false]
  · exact throughout_call.mpr ⟨h.starts, trivial⟩
  · exact h.wellFormed_call trivial

lemma withLast (h : Synced a on) (xs : List ℚ) : Synced { a with lastKinectArray := xs } on :=
  ⟨h.channels, h.tracks, h.starts, h.wellFormed⟩

lemma sounding_eq (h : Synced a on) : sounding a = {n | ∃ i < 16, on i ∧ n = scaleNote i} := by
  ext n
  constructor
  · intro hn
    obtain hs | ⟨v, hv⟩ := mem_active_started hn
    · exact hs.elim
    obtain ⟨c, hc, hcv⟩ := List.mem_map.mp hv
    have hmem : n ∈ cMixolydianScale := by
      have hw := h.wellFormed c hc
      match c, hcv, hw with
      | .send ⟨.noteOn, _, note, velocity⟩, hcv, hw =>
        cases hcv
        exact hw.1
    obtain ⟨i, hi, rfl⟩ := exists_scaleNote hmem
    exact ⟨i, hi, (h.tracks i hi).mp hn, rfl⟩
  · rintro ⟨i, hi, hon, rfl⟩
    exact (h.tracks i hi).mpr hon

end Synced

/-- Whether the code leaves a stream sounding which was at `last` and is now at `volume`. -/
def Heard (last volume : ℚ) : Prop := if 1/1000 < last then 1/1000 ≤ volume else 1/1000 < volume

lemma heard_iff {last volume : ℚ} : (Heard last volume ↔ 1/1000 < volume) ↔
    ¬ (1/1000 < last ∧ volume = 1/1000) := by
  unfold Heard
  split_ifs with hl
  · rw [le_iff_lt_or_eq]
    constructor
    · rintro h ⟨-, rfl⟩
      exact lt_irrefl _ (h.mp (Or.inr rfl))
    · exact fun h => ⟨fun ho => ho.resolve_right (fun he => h ⟨hl, he.symm⟩), Or.inl⟩
  · exact iff_of_true Iff.rfl (fun h => hl h.1)

lemma turnOffStream_idle {a : WaterHarpAudio} (hc : a.streamChannels = List.replicate 16 none)
    {idx : ℕ} (hi : idx < 16) (volume last : ℚ) : turnOffStream idx volume last a = .done a := by
  have hnone : a.streamChannels[idx]? = some none := by
    rw [hc, List.getElem?_replicate, if_pos hi]
  simp [turnOffStream, hnone]

lemma playStream_loud {a : WaterHarpAudio} {i : ℕ} {last volume : ℚ} (hi : i < 16)
    (hlast : a.lastKinectArray[i]? = some last) (hrise : last ≤ 1/1000) (hv : Loud volume) :
    playStream i volume a = .raised .valueError a := by
  have hgt : 1/1000 < volume := lt_of_lt_of_le (by norm_num) hv
  simp only [playStream, hlast]
  rw [if_pos ⟨hgt, hrise⟩, playNote_loud a hi hv, Outcome.bind_raised]

theorem playStream_spec {a : WaterHarpAudio} {on : ℕ → Prop} {i : ℕ} {last volume : ℚ}
    (h : Synced a on) (hi : i < 16) (hlast : a.lastKinectArray[i]? = some last)
    (hon : on i ↔ 1/1000 < last) (hquiet : ¬ (last ≤ 1/1000 ∧ Loud volume)) :
    ∃ b, playStream i volume a = .done b ∧ b.lastKinectArray = a.lastKinectArray ∧
      Synced b (Function.update on i (Heard last volume)) ∧
      (last ≠ 1/1000 → StopsOnly a → StopsOnly b) := by
  simp only [playStream, hlast]
  by_cases hrise : volume > 1/1000 ∧ 1/1000 ≥ last
  · have hv : ¬ Loud volume := fun hl => hquiet ⟨hrise.2, hl⟩
    have hs := h.play hi (by rw [hon]; exact not_lt.mpr hrise.2) (velocity_range hv)
    have hheard : Heard last volume := by
      rw [Heard, if_neg (not_lt.mpr hrise.2)]
      exact hrise.1
    refine ⟨a.call (.send ⟨.noteOn, 0, scaleNote i, max (trunc (127*volume)) 40⟩), ?_, rfl,
      by simpa only [hheard] using hs, ?_⟩
    · rw [if_pos hrise, playNote_eq a hi hv, Outcome.bind_done, turnOffStream_idle hs.channels hi]
    · intro _ hstops
      exact throughout_call.mpr ⟨hstops, trivial⟩
  rw [if_neg hrise]
  by_cases hfall : volume < 1/1000 ∧ 1/1000 ≤ last
  · have hs := h.stop hi
    have hheard : ¬ Heard last volume := by
      unfold Heard
      split_ifs <;> linarith [hfall.1]
    refine ⟨a.call (.send ⟨.noteOff, 0, scaleNote i, 127⟩), ?_, rfl,
      by simpa only [hheard] using hs, ?_⟩
    · rw [if_pos hfall, stopNote, sendNote_eq a hi (by norm_num), Outcome.bind_done,
        turnOffStream_idle hs.channels hi]
    · intro hne hstops
      have hsounds := (h.tracks i hi).mpr (hon.mpr (lt_of_le_of_ne hfall.2 hne.symm))
      exact throughout_call.mpr ⟨hstops, hsounds⟩
  · refine ⟨a, ?_, rfl, ?_, fun _ hstops => hstops⟩
    · rw [if_neg hfall, Outcome.bind_done, turnOffStream_idle h.channels hi]
    · have hheard : Heard last volume ↔ on i := by
        rw [hon, Heard]
        split_ifs with hl
        · exact iff_of_true (by by_contra hc; exact hfall ⟨not_le.mp hc, hl.le⟩) hl
        · exact iff_of_false (fun hc => hrise ⟨hc, not_lt.mp hl⟩) hl
      exact h.congr (fun j _ => by
        by_cases hj : j = i
        · subst hj
          rw [Function.update_self, hheard]
        · rw [Function.update_of_ne hj])

/-- The object between two calls: its record of the volumes tells which notes sound. -/
structure Ready (a : WaterHarpAudio) (last : List ℚ) : Prop where
  recorded : a.lastKinectArray = last
  length : last.length = 16
  synced : Synced a (fun i => 1/1000 < last.getD i 0)

def StartsLoud (last array : List ℚ) (i : ℕ) : Prop :=
  last.getD i 0 ≤ 1/1000 ∧ Loud (array.getD i 0)

instance (last array : List ℚ) (i : ℕ) : Decidable (StartsLoud last array i) :=
  inferInstanceAs (Decidable (_ ∧ _))

structure Played (last array : List ℚ) (a : WaterHarpAudio) (n : ℕ) (b : WaterHarpAudio) : Prop where
  recorded : b.lastKinectArray = last
  synced : Synced b fun i =>
    if i < n then Heard (last.getD i 0) (array.getD i 0) else 1/1000 < last.getD i 0
  stops : (∀ i < 16, last.getD i 0 ≠ 1/1000) → StopsOnly a → StopsOnly b

lemma Ready.played {a : WaterHarpAudio} {last array : List ℚ} (h : Ready a last) :
    Played last array a 0 a :=
  ⟨h.recorded, h.synced.congr (by simp), fun _ hstops => hstops⟩

lemma Played.stream {a b : WaterHarpAudio} {last array : List ℚ} {n : ℕ} (h : Played last array a n b)
    (hlen : last.length = 16) (hn : n < 16) (hquiet : ¬ StartsLoud last array n) :
    ∃ c, playStream n (array.getD n 0) b = .done c ∧ Played last array a (n+1) c := by
  have hlast : b.lastKinectArray[n]? = some (last.getD n 0) := by
    rw [h.recorded, List.getD_eq_getElem _ _ (by omega), List.getElem?_eq_getElem]
  obtain ⟨c, hc, hrec, hsync, hstops⟩ := playStream_spec h.synced hn hlast (by simp) hquiet
  refine ⟨c, hc, hrec.trans h.recorded, hsync.congr ?_, ?_⟩
  · intro i _
    by_cases hi : i = n
    · subst hi
      simp
    · rw [Function.update_of_ne hi]
      simp only [show i < n+1 ↔ i < n by omega]
  · intro hne ha
    exact hstops (hne n hn) (h.stops hne ha)

lemma playStreams_spec {a : WaterHarpAudio} {last array : List ℚ} (h : Ready a last) {n : ℕ}
    (hlen : n ≤ array.length) (hn : n ≤ 16) (hquiet : ∀ i < n, ¬ StartsLoud last array i) :
    ∃ b, forEach playStream 0 (array.take n) a = .done b ∧ Played last array a n b := by
  have htake : (array.take n).length = n := by rw [List.length_take]; omega
  have hloop := forEach_invariant playStream (array.take n) (Played last array a) ?_
  · rw [htake] at hloop
    exact hloop a h.played
  · intro k hk b hb
    rw [htake] at hk
    obtain ⟨c, hc, hplayed⟩ := hb.stream h.length (by omega) (hquiet k hk)
    refine ⟨c, ?_, hplayed⟩
    rw [List.getElem_take, ← List.getD_eq_getElem array 0]
    exact hc

def Volumes (array : List ℚ) : Prop := array.length = 16 ∧ ∀ volume ∈ array, 0 ≤ volume

lemma Volumes.getD_le_sum {array : List ℚ} (h : Volumes array) (i : ℕ) : array.getD i 0 ≤ array.sum := by
  have hsum := List.single_le_sum h.2
  by_cases hi : i < array.length
  · rw [List.getD_eq_getElem _ _ hi]
    exact hsum _ (List.getElem_mem hi)
  · rw [List.getD_eq_default _ _ (by omega)]
    exact List.sum_nonneg h.2

theorem playNotes_spec {a : WaterHarpAudio} {last array : List ℚ} (h : Ready a last)
    (harray : Volumes array) (hquiet : ∀ i < 16, ¬ StartsLoud last array i) :
    ∃ b, playNotes array a = .done b ∧ b.lastKinectArray = array ∧
      Synced b (fun i => Heard (last.getD i 0) (array.getD i 0)) ∧
      ((∀ i < 16, last.getD i 0 ≠ 1/1000) → StopsOnly a → StopsOnly b) := by
  by_cases hsum : array.sum < 5/10000
  · refine ⟨{ a.call .reset with lastKinectArray := array }, ?_, rfl, ?_, ?_⟩
    · simp [playNotes, hsum, allNotesOff]
    · refine (h.synced.reset.withLast array).congr (fun i _ => ?_)
      have hle := harray.getD_le_sum i
      rw [Heard]
      split_ifs
      · exact iff_of_false id (by linarith)
      · exact iff_of_false id (by linarith)
    · intro _ hstops
      exact throughout_call.mpr ⟨hstops, trivial⟩
  · obtain ⟨b, hb, hplayed⟩ := playStreams_spec h harray.1.ge le_rfl hquiet
    rw [List.take_of_length_le harray.1.le] at hb
    refine ⟨{ b with lastKinectArray := array }, ?_, rfl, ?_, hplayed.stops⟩
    · simp [playNotes, hsum, hb]
    · exact (hplayed.synced.withLast array).congr (fun i hi => by simp [hi])

theorem playNotes_loud {a : WaterHarpAudio} {last array : List ℚ} (h : Ready a last)
    (harray : Volumes array) {i : ℕ} (hi : i < 16) (hloud : StartsLoud last array i) :
    ∃ b, playNotes array a = .raised .valueError b ∧
      ∃ j < 16, StartsLoud last array j ∧ scaleNote j ∉ sounding b := by
  classical
  -- the first such stream: the loop raises there and treats no later one
  have hex : ∃ j, StartsLoud last array j := ⟨i, hloud⟩
  obtain ⟨hj, hmin⟩ : StartsLoud last array (Nat.find hex) ∧
      ∀ k < Nat.find hex, ¬ StartsLoud last array k := ⟨Nat.find_spec hex, fun _ => Nat.find_min hex⟩
  have hj16 : Nat.find hex < 16 := (Nat.find_min' hex hloud).trans_lt hi
  generalize Nat.find hex = j at hj hmin hj16
  have hsum : ¬ array.sum < 5/10000 := by
    have hle := harray.getD_le_sum j
    have hv := hj.2
    unfold Loud at hv
    linarith
  have hjlen : j < array.length := by rw [harray.1]; exact hj16
  obtain ⟨b, hb, hplayed⟩ := playStreams_spec h hjlen.le hj16.le hmin
  have hlast : b.lastKinectArray[j]? = some (last.getD j 0) := by
    have := h.length
    rw [hplayed.recorded, List.getD_eq_getElem _ _ (by omega), List.getElem?_eq_getElem]
  have hraise := playStream_loud hj16 hlast hj.1 hj.2
  rw [List.getD_eq_getElem _ _ hjlen] at hraise
  have hsplit : array = array.take j ++ array[j] :: array.drop (j+1) := by
    rw [← List.drop_eq_getElem_cons hjlen, List.take_append_drop]
  refine ⟨b, ?_, j, hj16, hj, ?_⟩
  · have hloop : forEach playStream 0 array a = .raised .valueError b := by
      rw [hsplit, forEach_append, hb, Outcome.bind_done, List.length_take_of_le hjlen.le, Nat.zero_add,
        forEach_cons, hraise, Outcome.bind_raised]
    simp [playNotes, hsum, hloop]
  · rw [hplayed.synced.tracks j hj16, if_neg (lt_irrefl j)]
    exact not_lt.mpr hj.1

lemma init_ready : Ready init (List.replicate 16 0) := by
  refine ⟨rfl, by simp, rfl, ?_, trivial, by simp [init]⟩
  intro i hi
  have hzero : (List.replicate 16 (0 : ℚ)).getD i 0 = 0 := by
    rw [List.getD_eq_getElem _ _ (by simpa using hi), List.getElem_replicate]
  rw [hzero]
  exact iff_of_false id (by norm_num)

end WaterHarp.AudioNotes
