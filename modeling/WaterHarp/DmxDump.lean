import WaterHarp.RunLength
import WaterHarp.SerialPrint
import WaterHarp.TextItems

/-! `dump` prints the DMX buffer as runs of equal bytes. The loop starts from a run of
no zeros; its text is read back as a run-length coding of the buffer. -/
namespace WaterHarp.DmxDump
open RunLength SerialPrint TextItems

/-- The variables of the loop, and the text printed so far. -/
structure Dump where
  prior : ℕ
  rpt : ℕ
  dbg : List Char
  deriving DecidableEq, Repr

/-- The block which prints a run, in the loop and after it. -/
def printRun (s : Dump) : List Char :=
  if 0 < s.rpt then
    let dbg := s.dbg ++ printNumber hex s.prior
    let dbg := if 1 < s.rpt then dbg ++ ['*'] ++ printNumber dec s.rpt else dbg
    dbg ++ [' ']
  else s.dbg

def dumpByte (s : Dump) (byte : UInt8) : Dump :=
  if s.prior ≠ byte.toNat then ⟨byte.toNat, 1, printRun s⟩ else { s with rpt := s.rpt+1 }

/-- The loop reads the channels of the buffer one after the other. -/
def dumpLoop (buffer : List UInt8) : Dump := buffer.foldl dumpByte ⟨0, 0, ['[']⟩

def dump (buffer : List UInt8) : List Char := printRun (dumpLoop buffer) ++ "]\r\n".toList

/-! A reader of the printed text. -/

/-- `HEX` or `HEX*COUNT`. -/
structure Token where
  value : ℕ
  count : Option ℕ
  deriving DecidableEq, Repr

def Token.expand (t : Token) : List ℕ := List.replicate (t.count.getD 1) t.value

def readToken (item : List Char) : Option Token :=
  match item.splitOn '*' with
  | [value] => (readNumber hex value).map fun v => ⟨v, none⟩
  | [value, count] =>
    match readNumber hex value, readNumber dec count with
    | some v, some n => some ⟨v, some n⟩
    | _, _ => none
  | _ => none

/-- A bracket, tokens which end in a space, and a bracket at the end of the line. -/
def readDump : List Char → Option (List Token)
  | '[' :: text =>
    let items := (text.takeWhile (· ≠ ']')).splitOn ' '
    if text.dropWhile (· ≠ ']') = "]\r\n".toList ∧ items.getLast? = some [] then
      items.dropLast.mapM readToken
    else none
  | _ => none

/-! The loop is a run-length coder which prints its runs. -/

def item (r : ℕ × ℕ) : List Char :=
  printNumber hex r.1 ++ if 1 < r.2 then '*' :: printNumber dec r.2 else []

def tokenOf (r : ℕ × ℕ) : Token := ⟨r.1, if 1 < r.2 then some r.2 else none⟩

structure Prints (c : Coder ℕ) (s : Dump) : Prop where
  prior : s.prior = c.value
  rpt : s.rpt = c.count
  text : s.dbg = '[' :: terminated ' ' (c.emitted.map item)

lemma Prints.flush {c : Coder ℕ} {s : Dump} (h : Prints c s) :
    printRun s = '[' :: terminated ' ' (c.flush.map item) := by
  rw [printRun, h.prior, h.rpt, h.text, Coder.flush]
  split_ifs with hpos hmany
  · simp [terminated, item, hmany]
  · simp [terminated, item, hmany]
  · rfl

lemma Prints.byte {c : Coder ℕ} {s : Dump} (h : Prints c s) (byte : UInt8) :
    Prints (c.step byte.toNat) (dumpByte s byte) := by
  unfold dumpByte Coder.step
  by_cases hnew : c.value ≠ byte.toNat
  · rw [if_pos hnew, if_pos (h.prior ▸ hnew)]
    exact ⟨rfl, rfl, h.flush⟩
  · rw [if_neg hnew, if_neg (h.prior ▸ hnew)]
    exact ⟨h.prior, congrArg (· + 1) h.rpt, h.text⟩

lemma dumpLoop_prints (buffer : List UInt8) :
    Prints (coder 0 (buffer.map UInt8.toNat)) (dumpLoop buffer) := by
  induction buffer using List.reverseRecOn with
  | nil => exact ⟨rfl, rfl, rfl⟩
  | append_singleton buffer byte ih =>
    rw [List.map_append, List.map_singleton, coder_append_singleton, dumpLoop, List.foldl_append]
    exact ih.byte byte

/-- The counter is an int: it never exceeds the number of bytes read. -/
lemma rpt_le_length (buffer : List UInt8) : (dumpLoop buffer).rpt ≤ buffer.length := by
  rw [(dumpLoop_prints buffer).rpt]
  simpa using count_le_length 0 (buffer.map UInt8.toNat)

lemma not_mem_item {c : Char} (hhex : hex.value c = none) (hdec : dec.value c = none) (hstar : c ≠ '*')
    (r : ℕ × ℕ) : c ∉ item r := by
  rw [item, List.mem_append]
  intro hc
  cases hc with
  | inl hc => exact not_mem_printNumber hhex _ hc
  | inr hc =>
    split_ifs at hc
    · rw [List.mem_cons] at hc
      cases hc with
      | inl hc => exact hstar hc
      | inr hc => exact not_mem_printNumber hdec _ hc
    · cases hc

lemma readToken_item (r : ℕ × ℕ) : readToken (item r) = some (tokenOf r) := by
  have hvalue : '*' ∉ printNumber hex r.1 := not_mem_printNumber (by decide) _
  have hcount : '*' ∉ printNumber dec r.2 := not_mem_printNumber (by decide) _
  by_cases hmany : 1 < r.2
  · have hitem : item r = terminated '*' [printNumber hex r.1] ++ printNumber dec r.2 := by
      simp [item, terminated, hmany]
    have hsplit : (item r).splitOn '*' = [printNumber hex r.1, printNumber dec r.2] := by
      rw [hitem, splitOn_terminated (by simp [hvalue, hcount])]
      rfl
    simp only [readToken, hsplit, readNumber_printNumber, tokenOf, if_pos hmany]
  · have hitem : item r = terminated '*' [] ++ printNumber hex r.1 := by
      simp [item, terminated, hmany]
    have hsplit : (item r).splitOn '*' = [printNumber hex r.1] := by
      rw [hitem, splitOn_terminated (by simp [hvalue])]
      rfl
    simp only [readToken, hsplit, readNumber_printNumber, tokenOf, if_neg hmany, Option.map_some]

lemma readDump_items (runs : List (ℕ × ℕ)) :
    readDump ('[' :: terminated ' ' (runs.map item) ++ "]\r\n".toList) = some (runs.map tokenOf) := by
  have hclean : ∀ text ∈ runs.map item, ']' ∉ text ∧ ' ' ∉ text := by
    intro text htext
    obtain ⟨r, -, rfl⟩ := List.mem_map.mp htext
    exact ⟨not_mem_item (by decide) (by decide) (by decide) r,
      not_mem_item (by decide) (by decide) (by decide) r⟩
  have hbracket : ']' ∉ terminated ' ' (runs.map item) := by
    intro hmem
    cases mem_terminated hmem with
    | inl hspace => cases hspace
    | inr hitem =>
      obtain ⟨text, htext, hin⟩ := hitem
      exact (hclean text htext).1 hin
  have hclose : "]\r\n".toList = ']' :: "\r\n".toList := by decide
  obtain ⟨htake, hdrop⟩ := cut_at_mark hbracket "\r\n".toList
  have hspaces : ∀ text ∈ runs.map item ++ [[]], ' ' ∉ text := by
    intro text htext
    rw [List.mem_append, List.mem_singleton] at htext
    cases htext with
    | inl hitem => exact (hclean text hitem).2
    | inr hlast => simp [hlast]
  have hsplit : (terminated ' ' (runs.map item)).splitOn ' ' = runs.map item ++ [[]] := by
    simpa using splitOn_terminated hspaces
  simp only [List.cons_append, readDump, hclose, htake, hdrop, hsplit, List.getLast?_concat,
    List.dropLast_concat, and_self, if_true, List.mapM_map]
  exact mapM_some fun r _ => readToken_item r

/-- The tokens are a lossless run-length coding of the buffer. -/
structure Lossless (buffer : List UInt8) (tokens : List Token) : Prop where
  values : tokens.flatMap Token.expand = buffer.map UInt8.toNat
  neighbours : tokens.IsChain fun s t => s.value ≠ t.value
  counts : ∀ t ∈ tokens, ∀ n, t.count = some n → 2 ≤ n

lemma expand_tokenOf {r : ℕ × ℕ} (hr : 0 < r.2) : (tokenOf r).expand = List.replicate r.2 r.1 := by
  unfold tokenOf Token.expand
  split_ifs with hmany
  · rfl
  · have hone : r.2 = 1 := by omega
    rw [hone]
    rfl

lemma lossless_of_codes {buffer : List UInt8} {c : Coder ℕ} (h : Codes c (buffer.map UInt8.toNat)) :
    Lossless buffer (c.flush.map tokenOf) where
  values := by
    rw [List.flatMap_map, ← h.expands, expand]
    exact List.flatMap_congr fun r hr => expand_tokenOf (h.positive r hr)
  neighbours := by
    rw [List.isChain_map]
    exact h.chain
  counts := by
    intro t ht n hn
    obtain ⟨r, -, rfl⟩ := List.mem_map.mp ht
    unfold tokenOf at hn
    split_ifs at hn with hmany
    · rw [Option.some_inj] at hn
      omega

/-- Every dump is read back, and two different buffers never print the same dump. -/
theorem dump_lossless (buffer : List UInt8) :
    (∃ tokens, readDump (dump buffer) = some tokens ∧ Lossless buffer tokens) ∧
    ∀ buffer', dump buffer' = dump buffer → buffer' = buffer := by
  have hread : ∀ bytes : List UInt8, ∃ tokens, readDump (dump bytes) = some tokens ∧ Lossless bytes tokens := by
    intro bytes
    refine ⟨_, ?_, lossless_of_codes (coder_codes 0 _)⟩
    rw [dump, (dumpLoop_prints bytes).flush]
    exact readDump_items _
  refine ⟨hread buffer, fun buffer' hsame => ?_⟩
  obtain ⟨tokens, htokens, hlossless⟩ := hread buffer
  obtain ⟨tokens', htokens', hlossless'⟩ := hread buffer'
  rw [hsame, htokens, Option.some_inj] at htokens'
  rw [← htokens'] at hlossless'
  have hmap : buffer'.map UInt8.toNat = buffer.map UInt8.toNat := by
    rw [← hlossless'.values, hlossless.values]
  exact List.map_injective_iff.mpr (fun _ _ => UInt8.toNat_inj.mp) hmap

example : dump [0, 0, 255, 7, 7, 7] = "[0*2 FF 7*3 ]\r\n".toList := by decide

end WaterHarp.DmxDump
