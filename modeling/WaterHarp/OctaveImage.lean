import WaterHarp.Program
import WaterHarp.Numerals
import WaterHarp.TextItems

/-! `convert.m` prints a matrix of 16 rows as the C array which the sketch
includes, one hexadecimal literal for each column; a C reader gets it back. -/
namespace WaterHarp.OctaveImage
open Program Numerals TextItems

inductive OctaveError
  | assertion
  | badIndex
  | badFormat
  deriving DecidableEq, Repr

/-- A matrix with indices from 1, zero outside of its dimensions. -/
structure Mat where
  rows : ℕ
  cols : ℕ
  entry : ℕ → ℕ → ℤ
  outside : ∀ j i, ¬ (1 ≤ j ∧ j ≤ rows ∧ 1 ≤ i ∧ i ≤ cols) → entry j i = 0

namespace Mat

def zeros (rows cols : ℕ) : Mat := ⟨rows, cols, fun _ _ => 0, fun _ _ _ => rfl⟩

/-- `1-im`. -/
def oneMinus (im : Mat) : Mat where
  rows := im.rows
  cols := im.cols
  entry j i := if 1 ≤ j ∧ j ≤ im.rows ∧ 1 ≤ i ∧ i ≤ im.cols then 1-im.entry j i else 0
  outside _ _ h := if_neg h

/-- `im(row,first:last)=1`, which lets the matrix grow. -/
def setOnes (im : Mat) (row first last : ℕ) : Mat where
  rows := max im.rows row
  cols := max im.cols last
  entry j i := if j = row ∧ 1 ≤ j ∧ first ≤ i ∧ i ≤ last ∧ 1 ≤ i then 1 else im.entry j i
  outside j i h := by
    rw [if_neg (by omega)]
    exact im.outside j i (by omega)

def column (im : Mat) (i : ℕ) : List ℤ := (List.range' 1 16).map fun j => im.entry j i

end Mat

/-- Reading takes capital letters too, as C does. -/
def hex : Alphabet 16 where
  one_lt := by decide
  char := Nat.digitChar
  value c :=
    if '0' ≤ c ∧ c ≤ '9' then some (c.toNat-48)
    else if 'a' ≤ c ∧ c ≤ 'f' then some (c.toNat-87)
    else if 'A' ≤ c ∧ c ≤ 'F' then some (c.toNat-55)
    else none
  value_char := by decide

/-- `strrep(file,'.h','')`. -/
def stripHeader : List Char → List Char
  | '.' :: 'h' :: text => stripHeader text
  | c :: text => c :: stripHeader text
  | [] => []

def literal (v : ℕ) : List Char := "0x".toList ++ render hex 4 v

def opening (name : List Char) : List Char := "unsigned short ".toList ++ name ++ "[]=\x7b".toList

/-- The value which the inner loop of `convert` accumulates. -/
def columnValue (im : Mat) (i : ℕ) : ℤ := horner 2 (im.column i)

def printColumn (im : Mat) (i : ℕ) (file : List Char) : Outcome OctaveError (List Char) :=
  if columnValue im i < 0 then .raised .badFormat file
  else .done (file ++ literal (columnValue im i).toNat ++ if i < im.cols then ",\n".toList else [])

def convert (im : Mat) (ofile : List Char) : Outcome OctaveError (List Char) :=
  if im.rows = 16 then
    (runAll (printColumn im) (List.range' 1 im.cols) (opening (stripHeader ofile) ++ ['\n'])).bind
      fun file => .done (file ++ "\x7d;\n".toList)
  else .raised .assertion []

/-! The C compiler. -/

def expect (start text : List Char) : Option (List Char) :=
  if start.isPrefixOf text then some (text.drop start.length) else none

def trim (text : List Char) : List Char := (text.dropWhile Char.isWhitespace).rdropWhile Char.isWhitespace

def readLiteral (item : List Char) : Option (BitVec 16) :=
  match expect "0x".toList (trim item) with
  | some (c :: digits) =>
    match scan hex 0 (c :: digits) with
    | (v, []) => some (BitVec.ofNat 16 v)
    | _ => none
  | _ => none

def readArray (name text : List Char) : Option (List (BitVec 16)) := do
  let inits ← expect (opening name) text
  let _ ← expect "\x7d;".toList (inits.dropWhile (· ≠ '\x7d'))
  let inits := inits.takeWhile (· ≠ '\x7d')
  if inits.all Char.isWhitespace then some [] else (inits.splitOn ',').mapM readLiteral

lemma expect_append (start text : List Char) : expect start (start ++ text) = some text := by
  simp [expect]

lemma mem_literal {v : ℕ} {c : Char} (hc : c ∈ literal v) (hv : hex.value c = none) : c = 'x' := by
  rw [literal, List.mem_append] at hc
  rcases hc with hc | hc
  · have hcases : c = '0' ∨ c = 'x' := by simpa using hc
    rcases hcases with rfl | rfl
    · exact absurd hv (by decide)
    · rfl
  · exact absurd hv (value_of_mem_render hc)

lemma not_mem_literal {v : ℕ} {c : Char} (hv : hex.value c = none) (hx : c ≠ 'x') : c ∉ literal v :=
  fun hc => hx (mem_literal hc hv)

lemma not_whitespace_literal {v : ℕ} {c : Char} (hc : c ∈ literal v) : ¬ c.isWhitespace := by
  intro hspace
  have hcases : ((c = ' ' ∨ c = '\t') ∨ c = '\r') ∨ c = '\n' := by
    simpa [Char.isWhitespace] using hspace
  rcases hcases with ((rfl | rfl) | rfl) | rfl <;>
    exact absurd (mem_literal hc (by decide)) (by decide)

lemma trim_literal (v : ℕ) : trim ('\n' :: literal v) = literal v := by
  have hfirst : (literal v).dropWhile Char.isWhitespace = literal v := by
    simp [literal, Char.isWhitespace]
  have hlast : (literal v).rdropWhile Char.isWhitespace = literal v := by
    rw [List.rdropWhile_eq_self_iff]
    exact fun hne => not_whitespace_literal (List.getLast_mem hne)
  rw [trim, List.dropWhile_cons_of_pos (by decide), hfirst, hlast]

lemma readLiteral_literal (v : ℕ) : readLiteral ('\n' :: literal v) = some (BitVec.ofNat 16 v) := by
  have hscan : scan hex 0 (render hex 4 v) = (v, []) := by
    simpa using scan_render (A := hex) 4 v (by simp [Ends] : Ends hex [])
  obtain ⟨c, digits, hdigits⟩ : ∃ c digits, render hex 4 v = c :: digits := by
    refine List.exists_cons_of_length_pos ?_
    exact lt_of_lt_of_le (by norm_num) (length_render 4 v)
  rw [readLiteral, trim_literal, literal, expect_append, hdigits]
  simp only [← hdigits, hscan]

/-- The lines between the braces, all but the last ending in a comma. -/
def body (items : List (List Char)) (last : List Char) : List Char :=
  '\n' :: (items.flatMap fun item => item ++ ",\n".toList) ++ last

lemma body_eq_terminated (items : List (List Char)) (last : List Char) :
    body items last = terminated ',' (items.map ('\n' :: ·)) ++ '\n' :: last := by
  induction items with
  | nil => rfl
  | cons item items ih =>
    have hsplit : body (item :: items) last = '\n' :: item ++ [','] ++ body items last := by simp [body]
    rw [hsplit, ih]
    simp [terminated]

lemma splitOn_body {items : List (List Char)} {last : List Char}
    (h : ∀ item ∈ items ++ [last], ',' ∉ item) :
    (body items last).splitOn ',' = (items ++ [last]).map ('\n' :: ·) := by
  have hlines : ∀ line ∈ items.map ('\n' :: ·) ++ ['\n' :: last], ',' ∉ line := by
    intro line hline
    rw [← List.map_singleton, ← List.map_append] at hline
    obtain ⟨item, hitem, rfl⟩ := List.mem_map.mp hline
    simpa using h item hitem
  rw [body_eq_terminated, splitOn_terminated hlines, List.map_append, List.map_singleton]

lemma not_brace_body {items : List (List Char)} {last : List Char}
    (h : ∀ item ∈ items ++ [last], '\x7d' ∉ item) : '\x7d' ∉ body items last := by
  have hitems : ∀ item ∈ items, '\x7d' ∉ item := fun item hitem => h item (by simp [hitem])
  have hlast : '\x7d' ∉ last := h last (by simp)
  simpa [body, hlast] using hitems

lemma printColumns {im : Mat} (hpos : ∀ i, 0 ≤ columnValue im i) {m : ℕ} (hm : m < im.cols)
    (file : List Char) :
    runAll (printColumn im) (List.range' 1 m) file = .done (file ++
      ((List.range' 1 m).map fun i => literal (columnValue im i).toNat).flatMap
        fun item => item ++ ",\n".toList) := by
  induction m with
  | zero => simp
  | succ m ih =>
    rw [List.range'_1_concat, runAll_append_singleton, ih (by omega), Outcome.bind_done, printColumn,
      if_neg (not_lt.mpr (hpos _)), if_pos (by omega)]
    simp

def columnLines (im : Mat) : List Char :=
  match im.cols with
  | 0 => ['\n']
  | m+1 => body ((List.range' 1 m).map fun i => literal (columnValue im i).toNat)
      (literal (columnValue im (1+m)).toNat)

lemma convert_text {im : Mat} (hrows : im.rows = 16) (hpos : ∀ i, 0 ≤ columnValue im i)
    (ofile : List Char) :
    convert im ofile =
      .done (opening (stripHeader ofile) ++ (columnLines im ++ "\x7d;\n".toList)) := by
  rw [convert, if_pos hrows, columnLines]
  cases hcols : im.cols with
  | zero => simp
  | succ m =>
    rw [List.range'_1_concat, runAll_append_singleton, printColumns hpos (by omega),
      Outcome.bind_done, printColumn, if_neg (not_lt.mpr (hpos _)), if_neg (by omega)]
    simp [body]

/-- The words which the C compiler reads for the columns of an image. -/
def words (im : Mat) : List (BitVec 16) :=
  (List.range' 1 im.cols).map fun i => BitVec.ofNat 16 (columnValue im i).toNat

lemma readLines (im : Mat) :
    '\x7d' ∉ columnLines im ∧
    (if (columnLines im).all Char.isWhitespace then some []
      else ((columnLines im).splitOn ',').mapM readLiteral) = some (words im) := by
  rw [columnLines, words]
  cases im.cols with
  | zero => exact ⟨by simp, by simp⟩
  | succ m =>
    set items := (List.range' 1 m).map fun i => literal (columnValue im i).toNat
    set last := literal (columnValue im (1+m)).toNat with hlast
    have hall : items ++ [last] =
        (List.range' 1 (m+1)).map fun i => literal (columnValue im i).toNat := by
      rw [List.range'_1_concat, List.map_append, List.map_singleton]
    have hmark {c : Char} (hv : hex.value c = none) (hx : c ≠ 'x') :
        ∀ item ∈ items ++ [last], c ∉ item := by
      intro item hitem
      rw [hall] at hitem
      obtain ⟨i, -, rfl⟩ := List.mem_map.mp hitem
      exact not_mem_literal hv hx
    have hx : 'x' ∈ body items last := by simp [body, hlast, literal]
    have hblank : ¬ (body items last).all Char.isWhitespace := by
      rw [List.all_eq_true]
      exact fun h => absurd (h 'x' hx) (by decide)
    refine ⟨not_brace_body (hmark (by decide) (by decide)), ?_⟩
    have hread : ∀ i ∈ List.range' 1 (m+1), readLiteral ('\n' :: literal (columnValue im i).toNat) =
        some (BitVec.ofNat 16 (columnValue im i).toNat) := fun i _ => readLiteral_literal _
    rw [if_neg hblank, splitOn_body (hmark (by decide) (by decide)), hall]
    simp only [List.mapM_map, Function.comp_def]
    exact mapM_some hread

/-- The compiler gets one word for each column. -/
theorem readArray_convert {im : Mat} (hrows : im.rows = 16) (hpos : ∀ i, 0 ≤ columnValue im i)
    (ofile : List Char) :
    ∃ text, convert im ofile = .done text ∧ readArray (stripHeader ofile) text = some (words im) := by
  refine ⟨_, convert_text hrows hpos ofile, ?_⟩
  obtain ⟨hbrace, hread⟩ := readLines im
  obtain ⟨htake, hdrop⟩ := cut_at_mark hbrace ";\n".toList
  have hclose : "\x7d;\n".toList = '\x7d' :: ";\n".toList := by decide
  have hend : expect "\x7d;".toList ('\x7d' :: ";\n".toList) = some ['\n'] := by decide
  simp only [readArray, expect_append, hclose, htake, hdrop, hend, hread, Option.bind_eq_bind,
    Option.bind_some]

example : readArray "dot".toList "unsigned short dot[]=\x7b\n0x8000,\n0x4003\x7d;\n".toList =
    some [0x8000, 0x4003] := by decide

end WaterHarp.OctaveImage
