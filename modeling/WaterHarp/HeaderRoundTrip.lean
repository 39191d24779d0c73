import WaterHarp.OctaveImage
import WaterHarp.Showline

/-! An image of zeros and ones comes back on the solenoids: `convert` prints it,
the C compiler reads it, and `showline` and `showmessage` show its columns. -/
namespace WaterHarp.HeaderRoundTrip
open Program EventLog Numerals OctaveImage SketchWorld Showline

structure BitImage (im : Mat) : Prop where
  rows : im.rows = 16
  bits : ∀ j i, im.entry j i = 0 ∨ im.entry j i = 1

def pixel (im : Mat) (j i : ℕ) : Bool := im.entry j i = 1

variable {im : Mat}

lemma entry_eq (h : BitImage im) (j i : ℕ) : im.entry j i = ((pixel im j i).toNat : ℤ) := by
  rcases h.bits j i with he | he <;> simp [pixel, he]

lemma columnValue_eq (h : BitImage im) (i : ℕ) :
    columnValue im i = (bitsValue ((List.range' 1 16).map fun j => pixel im j i) : ℕ) := by
  have hcolumn : im.column i =
      (((List.range' 1 16).map fun j => pixel im j i).map Bool.toNat).map (fun d : ℕ => (d : ℤ)) := by
    rw [Mat.column, List.map_map, List.map_map]
    exact List.map_congr_left fun j _ => entry_eq h j i
  rw [columnValue, hcolumn, bitsValue, ← horner_natCast]
  rfl

lemma columnValue_nonneg (h : BitImage im) (i : ℕ) : 0 ≤ columnValue im i := by
  rw [columnValue_eq h]
  exact Int.natCast_nonneg _

/-- The table index `r` stands for row `r+1`. -/
lemma lineBit_column (h : BitImage im) (i : ℕ) (r : Fin 16) :
    lineBit (BitVec.ofNat 16 (columnValue im i).toNat) r = pixel im (r+1) i := by
  have hr := r.isLt
  rw [columnValue_eq h, Int.toNat_natCast, lineBit, BitVec.getLsbD_ofNat, testBit_bitsValue,
    decide_eq_true (by omega), Bool.true_and, List.getD_eq_getElem?_getD, ← List.map_reverse,
    List.getElem?_map, List.getElem?_reverse (by simp; omega)]
  simp [show 15-(15-r.val) = r by omega, show r.val < 16 from hr, add_comm]

lemma words_get (im : Mat) {k : ℕ} (hk : k < (words im).length) :
    (words im)[k] = BitVec.ofNat 16 (columnValue im (k+1)).toNat := by
  simp [words, add_comm]

structure Shows (im : Mat) (ws : List (BitVec 16)) : Prop where
  length : ws.length = im.cols
  line (b : Board) (w : World) (k : ℕ) (hk : k < ws.length) :
    Performs sketchLog (showline b ws[k]) w fun es w' =>
      (∀ n, (writesTo b n es).length = 1) ∧
      ∀ r, writesTo b (ord r) es = [pixel im (r+1) (k+1)] ∧
        w'.level (b.solenoidEnables (ord r)) = pixel im (r+1) (k+1)
  distinct (k k' : ℕ) (hk : k < ws.length) (hk' : k' < ws.length) :
    im.column (k+1) ≠ im.column (k'+1) → ws[k] ≠ ws[k']
  message (b : Board) (period : ℕ) (w : World) :
    Performs sketchLog (showmessage b ws.length ws period) w fun es _ =>
      (∀ bytes ∈ checks es, bytes = 0) → lines es = ws ++ [0xffff] ∧
      ∀ r : Fin 16, writesTo b (ord r) es = (List.range' 1 im.cols).map (pixel im (r+1)) ++ [true]

lemma words_line (h : BitImage im) (b : Board) (w : World) {k : ℕ} (hk : k < (words im).length) :
    Performs sketchLog (showline b (words im)[k]) w fun es w' =>
      (∀ n, (writesTo b n es).length = 1) ∧
      ∀ r, writesTo b (ord r) es = [pixel im (r+1) (k+1)] ∧
        w'.level (b.solenoidEnables (ord r)) = pixel im (r+1) (k+1) := by
  obtain ⟨es, w', hw', hacts, hline, -⟩ := showline_performs b (words im)[k] w
  have hwrites (r : Fin 16) : writesTo b (ord r) es = [pixel im (r+1) (k+1)] := by
    rw [hline.writes, words_get, lineBit_column h]
  refine ⟨es, w', hw', hacts, fun n => ?_, fun r => ⟨hwrites r, ?_⟩⟩
  · obtain ⟨r, rfl⟩ := ord_surjective n
    rw [hwrites]
    rfl
  · have hlevel := Acts.level hacts (b.solenoidEnables (ord r))
    rw [← writesTo, hwrites] at hlevel
    exact hlevel

lemma words_distinct (h : BitImage im) {k k' : ℕ} (hk : k < (words im).length)
    (hk' : k' < (words im).length) (hcolumn : im.column (k+1) ≠ im.column (k'+1)) :
    (words im)[k] ≠ (words im)[k'] := by
  intro hword
  rw [words_get, words_get] at hword
  refine hcolumn (List.map_congr_left fun j hj => ?_)
  obtain ⟨hj1, hj2⟩ := List.mem_range'_1.mp hj
  have hbit := congrArg (fun word => lineBit word ⟨j-1, by omega⟩) hword
  simp only [lineBit_column h, Nat.sub_add_cancel hj1] at hbit
  rw [entry_eq h, entry_eq h, hbit]

lemma words_message (h : BitImage im) (b : Board) (period : ℕ) (w : World) :
    Performs sketchLog (showmessage b (words im).length (words im) period) w fun es _ =>
      (∀ bytes ∈ checks es, bytes = 0) → lines es = words im ++ [0xffff] ∧
      ∀ r : Fin 16, writesTo b (ord r) es = (List.range' 1 im.cols).map (pixel im (r+1)) ++ [true] := by
  refine (showmessage_performs b (words im) period w).conseq ?_
  rintro es - ⟨hshown, -⟩ hquiet
  have hlines : lines es = words im ++ [0xffff] := by
    rcases hshown.outcome with ⟨-, hl⟩ | ⟨k, -, bytes, hbytes, hc, -⟩
    · exact hl
    · have := hquiet bytes (by simp [hc])
      omega
  refine ⟨hlines, fun r => ?_⟩
  have hrow : (words im).map (fun line => lineBit line r) =
      (List.range' 1 im.cols).map (pixel im (r+1)) := by
    rw [words, List.map_map]
    exact List.map_congr_left fun i _ => lineBit_column h i r
  have hidle : ∀ r, lineBit 0xffff r = true := by decide
  rw [hshown.writes, hlines, List.map_append, hrow, List.map_singleton, hidle]

lemma words_show (h : BitImage im) : Shows im (words im) where
  length := by simp [words]
  line b w _ hk := words_line h b w hk
  distinct _ _ hk hk' := words_distinct h hk hk'
  message := words_message h

/-- The printed header, read by the compiler, shows the image. -/
theorem header_shows (im : Mat) (h : BitImage im) (ofile : List Char) :
    ∃ text ws, convert im ofile = .done text ∧ readArray (stripHeader ofile) text = some ws ∧
      Shows im ws := by
  obtain ⟨text, htext, hread⟩ := readArray_convert h.rows (columnValue_nonneg h) ofile
  exact ⟨text, words im, htext, hread, words_show h⟩

theorem header_shows_dot :
    ∃ text ws, convert ((Mat.zeros 16 2).setOnes 3 2 2) "dot.h".toList = .done text ∧
      readArray (stripHeader "dot.h".toList) text = some ws ∧
      Shows ((Mat.zeros 16 2).setOnes 3 2 2) ws :=
  header_shows _ ⟨rfl, fun j i => by
    simp only [Mat.setOnes, Mat.zeros]
    split_ifs <;> simp⟩ _

end WaterHarp.HeaderRoundTrip
