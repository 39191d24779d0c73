import WaterHarp.Numerals
import WaterHarp.DepthDelivery

/-! The packed formats regroup bits: an element is one number, written in bytes
and read as shifts, both with the high digits first. -/
namespace WaterHarp.DepthPacking
open Numerals TokenReader DepthDecoder DepthFrames DepthFormats DepthParts DepthDelivery

section Digits

lemma horner_inj {base : ℕ} (hbase : 1 < base) {ds es : List ℕ} (hlen : ds.length = es.length)
    (hds : ∀ d ∈ ds, d < base) (hes : ∀ e ∈ es, e < base) (h : horner base ds = horner base es) : ds = es := by
  rw [horner_eq_ofDigits, horner_eq_ofDigits] at h
  have hrev := Nat.ofDigits_inj_of_len_eq hbase (by simpa using hlen) (by simpa using hds) (by simpa using hes) h
  exact List.reverse_inj.mp hrev

lemma horner_lt {base : ℕ} (hbase : 1 < base) {ds : List ℕ} (hds : ∀ d ∈ ds, d < base) :
    horner base ds < base^ds.length := by
  rw [horner_eq_ofDigits, ← List.length_reverse]
  exact Nat.ofDigits_lt_base_pow_length hbase (by simpa using hds)

lemma lt_of_mem_paddedDigits {base width n d : ℕ} (hbase : 1 < base) (hd : d ∈ paddedDigits base width n) :
    d < base := by
  rw [paddedDigits, List.mem_reverse, List.rightpad, List.mem_append] at hd
  cases hd with
  | inl hd => exact Nat.digits_lt_base hbase hd
  | inr hd =>
    rw [List.eq_of_mem_replicate hd]
    exact Nat.zero_lt_of_lt hbase

lemma length_paddedDigits {base width n : ℕ} (hbase : 1 < base) (h : n < base^width) :
    (paddedDigits base width n).length = width := by
  have hlen := (Nat.digits_length_le_iff hbase n).mpr h
  simp [paddedDigits, List.rightpad]
  omega

lemma takeBits_eq (source count offset : ℕ) : takeBits source count offset = source/2^offset%2^count := by
  rw [takeBits, Nat.shiftRight_and_distrib, Nat.shiftLeft_shiftRight, Nat.one_shiftLeft,
    Nat.and_two_pow_sub_one_eq_mod, Nat.shiftRight_eq_div_pow]

lemma shift_or {k low : ℕ} (hlow : low < 2^k) (high : ℕ) : high <<< k ||| low = 2^k*high+low := by
  rw [← Nat.shiftLeft_add_eq_or_of_lt hlow, Nat.shiftLeft_eq, mul_comm]

end Digits

/-- An element holds `count` shifts below `base`, and some of them are corrected. -/
structure Regroups (k : Packing) (base count : ℕ) (correct : ℕ → ℕ) : Prop where
  one_lt : 1 < base
  whole : base^count = 256^k.inputElementSize
  shifts : ∀ b : List ℕ, b.length = k.inputElementSize → (∀ d ∈ b, d < 256) →
    ∃ shifts, k.unpack (fun i => b.getD i 0) = shifts.map correct ∧ shifts.length = count ∧
      (∀ shift ∈ shifts, shift < base) ∧ horner base shifts = horner 256 b

lemma three_or {m k middle low : ℕ} (hmiddle : middle < 2^m) (hlow : low < 2^k) (high : ℕ) :
    high <<< (m+k) ||| middle <<< k ||| low = 2^k*(2^m*high+middle)+low := by
  rw [Nat.shiftLeft_add, ← Nat.shiftLeft_or_distrib, shift_or hlow, shift_or hmiddle]

lemma packing11_shifts {b0 b1 b2 b3 b4 b5 b6 b7 b8 b9 b10 : ℕ}
    (hlt : ∀ d ∈ [b0, b1, b2, b3, b4, b5, b6, b7, b8, b9, b10], d < 256) :
    packing11.unpack (fun i => [b0, b1, b2, b3, b4, b5, b6, b7, b8, b9, b10].getD i 0) =
      [8*b0+b1/32, 64*(b1%32)+b2/4, 2*(256*(b2%4)+b3)+b4/128, 16*(b4%128)+b5/16, 128*(b5%16)+b6/2,
       4*(256*(b6%2)+b7)+b8/64, 32*(b8%64)+b9/8, 256*(b9%8)+b10] := by
  simp only [List.mem_cons, List.not_mem_nil, or_false, forall_eq_or_imp, forall_eq] at hlt
  simp only [packing11, takeBits_eq, List.getD_cons_zero, List.getD_cons_succ, pow_zero, Nat.div_one]
  rw [shift_or (Nat.mod_lt _ (by norm_num)), shift_or (Nat.mod_lt _ (by norm_num)),
    three_or (m := 8) (k := 1) (Nat.mod_lt _ (by norm_num)) (Nat.mod_lt _ (by norm_num)),
    shift_or (Nat.mod_lt _ (by norm_num)), shift_or (Nat.mod_lt _ (by norm_num)),
    three_or (m := 8) (k := 2) (Nat.mod_lt _ (by norm_num)) (Nat.mod_lt _ (by norm_num)),
    shift_or (Nat.mod_lt _ (by norm_num)), shift_or (Nat.mod_lt _ (by norm_num))]
  simp only [List.cons.injEq, and_true]
  refine ⟨?_, ?_, ?_, ?_, ?_, ?_, ?_, ?_⟩ <;> omega

theorem packing11_regroups : Regroups packing11 2048 8 id := by
  refine ⟨by norm_num, by norm_num [packing11], fun b hb hlt => ?_⟩
  match b, hb with
  | [b0, b1, b2, b3, b4, b5, b6, b7, b8, b9, b10], _ =>
    refine ⟨_, (packing11_shifts hlt).trans (List.map_id _).symm, rfl, ?_, ?_⟩
    · simp only [List.mem_cons, List.not_mem_nil, or_false, forall_eq_or_imp, forall_eq] at hlt ⊢
      omega
    · simp only [List.mem_cons, List.not_mem_nil, or_false, forall_eq_or_imp, forall_eq] at hlt
      simp only [horner, List.foldl_cons, List.foldl_nil]
      omega

/-- Two shifts of twelve bits are three bytes. -/
lemma pair_shifts {x y z : ℕ} (hx : x < 256) (hz : z < 256) :
    takeBits x 8 0 <<< 4 ||| takeBits y 4 4 = 16*x+y/16%16 ∧
      takeBits y 4 0 <<< 8 ||| takeBits z 8 0 = 256*(y%16)+z := by
  simp only [takeBits_eq, pow_zero, Nat.div_one]
  rw [shift_or (Nat.mod_lt _ (by norm_num)), shift_or (Nat.mod_lt _ (by norm_num))]
  omega

def pairs (b : ℕ → ℕ) (is : List ℕ) : List ℕ :=
  is.flatMap fun i => [16*b (3*i)+b (3*i+1)/16%16, 256*(b (3*i+1)%16)+b (3*i+2)]

lemma horner_pairs {b : ℕ → ℕ} (hb : ∀ i, b i < 256) (is : List ℕ) :
    horner 4096 (pairs b is) = horner 256 (is.flatMap fun i => [b (3*i), b (3*i+1), b (3*i+2)]) := by
  induction is using List.reverseRecOn with
  | nil => simp [pairs, horner]
  | append_singleton is i ih =>
    have hy := hb (3*i+1)
    rw [horner, horner] at ih
    rw [pairs, List.flatMap_append, List.flatMap_append, List.flatMap_singleton, List.flatMap_singleton, ← pairs,
      horner, horner, List.foldl_append, List.foldl_append, ih]
    simp only [List.foldl_cons, List.foldl_nil]
    omega

theorem packing12_regroups : Regroups packing12 4096 16 validShift := by
  refine ⟨by norm_num, by norm_num [packing12], fun b hb hlt => ?_⟩
  have hget : ∀ i, b.getD i 0 < 256 := by
    intro i
    cases Nat.lt_or_ge i b.length with
    | inl hi => exact List.getD_eq_getElem b 0 hi ▸ hlt _ (List.getElem_mem hi)
    | inr hi => rw [List.getD_eq_default _ _ hi]; norm_num
  refine ⟨pairs (fun i => b.getD i 0) (List.range 8), ?_, rfl, ?_, ?_⟩
  · rw [pairs, List.map_flatMap]
    refine List.flatMap_congr fun i _ => ?_
    obtain ⟨hhigh, hlow⟩ := pair_shifts (y := b.getD (3*i+1) 0) (hget (3*i)) (hget (3*i+2))
    rw [hhigh, hlow]
    rfl
  · intro shift hshift
    obtain ⟨i, -, hshift⟩ := List.mem_flatMap.mp hshift
    have hx := hget (3*i)
    have hz := hget (3*i+2)
    simp only [List.mem_cons, List.not_mem_nil, or_false] at hshift
    omega
  · rw [horner_pairs hget]
    match b, hb with
    | [_, _, _, _, _, _, _, _, _, _, _, _, _, _, _, _, _, _, _, _, _, _, _, _], _ => rfl

section Sent
variable (k : Packing) (base : ℕ)

/-- The bytes of an element which is sent. -/
def elementBytes (values : List ℕ) : List UInt8 :=
  (paddedDigits 256 k.inputElementSize (horner base values)).map .ofNat

variable {k base} {count : ℕ} {correct : ℕ → ℕ}

lemma length_elementBytes (h : Regroups k base count correct) {values : List ℕ} (hlen : values.length = count)
    (hvalues : ∀ v ∈ values, v < base) : (elementBytes k base values).length = k.inputElementSize := by
  have hlt := horner_lt h.one_lt hvalues
  rw [hlen, h.whole] at hlt
  rw [elementBytes, List.length_map, length_paddedDigits (by norm_num) hlt]

lemma groupShifts_elementBytes (h : Regroups k base count correct) {values : List ℕ} (hlen : values.length = count)
    (hvalues : ∀ v ∈ values, v < base) :
    groupShifts k (elementBytes k base values) = values.map correct := by
  have hlt := horner_lt h.one_lt hvalues
  rw [hlen, h.whole] at hlt
  have hdigits : ∀ d ∈ paddedDigits 256 k.inputElementSize (horner base values), d < 256 :=
    fun d hd => lt_of_mem_paddedDigits (by norm_num) hd
  have hbytes : (fun i => ((elementBytes k base values).getD i 0).toNat) =
      fun i => (paddedDigits 256 k.inputElementSize (horner base values)).getD i 0 := by
    funext i
    rw [elementBytes, List.getD_eq_getElem?_getD, List.getD_eq_getElem?_getD, List.getElem?_map]
    cases hd : (paddedDigits 256 k.inputElementSize (horner base values))[i]? with
    | none => rfl
    | some d =>
      have hlt := hdigits d (List.mem_of_getElem? hd)
      simp
      omega
  obtain ⟨shifts, hunpack, hcount, hshifts, hhorner⟩ := h.shifts _ (length_paddedDigits (by norm_num) hlt) hdigits
  rw [horner_paddedDigits] at hhorner
  rw [groupShifts, hbytes, hunpack, horner_inj h.one_lt (hcount.trans hlen.symm) hshifts hvalues hhorner]

/-- Packed shifts come out as they were packed. -/
theorem packedDepths_elements (h : Regroups k base count correct) (table : ShiftToDepth) {values : List (List ℕ)}
    (hlen : ∀ vs ∈ values, vs.length = count) (hvalues : ∀ vs ∈ values, ∀ v ∈ vs, v < base) :
    packedDepths k table (values.flatMap (elementBytes k base)) =
      values.flatten.map fun v => getOutput table (correct v) := by
  induction values with
  | nil => exact packedDepths_nil k table
  | cons vs values ih =>
    have hsize := length_elementBytes h (hlen vs (by simp)) (hvalues vs (by simp))
    have hgroup := groups_whole k hsize []
    rw [List.append_nil, groups_nil] at hgroup
    rw [List.flatMap_cons, packedDepths_whole k table hsize, ih (fun ws hws => hlen ws (by simp [hws]))
      fun ws hws => hvalues ws (by simp [hws]), packedDepths, hgroup, List.flatMap_singleton,
      groupShifts_elementBytes h (hlen vs (by simp)) (hvalues vs (by simp)), List.map_map, List.flatten_cons,
      List.map_append]
    rfl

end Sent

end WaterHarp.DepthPacking
