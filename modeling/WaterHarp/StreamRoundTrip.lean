import WaterHarp.StreamCompression

/-! What is written of a stream comes back, but for a difference which waits behind
pairs of zeros at the end. -/
namespace WaterHarp.StreamRoundTrip
open StreamCompression

section Escape
variable {room : ℕ} {out : List UInt16}

/-- The value behind an escape and the rest of the loop. -/
def escaped (room : ℕ) (written : UInt16 → UInt16) (last : UInt16) (out : List UInt16) (rest : List UInt8) :
    Result :=
  (readFull last rest).elim ⟨.overrun, out⟩ fun r =>
    put room (written r.1) out fun out => uncompressLoop room written r.1 out r.2

lemma uncompressLoop_cons (written : UInt16 → UInt16) (last : UInt16) (data : UInt8) (rest : List UInt8) :
    uncompressLoop room written last out (data :: rest) =
      if data < 0xE0 then
        put room (written (last-((data >>> 4).toUInt16-6))) out fun out =>
          if data &&& 0x0f = 0x0f then escaped room written (last-((data >>> 4).toUInt16-6)) out rest
          else if data &&& 0x0f = 0x0d then
            uncompressLoop room written (last-((data >>> 4).toUInt16-6)) out rest
          else put room (written (last-((data >>> 4).toUInt16-6)-((data &&& 0x0f).toUInt16-6))) out fun out =>
            uncompressLoop room written (last-((data >>> 4).toUInt16-6)-((data &&& 0x0f).toUInt16-6)) out rest
      else if data = 0xFF then escaped room written last out rest
      else putPairs room (written last) (fun out => uncompressLoop room written last out rest)
        (data-0xE0).toNat out := by
  rw [uncompressLoop]
  dsimp only
  split_ifs
  · congr 1
    funext out
    rw [escaped]
    split <;> next hread => rw [hread]; rfl
  · rfl
  · rfl
  · rw [escaped]
    split <;> next hread => rw [hread]; rfl
  · rfl

end Escape

section Decoding
variable {room : ℕ} {written : UInt16 → UInt16} {last value : UInt16} {out : List UInt16}
  {data : UInt8} {rest rest' : List UInt8}

lemma put_of_le (h : out.length ≤ room) (next : List UInt16 → Result) :
    put room value out next = next (out ++ [value]) :=
  if_neg (not_lt.mpr h)

lemma putPairs_of_le {n : ℕ} (h : out.length+2*n ≤ room+1) (next : List UInt16 → Result) :
    putPairs room value next n out = next (out ++ List.replicate (2*n) value) := by
  induction n generalizing out with
  | zero => rw [putPairs, List.replicate_zero, List.append_nil]
  | succ n ih =>
    rw [putPairs, if_neg (by omega), ih (by simp; omega), List.append_assoc]
    rfl

lemma escaped_some (h : readFull last rest = some (value, rest')) (hroom : out.length ≤ room) :
    escaped room written last out rest = uncompressLoop room written value (out ++ [written value]) rest' := by
  rw [escaped, h, Option.elim_some, put_of_le hroom]

lemma uncompressLoop_full (h : readFull last rest = some (value, rest')) (hroom : out.length ≤ room) :
    uncompressLoop room written last out (0xFF :: rest) =
      uncompressLoop room written value (out ++ [written value]) rest' := by
  rw [uncompressLoop_cons, if_neg (by decide), if_pos rfl, escaped_some h hroom]

/-- The value behind a difference, as the nibble says. -/
def step (last : UInt16) (nibble : ℕ) : UInt16 := last-(.ofNat nibble-6)

lemma nibbles : ∀ high < 13, ∀ low < 16, (UInt8.ofNat (16*high+low)) < 0xE0 ∧
    ((UInt8.ofNat (16*high+low)) >>> 4).toUInt16 = .ofNat high ∧
    (UInt8.ofNat (16*high+low)) &&& 0x0f = .ofNat low ∧
    ((UInt8.ofNat (16*high+low)) &&& 0x0f).toUInt16 = .ofNat low := by
  decide

lemma plain_nibble : ∀ low < 13, UInt8.ofNat low ≠ 0x0f ∧ UInt8.ofNat low ≠ 0x0d := by decide

lemma uncompressLoop_pair {high low : ℕ} (hhigh : high < 13) (hlow : low < 13) (hroom : out.length+1 ≤ room) :
    uncompressLoop room written last out (.ofNat (16*high+low) :: rest) =
      uncompressLoop room written (step (step last high) low)
        (out ++ [written (step last high), written (step (step last high) low)]) rest := by
  obtain ⟨hsmall, hfirst, hsecond, hvalue⟩ := nibbles high hhigh low (by omega)
  obtain ⟨hf, hd⟩ := plain_nibble low hlow
  rw [uncompressLoop, if_pos hsmall, hfirst, hvalue, hsecond]
  dsimp only
  rw [put_of_le (by omega), if_neg hf, if_neg hd, put_of_le (by simp; omega), List.append_assoc]
  rfl

lemma uncompressLoop_single {high : ℕ} (hhigh : high < 13) (hroom : out.length ≤ room) :
    uncompressLoop room written last out (.ofNat (16*high+13) :: rest) =
      uncompressLoop room written (step last high) (out ++ [written (step last high)]) rest := by
  obtain ⟨hsmall, hfirst, hsecond, -⟩ := nibbles high hhigh 13 (by norm_num)
  rw [uncompressLoop, if_pos hsmall, hfirst, hsecond]
  dsimp only
  rw [put_of_le hroom, if_neg (by decide), if_pos (by decide)]
  rfl

lemma uncompressLoop_half {high : ℕ} (hhigh : high < 13) (h : readFull (step last high) rest = some (value, rest'))
    (hroom : out.length+1 ≤ room) :
    uncompressLoop room written last out (.ofNat (16*high+15) :: rest) =
      uncompressLoop room written value (out ++ [written (step last high), written value]) rest' := by
  obtain ⟨hsmall, hfirst, hsecond, -⟩ := nibbles high hhigh 15 (by norm_num)
  rw [uncompressLoop_cons, if_pos hsmall, hfirst, hsecond, ← step, put_of_le (by omega), if_pos (by decide),
    escaped_some h (by simp; omega), List.append_assoc]
  rfl

lemma zeros : ∀ n < 16, ¬ (0xE0+UInt8.ofNat n) < 0xE0 ∧ ((0xE0+UInt8.ofNat n)-0xE0).toNat = n := by decide

lemma zeros_ne_full : ∀ n < 16, 0xE0+UInt8.ofNat n ≠ 0xFF := by decide

lemma uncompressLoop_zeros {n : ℕ} (hn : n < 16) (hroom : out.length+2*n ≤ room+1) :
    uncompressLoop room written last out ((0xE0+.ofNat n) :: rest) =
      uncompressLoop room written last (out ++ List.replicate (2*n) (written last)) rest := by
  obtain ⟨hlarge, hcount⟩ := zeros n hn
  rw [uncompressLoop, if_neg hlarge, if_neg (zeros_ne_full n hn), hcount, putPairs_of_le hroom]

end Decoding

/-- Behind `last` the bytes are read as `values`, the last of which is `last'`. -/
def Decodes (last : UInt16) (bytes : List UInt8) (values : List UInt16) (last' : UInt16) : Prop :=
  ∀ room written out rest, out.length+values.length ≤ room+1 →
    uncompressLoop room written last out (bytes ++ rest) =
      uncompressLoop room written last' (out ++ values.map written) rest

section Tokens
variable {last last' last'' : UInt16} {bytes bytes' : List UInt8} {values values' : List UInt16}

lemma Decodes.refl (last : UInt16) : Decodes last [] [] last := by
  intro room written out rest _
  rw [List.map_nil, List.append_nil, List.nil_append]

lemma Decodes.trans (h : Decodes last bytes values last') (h' : Decodes last' bytes' values' last'') :
    Decodes last (bytes ++ bytes') (values ++ values') last'' := by
  intro room written out rest hroom
  rw [List.length_append] at hroom
  rw [List.append_assoc, h room written out _ (by omega), h' room written _ rest (by simp; omega), List.map_append,
    List.append_assoc]

lemma decodes_pair {high low : ℕ} (hhigh : high < 13) (hlow : low < 13) :
    Decodes last [.ofNat (16*high+low)] [step last high, step (step last high) low] (step (step last high) low) :=
  fun _ _ _ _ hroom => uncompressLoop_pair hhigh hlow (by simp at hroom; omega)

lemma decodes_single {high : ℕ} (hhigh : high < 13) :
    Decodes last [.ofNat (16*high+13)] [step last high] (step last high) :=
  fun _ _ _ _ hroom => uncompressLoop_single hhigh (by simp at hroom; omega)

lemma decodes_zeros {n : ℕ} (hn : n < 16) :
    Decodes last [0xE0+.ofNat n] (List.replicate (2*n) last) last := by
  intro room written out rest hroom
  rw [List.length_replicate] at hroom
  rw [List.map_replicate]
  exact uncompressLoop_zeros hn hroom

lemma toInt_diffValue (last curr : UInt16) : diffValue last curr =
    if 2*(last-curr).toNat < 65536 then ((last-curr).toNat : ℤ) else ((last-curr).toNat : ℤ)-65536 :=
  BitVec.toInt_eq_toNat_cond _

/-- A difference taken off again, with the offset which makes it positive. -/
lemma sub_diffValue {last curr : UInt16} {k : ℕ} (hk : k < 32768) (h : (diffValue last curr).natAbs ≤ k) :
    last-(.ofNat (diffValue last curr+k).toNat-.ofNat k) = curr := by
  have hd := (last-curr).toNat_lt
  have hcond := toInt_diffValue last curr
  have hsub : UInt16.ofNat (diffValue last curr+k).toNat-.ofNat k = last-curr := by
    apply UInt16.toNat_inj.mp
    rw [UInt16.toNat_sub, UInt16.toNat_ofNat', UInt16.toNat_ofNat']
    split_ifs at hcond <;> omega
  rw [hsub, sub_sub_cancel]

lemma highBit (b : UInt8) : b &&& 0x80 = 0 ↔ b.toNat < 128 := by
  have hb := b.toNat_lt
  rw [← UInt8.toNat_inj, UInt8.toNat_and]
  change b.toNat &&& 2^7 = 0 ↔ _
  rw [Nat.and_two_pow, Nat.testBit_eq_decide_div_mod_eq]
  by_cases h : b.toNat/2^7%2 = 1
  · rw [decide_eq_true h]
    simp
    omega
  · rw [decide_eq_false h]
    simp
    omega

lemma shiftLeft_toUInt16 (b : UInt8) : (b.toUInt16 <<< 8).toNat = 256*b.toNat := by
  have hb := b.toNat_lt
  rw [UInt16.toNat_shiftLeft, UInt8.toNat_toUInt16]
  change b.toNat <<< 8 % 65536 = _
  rw [Nat.shiftLeft_eq]
  omega

lemma shortBytes_value (v : UInt16) : v.toUInt8.toUInt16+(v >>> 8).toUInt8.toUInt16 <<< 8 = v := by
  have hv := v.toNat_lt
  have hhigh : (v >>> 8).toUInt8.toNat = v.toNat/256 := by
    simp [Nat.shiftRight_eq_div_pow]
    omega
  apply UInt16.toNat_inj.mp
  rw [UInt16.toNat_add, shiftLeft_toUInt16, UInt8.toNat_toUInt16, UInt16.toNat_toUInt8, hhigh]
  omega

/-- A value is read behind an escape when it is close to the last one, or below the bit for that. -/
lemma readFull_fullBytes {last curr : UInt16} (h : curr < 0x8000) (rest : List UInt8) :
    readFull last (fullBytes last curr ++ rest) = some (curr, rest) := by
  unfold fullBytes
  dsimp only
  split_ifs with hclose
  · set n := (diffValue last curr+192).toNat with hn
    have hlt : n < 256 := by omega
    have hnat : (UInt8.ofNat n).toNat = n := by
      simp
      omega
    have hbit : (UInt8.ofNat n) &&& 0x80 ≠ 0 := by
      rw [ne_eq, highBit, hnat]
      omega
    have hvalue : (UInt8.ofNat n).toUInt16 = .ofNat n := by
      apply UInt16.toNat_inj.mp
      simp
      omega
    have hcurr := sub_diffValue (k := 192) (by norm_num) (hclose.trans (by norm_num))
    rw [List.singleton_append, readFull.eq_def]
    dsimp only
    rw [if_pos hbit, hvalue]
    exact congrArg (fun v => some (v, rest)) hcurr
  · have hcurr : curr.toNat < 0x8000 := h
    have hhigh : (curr >>> 8).toUInt8.toNat = curr.toNat/256 := by
      simp [Nat.shiftRight_eq_div_pow]
      omega
    have hbit : (curr >>> 8).toUInt8 &&& 0x80 = 0 := by
      rw [highBit, hhigh]
      omega
    have hvalue : (curr >>> 8).toUInt8.toUInt16 <<< 8+curr.toUInt8.toUInt16 = curr := by
      rw [add_comm]
      exact shortBytes_value curr
    rw [List.cons_append, List.cons_append, List.nil_append, readFull.eq_def]
    dsimp only
    rw [if_neg (not_not.mpr hbit), hvalue]

lemma decodes_full {curr : UInt16} (h : curr < 0x8000) :
    Decodes last (0xFF :: fullBytes last curr) [curr] curr :=
  fun _ _ _ rest hroom => uncompressLoop_full (readFull_fullBytes h rest) (by simp at hroom; omega)

lemma decodes_half {high : ℕ} (hhigh : high < 13) {curr : UInt16} (h : curr < 0x8000) :
    Decodes last (.ofNat (16*high+15) :: fullBytes (step last high) curr) [step last high, curr] curr :=
  fun _ _ _ rest hroom => uncompressLoop_half hhigh (readFull_fullBytes h rest) (by simp at hroom; omega)

end Tokens

/-- The bytes written stand for `done`; behind them come the pairs of zeros which are
counted, and the difference which waits. -/
structure Coded (first : UInt16) (values : List UInt16) (s : Compress) (done : List UInt16) (base : UInt16) :
    Prop where
  decodes : Decodes first s.output done base
  few : s.zeroCounter < 15
  idle : s.outStage = false → s.lastValue = base ∧ values = done ++ List.replicate (2*s.zeroCounter) base
  waits : s.outStage = true → ∃ high < 13, s.outChar = .ofNat (16*high) ∧ s.lastValue = step base high ∧
    values = done ++ List.replicate (2*s.zeroCounter) base ++ [step base high]

section Coding
variable {first base curr : UInt16} {values done : List UInt16} {s : Compress}

lemma Coded.flush (h : Decodes first s.output done base) (hfew : s.zeroCounter < 15) :
    Decodes first (flushZeros s).output (done ++ List.replicate (2*s.zeroCounter) base) base := by
  unfold flushZeros
  split_ifs with hzero
  · exact h.trans (decodes_zeros (by omega))
  · rw [not_not.mp hzero, Nat.mul_zero, List.replicate_zero, List.append_nil]
    exact h

/-- Nothing but the output and the counter is changed, or read. -/
lemma flushZeros_eq (s : Compress) (stage : Bool) (char : UInt8) :
    flushZeros { s with outStage := stage, outChar := char } =
      { s with outStage := stage, outChar := char, output := (flushZeros s).output, zeroCounter := 0 } := by
  unfold flushZeros
  dsimp only
  split_ifs with hzero
  · rfl
  · rw [← not_not.mp hzero]

lemma nibble_sum : ∀ high < 13, ∀ low < 13, UInt8.ofNat (16*high)+.ofNat low = .ofNat (16*high+low) ∧
    (UInt8.ofNat (16*high+low) = 0x66 ↔ high = 6 ∧ low = 6) := by
  decide

lemma nibble_end : ∀ high < 13, UInt8.ofNat (16*high)+0x0F = .ofNat (16*high+15) ∧
    UInt8.ofNat (16*high)+0x0D = .ofNat (16*high+13) ∧ (UInt8.ofNat (16*high) = 0x60 ↔ high = 6) := by
  decide

lemma nibble_shift : ∀ low < 13, UInt8.ofNat low <<< 4 = .ofNat (16*low) := by decide

lemma step_six (last : UInt16) : step last 6 = last := by
  simp [step]

lemma ofNat_eq_six : ∀ nibble < 13, UInt16.ofNat nibble = 6 → nibble = 6 := by decide

lemma step_eq_self {last : UInt16} {nibble : ℕ} (h : nibble < 13) (hstep : step last nibble = last) : nibble = 6 :=
  ofNat_eq_six nibble h (sub_eq_zero.mp (sub_eq_self.mp hstep))

lemma Coded.small (h : Coded first values s done base) (hdiff : (diffValue s.lastValue curr).natAbs ≤ 6) :
    ∃ done' base', Coded first (values ++ [curr])
      { smallDiff (diffValue s.lastValue curr) s with lastValue := curr } done' base' := by
  set low := (diffValue s.lastValue curr+6).toNat with hlow
  have hlt : low < 13 := by omega
  have hcurr : step s.lastValue low = curr := sub_diffValue (k := 6) (by norm_num) hdiff
  cases hstage : s.outStage with
  | false =>
    obtain ⟨hlast, hvalues⟩ := h.idle hstage
    have hs : smallDiff (diffValue s.lastValue curr) s = { s with outChar := .ofNat (16*low), outStage := true } := by
      rw [smallDiff, hstage, ← hlow, nibble_shift low hlt]
      rfl
    rw [hs]
    refine ⟨done, base, h.decodes, h.few, (fun hidle => nomatch hidle), fun _ => ⟨low, hlt, rfl, ?_, ?_⟩⟩
    · rw [← hcurr, hlast]
    · rw [hvalues, ← hcurr, hlast]
  | true =>
    obtain ⟨high, hhigh, hchar, hlast, hvalues⟩ := h.waits hstage
    obtain ⟨hsum, hpair⟩ := nibble_sum high hhigh low hlt
    rw [hlast] at hcurr
    have hnew : values ++ [curr] = done ++ List.replicate (2*s.zeroCounter) base ++ [step base high, curr] := by
      rw [hvalues, List.append_assoc]
      rfl
    by_cases hzeros : UInt8.ofNat (16*high+low) = 0x66
    · obtain ⟨rfl, hsix⟩ := hpair.mp hzeros
      have hbase : curr = base := by rw [← hcurr, hsix, step_six, step_six]
      have hpairs : values ++ [curr] = done ++ List.replicate (2*(s.zeroCounter+1)) base := by
        rw [hnew, hbase, step_six, List.append_assoc, Nat.mul_add, List.replicate_add]
        rfl
      have hsum' : s.outChar+.ofNat low = 0x66 := by rw [hchar, hsum, hzeros]
      by_cases hfull : s.zeroCounter+1 = 15
      · have hs : smallDiff (diffValue s.lastValue curr) s =
            { s with outChar := 0x66, outStage := false, output := s.output ++ [0xEF], zeroCounter := 0 } := by
          simp only [smallDiff, hstage, ← hlow, hsum', if_true, if_pos hfull]
          rfl
        rw [hs]
        refine ⟨values ++ [curr], base, ?_, by norm_num, fun _ => ⟨hbase, ?_⟩, fun hidle => nomatch hidle⟩
        · rw [hpairs, hfull]
          exact h.decodes.trans (decodes_zeros (n := 15) (by norm_num))
        · exact (List.append_nil _).symm
      · have hs : smallDiff (diffValue s.lastValue curr) s =
            { s with outChar := 0x66, outStage := false, zeroCounter := s.zeroCounter+1 } := by
          simp only [smallDiff, hstage, ← hlow, hsum', if_true, if_neg hfull]
        rw [hs]
        have hfew := h.few
        exact ⟨done, base, h.decodes, by dsimp only; omega, fun _ => ⟨hbase, hpairs⟩, fun hidle => nomatch hidle⟩
    · have hs : smallDiff (diffValue s.lastValue curr) s =
          { s with
            outChar := .ofNat (16*high+low)
            outStage := false
            output := (flushZeros s).output ++ [.ofNat (16*high+low)]
            zeroCounter := 0 } := by
        simp only [smallDiff, hstage, ← hlow, hchar, hsum, if_true, if_neg hzeros, flushZeros_eq]
        rfl
      rw [hs]
      refine ⟨values ++ [curr], curr, ?_, by norm_num, fun _ => ⟨rfl, (List.append_nil _).symm⟩,
        fun hidle => nomatch hidle⟩
      have hpairs := @decodes_pair base high low hhigh hlt
      rw [hcurr] at hpairs
      rw [hnew]
      exact (Coded.flush h.decodes h.few).trans hpairs

lemma Coded.large (h : Coded first values s done base) (hcurr : curr < 0x8000) :
    ∃ done' base', Coded first (values ++ [curr]) { largeDiff curr s with lastValue := curr } done' base' := by
  have hflush := Coded.flush h.decodes h.few
  have hs := flushZeros_eq s s.outStage s.outChar
  refine ⟨values ++ [curr], curr, ?_, ?_, fun _ => ⟨rfl, ?_⟩, fun hidle => nomatch hidle⟩
  · dsimp only [largeDiff, Compress.put]
    rw [hs]
    dsimp only
    cases hstage : s.outStage with
    | false =>
      obtain ⟨hlast, hvalues⟩ := h.idle hstage
      rw [hvalues, hlast]
      exact hflush.trans (decodes_full hcurr)
    | true =>
      obtain ⟨high, hhigh, hchar, hlast, hvalues⟩ := h.waits hstage
      have hsum : s.outChar+0x0F = .ofNat (16*high+15) := by
        rw [hchar]
        exact (nibble_end high hhigh).1
      rw [hvalues, hlast, if_pos rfl, hsum, List.append_assoc]
      exact hflush.trans (decodes_half hhigh hcurr)
  · dsimp only [largeDiff, Compress.put]
    rw [hs]
    norm_num
  · dsimp only [largeDiff, Compress.put]
    rw [hs]
    exact (List.append_nil _).symm

lemma Coded.next (h : Coded first values s done base) (hcurr : curr < 0x8000) :
    ∃ done' base', Coded first (values ++ [curr]) (compressValue s curr) done' base' := by
  unfold compressValue
  dsimp only
  split_ifs with hdiff
  · exact h.small hdiff
  · exact h.large hcurr

lemma compressValues_coded (first : UInt16) {values : List UInt16} (h : ∀ v ∈ values, v < 0x8000) :
    ∃ done base, Coded first values (compressValues first values) done base := by
  induction values using List.reverseRecOn with
  | nil =>
    exact ⟨[], first, .refl first, by norm_num [compressValues], fun _ => ⟨rfl, rfl⟩, fun hidle => nomatch hidle⟩
  | append_singleton values curr ih =>
    obtain ⟨done, base, hcoded⟩ := ih fun v hv => h v (by simp [hv])
    have hs : compressValues first (values ++ [curr]) = compressValue (compressValues first values) curr := by
      rw [compressValues, List.foldl_append]
      rfl
    rw [hs]
    exact hcoded.next (h curr (by simp))

/-- At the end the difference which waits is written in front of the pairs of zeros. -/
lemma Coded.finish (h : Coded first values s done base) :
    ∃ last, Decodes first (StreamCompression.finish s)
      (if s.outStage then done ++ [s.lastValue] ++ List.replicate (2*s.zeroCounter) s.lastValue else values) last := by
  unfold StreamCompression.finish
  cases hstage : s.outStage with
  | false =>
    obtain ⟨-, hvalues⟩ := h.idle hstage
    rw [if_neg Bool.false_ne_true, if_neg Bool.false_ne_true, hvalues]
    exact ⟨base, Coded.flush h.decodes h.few⟩
  | true =>
    obtain ⟨high, hhigh, hchar, hlast, -⟩ := h.waits hstage
    rw [if_pos rfl, if_pos rfl, hchar, (nibble_end high hhigh).2.1, hlast]
    exact ⟨step base high, Coded.flush (h.decodes.trans (decodes_single hhigh)) h.few⟩

lemma Coded.finish_length (h : Coded first values s done base) :
    (if s.outStage then done ++ [s.lastValue] ++ List.replicate (2*s.zeroCounter) s.lastValue else values).length =
      values.length := by
  cases hstage : s.outStage with
  | false => rw [if_neg Bool.false_ne_true]
  | true =>
    obtain ⟨high, -, -, -, hvalues⟩ := h.waits hstage
    rw [if_pos rfl, hvalues]
    simp

/-- Nothing but a zero waits behind pairs of zeros which have not been written. -/
def Settled (s : Compress) : Prop := s.outStage = true → s.zeroCounter ≠ 0 → s.outChar = 0x60

lemma Coded.finish_values (h : Coded first values s done base) :
    (if s.outStage then done ++ [s.lastValue] ++ List.replicate (2*s.zeroCounter) s.lastValue else values) = values ↔
      Settled s := by
  unfold Settled
  cases hstage : s.outStage with
  | false => simp
  | true =>
    obtain ⟨high, hhigh, hchar, hlast, hvalues⟩ := h.waits hstage
    rw [if_pos rfl, hchar, (nibble_end high hhigh).2.2, hvalues, hlast, List.append_assoc, List.append_assoc,
      List.append_cancel_left_eq]
    by_cases hzero : s.zeroCounter = 0
    · simp [hzero]
    · obtain ⟨n, hn⟩ := Nat.exists_eq_succ_of_ne_zero (show 2*s.zeroCounter ≠ 0 by omega)
      rw [hn]
      constructor
      · intro heq _ _
        exact step_eq_self hhigh (List.cons.inj heq).1
      · intro hsettled
        rw [hsettled rfl hzero, step_six]
        exact (List.replicate_succ' (n := n+1) (a := base)).symm ▸ rfl

end Coding

section Stream
variable {first : UInt16} {values : List UInt16}

/-- A recorded stream comes back if and only if no difference waits behind pairs of zeros. -/
theorem uncompress_compress_iff (h : ∀ v ∈ values, v < 0x8000) {room : ℕ} (hroom : values.length ≤ room) :
    uncompressDepth16Z room (compressDepth16Z (first :: values)) = ⟨.ok, first :: values⟩ ↔
      Settled (compressValues first values) := by
  obtain ⟨done, base, hcoded⟩ := compressValues_coded first h
  obtain ⟨last, hfinish⟩ := hcoded.finish
  have hlen := hcoded.finish_length
  rw [← hcoded.finish_values]
  generalize hread : (if (compressValues first values).outStage then
    done ++ [(compressValues first values).lastValue] ++
      List.replicate (2*(compressValues first values).zeroCounter) (compressValues first values).lastValue
    else values) = read at hfinish hlen ⊢
  have hresult : uncompressDepth16Z room (compressDepth16Z (first :: values)) = ⟨.ok, first :: read⟩ := by
    have hloop := hfinish room id [first] [] (by simp; omega)
    rw [List.append_nil, List.map_id] at hloop
    rw [compressDepth16Z, shortBytes, List.cons_append, List.cons_append, List.nil_append, uncompressDepth16Z,
      shortBytes_value, hloop, uncompressLoop]
    rfl
  rw [hresult]
  simp

end Stream

/-- The last value would be written in front of the pair of zeros. -/
theorem uncompress_compress_pairs :
    uncompressDepth16Z 4 (compressDepth16Z [5, 5, 5, 6]) ≠ ⟨.ok, [5, 5, 5, 6]⟩ :=
  mt (@uncompress_compress_iff 5 [5, 5, 6] (by simp) 4 (by simp)).mp fun h => absurd (h rfl (by decide)) (by decide)

lemma smallDiff_outStage (diff : ℤ) {s : Compress} (h : s.outStage = true) : (smallDiff diff s).outStage = false := by
  unfold smallDiff
  dsimp only
  rw [if_pos h]
  split_ifs
  · rfl
  · rfl
  · rw [Compress.put, flushZeros_eq]

lemma lastValue_append_singleton (first : UInt16) (values : List UInt16) (last : UInt16) :
    (compressValues first (values ++ [last])).lastValue = last := by
  rw [compressValues, List.foldl_append]
  rfl

lemma settled_same (first : UInt16) (values : List UInt16) (last : UInt16) :
    Settled (compressValues first (values ++ [last] ++ [last])) := by
  have hlast := lastValue_append_singleton first values last
  set s := compressValues first (values ++ [last]) with hs
  have hzero : diffValue s.lastValue last = 0 := by
    rw [hlast, diffValue, sub_self]
    rfl
  have hnext : compressValues first (values ++ [last] ++ [last]) = { smallDiff 0 s with lastValue := last } := by
    rw [compressValues, List.foldl_append, ← compressValues, ← hs, List.foldl_cons, List.foldl_nil, compressValue,
      hzero]
    rfl
  rw [hnext]
  intro hstage _
  dsimp only at hstage ⊢
  cases hwaits : s.outStage with
  | true =>
    rw [smallDiff_outStage 0 hwaits] at hstage
    exact absurd hstage Bool.false_ne_true
  | false =>
    have hchar : UInt8.ofNat ((0 : ℤ)+6).toNat <<< 4 = 0x60 := by decide
    rw [smallDiff, hwaits]
    exact hchar

/-- A stream whose last two values agree comes back. -/
theorem uncompress_compress_same {first last : UInt16} {values : List UInt16} (h : ∀ v ∈ values, v < 0x8000)
    (hlast : last < 0x8000) {room : ℕ} (hroom : values.length+2 ≤ room) :
    uncompressDepth16Z room (compressDepth16Z (first :: (values ++ [last] ++ [last]))) =
      ⟨.ok, first :: (values ++ [last] ++ [last])⟩ := by
  refine (uncompress_compress_iff ?_ (by simpa using hroom)).mpr (settled_same first values last)
  intro v hv
  simp only [List.mem_append, List.mem_singleton] at hv
  obtain (hv | rfl) | rfl := hv
  · exact h v hv
  · exact hlast
  · exact hlast

section Written
variable {room : ℕ} {value : UInt16} {out : List UInt16} {next : List UInt16 → Result} {P : List UInt16 → Prop}

lemma put_written (hP : ∀ out value, P out → out.length ≤ room → P (out ++ [value])) (h : P out)
    (hnext : ∀ out', P out' → P (next out').output) : P (put room value out next).output := by
  unfold put
  split_ifs with hfull
  · exact h
  · exact hnext _ (hP out value h (not_lt.mp hfull))

lemma putPairs_written (hP : ∀ out value, P out → out.length ≤ room → P (out ++ [value])) (h : P out)
    (hnext : ∀ out', P out' → P (next out').output) (n : ℕ) : P (putPairs room value next n out).output := by
  induction n generalizing out with
  | zero => exact hnext out h
  | succ n ih =>
    rw [putPairs]
    split_ifs with hfull
    · exact h
    · have hone := hP out value h (by omega)
      have htwo := hP _ value hone (by simpa using not_lt.mp hfull)
      rw [List.append_assoc] at htwo
      exact ih htwo

lemma escaped_written (hP : ∀ out value, P out → out.length ≤ room → P (out ++ [value]))
    {written : UInt16 → UInt16} {last : UInt16} {rest : List UInt8} (h : P out)
    (hloop : ∀ value rest', readFull last rest = some (value, rest') → ∀ out', P out' →
      P (uncompressLoop room written value out' rest').output) :
    P (escaped room written last out rest).output := by
  unfold escaped
  cases hread : readFull last rest with
  | none => exact h
  | some r => exact put_written hP h (hloop r.1 r.2 hread)

/-- What each checked write keeps holds of all that the loop has written. -/
lemma uncompressLoop_written (hP : ∀ out value, P out → out.length ≤ room → P (out ++ [value]))
    (written : UInt16 → UInt16) (last : UInt16) (input : List UInt8) (h : P out) :
    P (uncompressLoop room written last out input).output := by
  induction hn : input.length using Nat.strong_induction_on generalizing last out input with
  | _ n ih =>
    cases input with
    | nil =>
      rw [uncompressLoop]
      exact h
    | cons data rest =>
      have hrest : ∀ last (out' : List UInt16), P out' →
          P (uncompressLoop room written last out' rest).output :=
        fun last out' hout => ih rest.length (by rw [← hn]; exact Nat.lt_succ_self _) last rest hout rfl
      have hescaped : ∀ last (out' : List UInt16), P out' → P (escaped room written last out' rest).output := by
        intro last out' hout
        refine escaped_written hP hout fun value rest' hread out'' hout' => ih rest'.length ?_ value rest' hout' rfl
        have hshort := readFull_length hread
        rw [← hn, List.length_cons]
        omega
      rw [uncompressLoop_cons]
      split_ifs
      · exact put_written hP h (hescaped _)
      · exact put_written hP h (hrest _)
      · exact put_written hP h fun out' hout => put_written hP hout (hrest _)
      · exact hescaped last out h
      · exact putPairs_written hP h (hrest last) _

lemma uncompressLoop_bound (written : UInt16 → UInt16) (last : UInt16) (input : List UInt8)
    (h : out.length ≤ room+1) : (uncompressLoop room written last out input).output.length ≤ room+1 := by
  refine uncompressLoop_written (P := fun out => out.length ≤ room+1) (fun out value _ hroom => ?_) written last input h
  rw [List.length_append, List.length_singleton]
  omega

lemma uncompressLoop_extends (written : UInt16 → UInt16) (last : UInt16) (out : List UInt16) (input : List UInt8) :
    out <+: (uncompressLoop room written last out input).output :=
  uncompressLoop_written (P := fun out' => out <+: out')
    (fun _ _ h _ => h.trans (List.prefix_append _ _)) written last input List.prefix_rfl

lemma escaped_extends (written : UInt16 → UInt16) (last : UInt16) (out : List UInt16) (rest : List UInt8) :
    out <+: (escaped room written last out rest).output :=
  escaped_written (P := fun out' => out <+: out') (fun _ _ h _ => h.trans (List.prefix_append _ _))
    List.prefix_rfl fun value rest' _ out' hout => hout.trans (uncompressLoop_extends written value out' rest')

end Written

section Behind
variable {room : ℕ} {value : UInt16} {out : List UInt16} {next next' : List UInt16 → Result}

/-- A run which needs more input agrees with one which has it. -/
def Continues (r r' : Result) : Prop := r.status = .overrun → r.output <+: r'.output

lemma put_continues (hnext : ∀ out', Continues (next out') (next' out')) :
    Continues (put room value out next) (put room value out next') := by
  unfold put
  split_ifs with hfull
  · exact fun _ => List.prefix_rfl
  · exact hnext _

lemma putPairs_continues (hnext : ∀ out', Continues (next out') (next' out')) (n : ℕ) :
    Continues (putPairs room value next n out) (putPairs room value next' n out) := by
  induction n generalizing out with
  | zero => exact hnext out
  | succ n ih =>
    rw [putPairs, putPairs]
    split_ifs with hfull
    · exact fun _ => List.prefix_rfl
    · exact ih

lemma readFull_append {last value : UInt16} {input rest : List UInt8}
    (h : readFull last input = some (value, rest)) (behind : List UInt8) :
    readFull last (input ++ behind) = some (value, rest ++ behind) := by
  match input, h with
  | data3 :: tail, h =>
    unfold readFull at h ⊢
    dsimp only [List.cons_append] at h ⊢
    split_ifs at h ⊢ with hshort
    · cases h
      rfl
    · match tail, h with
      | low :: tail, h =>
        cases h
        rfl

lemma escaped_continues {written : UInt16 → UInt16} {last : UInt16} {rest behind : List UInt8}
    (hloop : ∀ value rest', readFull last rest = some (value, rest') → ∀ out',
      Continues (uncompressLoop room written value out' rest')
        (uncompressLoop room written value out' (rest' ++ behind))) :
    Continues (escaped room written last out rest) (escaped room written last out (rest ++ behind)) := by
  cases hread : readFull last rest with
  | some r =>
    rw [escaped, escaped, hread, readFull_append hread]
    exact put_continues (hloop r.1 r.2 hread)
  | none =>
    have hout : escaped room written last out rest = ⟨.overrun, out⟩ := by
      rw [escaped, hread]
      rfl
    rw [hout]
    exact fun _ => escaped_extends written last out (rest ++ behind)

lemma uncompressLoop_continues (written : UInt16 → UInt16) (last : UInt16) (out : List UInt16)
    (input behind : List UInt8) :
    Continues (uncompressLoop room written last out input)
      (uncompressLoop room written last out (input ++ behind)) := by
  induction hn : input.length using Nat.strong_induction_on generalizing last out input with
  | _ n ih =>
    cases input with
    | nil =>
      rw [uncompressLoop]
      intro hok
      cases hok
    | cons data rest =>
      have hrest : ∀ last out', Continues (uncompressLoop room written last out' rest)
          (uncompressLoop room written last out' (rest ++ behind)) :=
        fun last out' => ih rest.length (by rw [← hn]; exact Nat.lt_succ_self _) last out' rest rfl
      have hescaped : ∀ last out', Continues (escaped room written last out' rest)
          (escaped room written last out' (rest ++ behind)) := by
        intro last out'
        refine escaped_continues fun value rest' hread out'' => ih rest'.length ?_ value out'' rest' rfl
        have hshort := readFull_length hread
        rw [← hn, List.length_cons]
        omega
      rw [List.cons_append, uncompressLoop_cons, uncompressLoop_cons]
      split_ifs
      · exact put_continues fun out' => hescaped _ out'
      · exact put_continues fun out' => hrest _ out'
      · exact put_continues fun out' => put_continues (hrest _)
      · exact hescaped last out
      · exact putPairs_continues (hrest last) _

end Behind

lemma uncompressDepth16Z_bound (room : ℕ) (input : List UInt8) :
    (uncompressDepth16Z room input).output.length ≤ room+1 := by
  unfold uncompressDepth16Z
  split
  · exact uncompressLoop_bound id _ _ (by simp)
  · exact Nat.zero_le _

/-- At most one value is written behind the end of the buffer, also by a run which goes on
behind its input; and such a run has written the same until then. -/
theorem uncompress_bound (room : ℕ) (input behind : List UInt8) :
    (uncompressInMemory room input behind).output.length ≤ room+1 ∧
      (uncompressDepth16Z room input).output <+: (uncompressInMemory room input behind).output := by
  unfold uncompressInMemory
  split_ifs with hoverrun
  · refine ⟨uncompressDepth16Z_bound room _, ?_⟩
    rcases input with _ | ⟨low, _ | ⟨high, input⟩⟩
    · cases hoverrun
    · cases hoverrun
    · exact uncompressLoop_continues id _ _ input behind hoverrun
  · exact ⟨uncompressDepth16Z_bound room input, List.prefix_rfl⟩

/-- One value is written behind the end of a buffer of any size, and no overflow is found. -/
theorem uncompress_reaches (room : ℕ) :
    uncompressDepth16Z room ([0, 0] ++ List.replicate room 0x6D) = ⟨.ok, List.replicate (room+1) 0⟩ := by
  have hloop : ∀ n, Decodes 0 (List.replicate n 0x6D) (List.replicate n 0) 0 := by
    intro n
    induction n with
    | zero => exact .refl 0
    | succ n ih => exact (@decodes_single 0 6 (by norm_num)).trans ih
  have hrun := hloop room room id [0] [] (by simp; omega)
  rw [List.append_nil, List.map_id, uncompressLoop] at hrun
  exact hrun

end WaterHarp.StreamRoundTrip
