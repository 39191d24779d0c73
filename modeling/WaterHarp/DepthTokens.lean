import WaterHarp.DepthDecoder

/-! The format of packed depth: tokens of one to five elements, each acting on
the last value, and a sender which packs them two elements a byte. -/
namespace WaterHarp.DepthTokens
open TokenReader DepthDecoder

inductive Token
  | dummy
  | again (count : ℕ)
  | largeDiff (value : ℕ)
  | full (value : ℕ)
  | diff (value : ℕ)
  deriving DecidableEq, Repr

def fullToken (high : ℕ) : List ℕ → Option (Token × List ℕ)
  | second :: third :: fourth :: rest =>
    some (.full (high <<< 12 ||| second <<< 8 ||| third <<< 4 ||| fourth), rest)
  | _ => none

def largeToken (high : ℕ) : List ℕ → Option (Token × List ℕ)
  | low :: rest => some (.largeDiff ((high-0x8) <<< 4 ||| low), rest)
  | [] => none

def next : List ℕ → Option (Token × List ℕ)
  | [] => none
  | value :: rest =>
    if value = 0xd then some (.dummy, rest)
    else if value = 0xe then
      match rest with
      | [] => none
      | count :: rest => some (.again count, rest)
    else if value = 0xf then
      match rest with
      | [] => none
      | high :: rest => if high &&& 0x8 ≠ 0 then largeToken high rest else fullToken high rest
    else some (.diff value, rest)

lemma next_append {xs rest : List ℕ} {t : Token} (h : next xs = some (t, rest)) :
    rest.length < xs.length ∧ ∀ ys, next (xs ++ ys) = some (t, rest ++ ys) := by
  cases xs with
  | nil => cases h
  | cons value xs =>
    unfold next at h
    dsimp only at h
    split_ifs at h with hd he hf
    · cases h
      simp [next, hd]
    · cases xs with
      | nil => cases h
      | cons count xs =>
        cases h
        simp [next, he]
    · cases xs with
      | nil => cases h
      | cons high xs =>
        dsimp only at h
        split_ifs at h with hhigh
        · cases xs with
          | nil => cases h
          | cons low xs =>
            cases h
            simp [next, hf, hhigh, largeToken]
            omega
        · match xs, h with
          | second :: third :: fourth :: xs, h =>
            cases h
            simp [next, hf, hhigh, fullToken]
            omega
    · cases h
      simp [next, hd, he, hf]

def reader : Reader ℕ Token where
  next := next
  shorter h := (next_append h).1
  extend ys h := (next_append h).2 ys

/-- The output of one value, which also becomes the last value. -/
def written (value : UInt16) : List Shift × UInt16 := ([checkValue value], .ofNat (checkValue value))

def act (last : UInt16) : Token → List Shift × UInt16
  | .dummy => ([], last)
  | .again count => (List.replicate (count+1) (checkValue last), .ofNat (checkValue last))
  | .largeDiff value => written (last + (.ofNat value - 64))
  | .full value => written (.ofNat value)
  | .diff value => written (last + (.ofNat value - 6))

def elements (bytes : List UInt8) : List ℕ := bytes.flatMap fun b => [b.toNat >>> 4, b.toNat &&& 0xf]

def shiftsFrom (last : UInt16) (xs : List ℕ) : List Shift := outputs act last (reader.read xs).1

/-- The pixels of a packed frame. -/
def depths (table : ShiftToDepth) (bytes : List UInt8) : List OniDepthPixel :=
  (shiftsFrom 0 (elements bytes)).map table

@[simp] lemma elements_nil : elements [] = [] := rfl
@[simp] lemma elements_cons (b : UInt8) (bytes : List UInt8) :
    elements (b :: bytes) = (b.toNat >>> 4) :: (b.toNat &&& 0xf) :: elements bytes := rfl
lemma elements_append (xs ys : List UInt8) : elements (xs ++ ys) = elements xs ++ elements ys :=
  List.flatMap_append

lemma shiftsFrom_none {xs : List ℕ} (h : next xs = none) (last : UInt16) : shiftsFrom last xs = [] := by
  rw [shiftsFrom, Reader.read_of_none h, outputs_nil]

lemma shiftsFrom_some {xs rest : List ℕ} {t : Token} (h : next xs = some (t, rest)) (last : UInt16) :
    shiftsFrom last xs = (act last t).1 ++ shiftsFrom (act last t).2 rest := by
  rw [shiftsFrom, Reader.read_of_some h, outputs_cons, shiftsFrom]

/-- More bytes never take back a pixel. -/
lemma depths_grows (table : ShiftToDepth) (xs ys : List UInt8) :
    (depths table xs).length ≤ (depths table (xs ++ ys)).length := by
  simp only [depths, shiftsFrom, List.length_map, elements_append]
  rw [reader.read_append, outputs_append, List.length_append]
  exact Nat.le_add_right _ _

/-- A full value forgets the last value, also when it is not complete. -/
lemma shiftsFrom_full {high : ℕ} (hhigh : high &&& 0x8 = 0) (rest : List ℕ) (last : UInt16) :
    shiftsFrom last (0xf :: high :: rest) = shiftsFrom 0 (0xf :: high :: rest) := by
  cases h : next (0xf :: high :: rest) with
  | none => rw [shiftsFrom_none h, shiftsFrom_none h]
  | some p =>
    obtain ⟨t, rest'⟩ := p
    rw [shiftsFrom_some h, shiftsFrom_some h]
    have hfull : fullToken high rest = some (t, rest') := by simpa [next, hhigh] using h
    match rest, hfull with
    | second :: third :: fourth :: rest, hfull =>
      cases hfull
      rfl

lemma checkValue_checkValue (value : UInt16) :
    checkValue (.ofNat (checkValue value)) = checkValue value := by
  have hlt : (checkValue value).val < 2048 := (checkValue value).isLt
  have hnat : (UInt16.ofNat (checkValue value)).toNat = (checkValue value).val := by
    simp
    omega
  rw [checkValue, dif_pos (by rw [hnat]; exact hlt)]
  exact Fin.ext hnat

/-! The format as it is sent. -/

def Token.Valid : Token → Prop
  | .dummy => True
  | .again count => count < 16
  | .largeDiff value => value < 128
  | .full value => value < 32768
  | .diff value => value < 13

def Token.elements : Token → List ℕ
  | .dummy => [0xd]
  | .again count => [0xe, count]
  | .largeDiff value => [0xf, 8+value/16, value%16]
  | .full value => [0xf, value/4096, value/256%16, value/16%16, value%16]
  | .diff value => [value]

/-- Two elements a byte, a dummy behind an odd number of them. -/
def pack : List ℕ → List UInt8
  | [] => []
  | [high] => [.ofNat (16*high+0xd)]
  | high :: low :: rest => .ofNat (16*high+low) :: pack rest

lemma byte_elements {high low : ℕ} (hhigh : high < 16) (hlow : low < 16) :
    (UInt8.ofNat (16*high+low)).toNat >>> 4 = high ∧ (UInt8.ofNat (16*high+low)).toNat &&& 0xf = low := by
  have hbyte : (UInt8.ofNat (16*high+low)).toNat = 16*high+low := by
    simp
    omega
  rw [hbyte]
  constructor
  · rw [Nat.shiftRight_eq_div_pow]
    omega
  · rw [Nat.and_two_pow_sub_one_eq_mod _ 4]
    omega

lemma elements_pack (xs : List ℕ) (h : ∀ x ∈ xs, x < 16) :
    elements (pack xs) = xs ∨ elements (pack xs) = xs ++ [0xd] := by
  induction xs using pack.induct with
  | case1 => exact .inl rfl
  | case2 high =>
    obtain ⟨hhigh, hlow⟩ := byte_elements (h high (by simp)) (show 0xd < 16 by norm_num)
    exact .inr (by rw [pack, elements_cons, hhigh, hlow]; rfl)
  | case3 high low rest ih =>
    obtain ⟨hhigh, hlow⟩ := byte_elements (h high (by simp)) (h low (by simp))
    rw [pack, elements_cons, hhigh, hlow]
    cases ih fun x hx => h x (by simp [hx]) with
    | inl ih => exact .inl (by rw [ih])
    | inr ih => exact .inr (by rw [ih]; rfl)

lemma shiftLeft_four_or {high low : ℕ} (hlow : low < 16) : high <<< 4 ||| low = 16*high+low := by
  rw [← Nat.shiftLeft_add_eq_or_of_lt (show low < 2^4 from hlow), Nat.shiftLeft_eq]
  ring

lemma four_elements {first second third fourth : ℕ} (hsecond : second < 16) (hthird : third < 16)
    (hfourth : fourth < 16) : first <<< 12 ||| second <<< 8 ||| third <<< 4 ||| fourth =
      16*(16*(16*first+second)+third)+fourth := by
  have htwo : first <<< 12 ||| second <<< 8 = (16*first+second) <<< 8 := by
    rw [← shiftLeft_four_or hsecond, Nat.shiftLeft_or_distrib, ← Nat.shiftLeft_add]
  have hthree : (16*first+second) <<< 8 ||| third <<< 4 = (16*(16*first+second)+third) <<< 4 := by
    rw [← shiftLeft_four_or hthird, Nat.shiftLeft_or_distrib, ← Nat.shiftLeft_add]
  rw [htwo, hthree, shiftLeft_four_or hfourth]

lemma highBit : ∀ high < 8, (8+high) &&& 0x8 ≠ 0 ∧ high &&& 0x8 = 0 := by decide

lemma next_elements {t : Token} (h : t.Valid) (rest : List ℕ) :
    next (t.elements ++ rest) = some (t, rest) := by
  cases t with
  | dummy => rfl
  | again count => rfl
  | largeDiff value =>
    have hvalue : value < 128 := h
    have hbit := (highBit (value/16) (by omega)).1
    have hlow : value%16 < 16 := Nat.mod_lt _ (by norm_num)
    simp only [Token.elements, List.cons_append, List.nil_append, next, largeToken]
    rw [if_neg (by norm_num), if_neg (by norm_num), if_pos trivial, if_pos hbit, shiftLeft_four_or hlow,
      show 16*(8+value/16-0x8)+value%16 = value by omega]
  | full value =>
    have hvalue : value < 32768 := h
    have hbit := (highBit (value/4096) (by omega)).2
    simp only [Token.elements, List.cons_append, List.nil_append, next, fullToken]
    rw [if_neg (by norm_num), if_neg (by norm_num), if_pos trivial, if_neg (not_not.mpr hbit),
      four_elements (by omega) (by omega) (by omega)]
    congr 3
    omega
  | diff value =>
    have hvalue : value < 13 := h
    simp only [Token.elements, List.cons_append, List.nil_append, next]
    rw [if_neg (by omega), if_neg (by omega), if_neg (by omega)]

lemma read_elements {ts : List Token} (h : ∀ t ∈ ts, t.Valid) (rest : List ℕ) :
    reader.read (ts.flatMap Token.elements ++ rest) = (ts ++ (reader.read rest).1, (reader.read rest).2) := by
  induction ts with
  | nil => rfl
  | cons t ts ih =>
    have hnext : reader.next (t.elements ++ (ts.flatMap Token.elements ++ rest)) =
        some (t, ts.flatMap Token.elements ++ rest) := next_elements (h t (by simp)) _
    rw [List.flatMap_cons, List.append_assoc, Reader.read_of_some hnext, ih fun t ht => h t (by simp [ht])]
    rfl

lemma elements_lt {t : Token} (h : t.Valid) : ∀ x ∈ t.elements, x < 16 := by
  cases t with
  | dummy => simp [Token.elements]
  | again count =>
    have hcount : count < 16 := h
    simpa [Token.elements] using hcount
  | largeDiff value =>
    have hvalue : value < 128 := h
    simp [Token.elements]
    omega
  | full value =>
    have hvalue : value < 32768 := h
    simp [Token.elements]
    omega
  | diff value =>
    have hvalue : value < 13 := h
    simp [Token.elements]
    omega

/-- Tokens sent one after another come out as what they mean. -/
theorem depths_pack (table : ShiftToDepth) {ts : List Token} (h : ∀ t ∈ ts, t.Valid) :
    depths table (pack (ts.flatMap Token.elements)) = (outputs act 0 ts).map table := by
  have hlt : ∀ x ∈ ts.flatMap Token.elements, x < 16 := by
    intro x hx
    obtain ⟨t, ht, hx⟩ := List.mem_flatMap.mp hx
    exact elements_lt (h t ht) x hx
  have hnil : reader.read [] = ([], []) := Reader.read_of_none rfl
  rw [depths, shiftsFrom]
  cases elements_pack _ hlt with
  | inl hpack =>
    have hread := read_elements h []
    rw [List.append_nil, hnil] at hread
    rw [hpack, hread, List.append_nil]
  | inr hpack =>
    have hdummy : reader.next [0xd] = some (.dummy, []) := rfl
    have hread := read_elements h [0xd]
    rw [Reader.read_of_some hdummy, hnil] at hread
    rw [hpack, hread, outputs_append]
    simp [act]

theorem depths_pack_repeated :
    depths (fun shift => .ofNat shift)
      (pack ([Token.full 1000, .again 2, .diff 7, .largeDiff 0].flatMap Token.elements)) =
        [1000, 1000, 1000, 1000, 1001, 937] :=
  depths_pack _ (by simp [Token.Valid])

end WaterHarp.DepthTokens
