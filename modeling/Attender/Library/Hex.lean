import Attender.Library.Bytes
import Mathlib.Data.Nat.Digits.Lemmas

/-!
# Hexadecimal digits

`std::to_chars` and `std::stoi` in base 16, and texts in which bytes are written
as `%` and two hexadecimal digits.
-/

namespace Attender.Library

/-- The value of a hexadecimal digit, of either case. -/
def hexDigitValue (b : Byte) : Option Nat :=
  if isDigit b then some (b.toNat - 48)
  else if 65 ≤ b ∧ b ≤ 70 then some (b.toNat - 55)
  else if 97 ≤ b ∧ b ≤ 102 then some (b.toNat - 87)
  else none

/-- `std::isxdigit`. -/
def isHexDigit (b : Byte) : Bool := (hexDigitValue b).isSome

/-- The value of hexadecimal digits. -/
def hexValue (s : Bytes) : Nat := s.foldl (fun n b => 16 * n + (hexDigitValue b).getD 0) 0

/-- A hexadecimal digit is a letter or a decimal digit. -/
theorem hexDigitValue_eq_some {b : Byte} {x : Nat} (h : hexDigitValue b = some x) :
    x < 16 ∧ isAlnum b := by
  simp only [hexDigitValue, isDigit, Bool.and_eq_true, decide_eq_true_eq,
    UInt8.le_iff_toNat_le, UInt8.reduceToNat] at h
  simp only [isAlnum, isDigit, Bool.or_eq_true, Bool.and_eq_true, decide_eq_true_eq,
    UInt8.le_iff_toNat_le, UInt8.reduceToNat]
  split_ifs at h <;> simp only [Option.some.injEq] at h <;> omega

/-! ### `std::to_chars` in base 16 -/

/-- A digit, in lower case. -/
def hexDigit (d : Nat) : Byte := if d < 10 then UInt8.ofNat (48 + d) else UInt8.ofNat (87 + d)

/-- What `std::to_chars` writes for a number in base 16. -/
def toHex (n : Nat) : Bytes := if n = 0 then [48] else (Nat.digits 16 n).reverse.map hexDigit

theorem hexDigitValue_hexDigit {d : Nat} (h : d < 16) : hexDigitValue (hexDigit d) = some d := by
  have hall : ∀ d < 16, hexDigitValue (hexDigit d) = some d := by decide
  exact hall d h

theorem hexValue_append (s t : Bytes) :
    hexValue (s ++ t) = t.foldl (fun n b => 16 * n + (hexDigitValue b).getD 0) (hexValue s) := by
  rw [hexValue, hexValue, List.foldl_append]

/-- The digits of a number, the least first, and their value. -/
theorem hexValue_reverse {ds : List Nat} (h : ∀ d ∈ ds, d < 16) :
    hexValue (ds.reverse.map hexDigit) = Nat.ofDigits 16 ds := by
  induction ds with
  | nil => rfl
  | cons d ds ih =>
    rw [List.forall_mem_cons] at h
    rw [List.reverse_cons, List.map_append, hexValue_append, ih h.2, Nat.ofDigits_cons,
      List.map_singleton, List.foldl_cons, List.foldl_nil, hexDigitValue_hexDigit h.1,
      Option.getD_some]
    omega

theorem hexValue_toHex (n : Nat) : hexValue (toHex n) = n := by
  unfold toHex
  split_ifs with hn
  · subst hn
    decide
  · rw [hexValue_reverse fun d hd => Nat.digits_lt_base (by decide) hd, Nat.ofDigits_digits]

theorem isHexDigit_of_mem_toHex {n : Nat} {b : Byte} (hb : b ∈ toHex n) : isHexDigit b := by
  unfold toHex at hb
  split_ifs at hb
  · rw [List.mem_singleton] at hb
    subst hb
    decide
  · obtain ⟨d, hd, rfl⟩ := List.mem_map.mp hb
    rw [List.mem_reverse] at hd
    rw [isHexDigit, hexDigitValue_hexDigit (Nat.digits_lt_base (by decide) hd), Option.isSome_some]

/-- A number other than zero is written without leading zeros. -/
theorem head_toHex {n : Nat} (hn : n ≠ 0) : ∃ b s, toHex n = b :: s ∧ b ≠ 48 := by
  have hne : Nat.digits 16 n ≠ [] := Nat.digits_ne_nil_iff_ne_zero.mpr hn
  obtain ⟨ds, hds⟩ : ∃ ds, Nat.digits 16 n = ds ++ [(Nat.digits 16 n).getLast hne] :=
    ⟨_, (List.dropLast_append_getLast hne).symm⟩
  have hlast := Nat.getLast_digit_ne_zero 16 hn
  have hlt := Nat.digits_lt_base (by decide) (List.getLast_mem hne)
  generalize (Nat.digits 16 n).getLast hne = d at hds hlast hlt
  refine ⟨hexDigit d, ds.reverse.map hexDigit, ?_, ?_⟩
  · rw [toHex, if_neg hn, hds, List.reverse_append, List.map_append]
    rfl
  · intro hzero
    have hvalue := hexDigitValue_hexDigit hlt
    rw [hzero] at hvalue
    exact hlast (Option.some.inj hvalue).symm

theorem length_toHex {n : Nat} (hn : n ≠ 0) : (toHex n).length = Nat.log 16 n + 1 := by
  rw [toHex, if_neg hn, List.length_map, List.length_reverse, Nat.length_digits 16 n (by decide) hn]

/-- A digit in base 16 is four in base 2. -/
theorem log_sixteen {n : Nat} (hn : n ≠ 0) : Nat.log 16 n = Nat.log2 n / 4 := by
  rw [Nat.log_eq_iff (Or.inr ⟨by decide, hn⟩), show (16 : Nat) = 2 ^ 4 from rfl, ← pow_mul,
    ← pow_mul]
  have hlower : 2 ^ Nat.log2 n ≤ n := Nat.log2_self_le hn
  have hupper : n < 2 ^ (Nat.log2 n + 1) := Nat.lt_log2_self
  constructor
  · exact (Nat.pow_le_pow_right (by decide) (by omega)).trans hlower
  · exact hupper.trans_le (Nat.pow_le_pow_right (by decide) (by omega))

/-! ### `std::stoi` in base 16 -/

/-- `strtol` passes over a `0x` that stands before a digit. -/
def dropHexPrefix : Bytes → Bytes
  | b :: x :: d :: s =>
    if b = 48 ∧ (x = 120 ∨ x = 88) ∧ isHexDigit d then d :: s else b :: x :: d :: s
  | s => s

/-- What `strtol` reads behind the sign: the digits up to the first byte that is none. -/
def readHex (s : Bytes) : Option Nat :=
  let digits := (dropHexPrefix s).takeWhile isHexDigit
  if digits = [] then none else some (hexValue digits)

/-- `std::stoi (s, nullptr, 16)`: blanks, a sign, and the digits; it throws if there is no digit,
and if the value is not an `int`. -/
def stoi16 (s : Bytes) : Option Int :=
  let n : Option Int := match trimLeft s with
    | [] => none
    | b :: bs =>
      if b = 45 then (readHex bs).map fun n : Nat => - (n : Int)
      else if b = 43 then (readHex bs).map fun n : Nat => (n : Int)
      else (readHex (b :: bs)).map fun n : Nat => (n : Int)
  n.filter fun n => - 2 ^ 31 ≤ n ∧ n < 2 ^ 31

/-- Two hexadecimal digits are read as they stand. -/
theorem stoi16_pair {h l : Byte} {x y : Nat} (hh : hexDigitValue h = some x)
    (hl : hexDigitValue l = some y) : stoi16 [h, l] = some ((16 * x + y : Nat) : Int) := by
  obtain ⟨hx, halnum⟩ := hexDigitValue_eq_some hh
  obtain ⟨hy, -⟩ := hexDigitValue_eq_some hl
  obtain ⟨hspace, hminus, hplus⟩ := isAlnum_not_space halnum
  have htrim : trimLeft [h, l] = [h, l] := by simp [trimLeft, hspace]
  have hread : readHex [h, l] = some (16 * x + y) := by
    simp [readHex, dropHexPrefix, isHexDigit, hexValue, hh, hl]
  rw [stoi16, htrim]
  simp only [if_neg hminus, if_neg hplus, hread, Option.map_some]
  rw [Option.filter_some_pos]
  simp only [Bool.decide_and, Bool.and_eq_true, decide_eq_true_eq]
  omega

/-- What `strtol` reads of two bytes starts with a digit. -/
theorem readHex_pair (h l : Byte) :
    readHex [h, l] =
      if isHexDigit h then some (if isHexDigit l then hexValue [h, l] else hexValue [h])
      else none := by
  rw [readHex, dropHexPrefix]
  · by_cases hh : isHexDigit h
    · by_cases hl : isHexDigit l <;> simp [hh, hl]
    · simp [hh]
  · nofun

theorem readHex_singleton (l : Byte) :
    readHex [l] = if isHexDigit l then some (hexValue [l]) else none := by
  rw [readHex, dropHexPrefix]
  · by_cases hl : isHexDigit l <;> simp [hl]
  · nofun

/-- Two digits are below 256. -/
theorem hexValue_pair_lt (h l : Byte) : hexValue [l] < 16 ∧ hexValue [h, l] < 256 := by
  have hdigit : ∀ b, (hexDigitValue b).getD 0 < 16 := by
    intro b
    cases hb : hexDigitValue b with
    | none => decide
    | some x => exact (hexDigitValue_eq_some hb).1
  have hh := hdigit h
  have hl := hdigit l
  simp only [hexValue, List.foldl_cons, List.foldl_nil]
  omega

/-- Two bytes that `std::stoi` takes for a number in base 16: a digit first, or a blank or a sign
and then a digit. -/
def IsNumberPair (h l : Byte) : Prop :=
  isHexDigit h ∨ ((isSpace h ∨ h = 45 ∨ h = 43) ∧ isHexDigit l)

/-- A digit is neither a blank nor a sign. -/
theorem isHexDigit_not_space {b : Byte} (h : isHexDigit b) :
    isSpace b = false ∧ b ≠ 45 ∧ b ≠ 43 := by
  obtain ⟨x, hx⟩ := Option.isSome_iff_exists.mp h
  exact isAlnum_not_space (hexDigitValue_eq_some hx).2

/-- A number of at most two digits is an `int`, with either sign. -/
theorem isSome_filter_int {o : Option Nat} (h : ∀ n ∈ o, n < 256) (f : Nat → Int)
    (hf : ∀ n, f n = n ∨ f n = - n) :
    ((o.map f).filter fun n => - 2 ^ 31 ≤ n ∧ n < 2 ^ 31).isSome = o.isSome := by
  cases o with
  | none => rfl
  | some n =>
    have hn := h n rfl
    rw [Option.map_some, Option.filter_some_pos, Option.isSome_some, Option.isSome_some]
    simp only [Bool.decide_and, Bool.and_eq_true, decide_eq_true_eq]
    rcases hf n with e | e
    · omega
    · omega

/-- **What `std::stoi` makes of two bytes.** -/
theorem stoi16_isSome_iff (h l : Byte) : (stoi16 [h, l]).isSome ↔ IsNumberPair h l := by
  obtain ⟨hone, htwo⟩ := hexValue_pair_lt h l
  have hone' := (hexValue_pair_lt l h).1
  have hsingle : ∀ f : Nat → Int, (∀ n, f n = n ∨ f n = - n) →
      (((readHex [l]).map f).filter fun n => - 2 ^ 31 ≤ n ∧ n < 2 ^ 31).isSome =
        isHexDigit l := by
    intro f hf
    rw [readHex_singleton, isSome_filter_int _ f hf]
    · cases isHexDigit l <;> rfl
    · cases isHexDigit l
      · simp
      · simp
        omega
  have hnone : readHex [] = none := rfl
  have hsign : isHexDigit 45 = false ∧ isHexDigit 43 = false := ⟨rfl, rfl⟩
  rw [stoi16, IsNumberPair]
  cases hspace : isSpace h with
  | true =>
    have hdigit : isHexDigit h = false := by
      rw [Bool.eq_false_iff]
      intro hdigit
      rw [(isHexDigit_not_space hdigit).1] at hspace
      cases hspace
    cases hl : isSpace l with
    | true =>
      have htrim : trimLeft [h, l] = [] := by simp [trimLeft, hspace, hl]
      have hdigit' : isHexDigit l = false := by
        rw [Bool.eq_false_iff]
        intro hdigit'
        rw [(isHexDigit_not_space hdigit').1] at hl
        cases hl
      simp [htrim, hdigit, hdigit']
    | false =>
      have htrim : trimLeft [h, l] = [l] := by simp [trimLeft, hspace, hl]
      rw [htrim]
      dsimp only
      split_ifs with hminus hplus
      · subst hminus
        simp [hnone, hdigit, hsign.1]
      · subst hplus
        simp [hnone, hdigit, hsign.2]
      · rw [hsingle _ fun n => Or.inl rfl]
        simp [hdigit]
  | false =>
    have htrim : trimLeft [h, l] = [h, l] := by simp [trimLeft, hspace]
    rw [htrim]
    dsimp only
    split_ifs with hminus hplus
    · subst hminus
      rw [hsingle _ fun n => Or.inr rfl]
      simp [hsign.1]
    · subst hplus
      rw [hsingle _ fun n => Or.inl rfl]
      simp [hsign.2]
    · rw [isSome_filter_int _ _ fun n => Or.inl rfl, readHex_pair]
      · cases hdigit : isHexDigit h <;> simp [hminus, hplus]
      · rw [readHex_pair]
        cases isHexDigit h <;> cases isHexDigit l <;> simp <;> omega

/-! ### Percent encoding -/

/-- Texts of a string in which every byte may be written as `%` and two hexadecimal digits, and
those of `keep` also as they are. -/
inductive PercentEncoded (keep : Byte → Prop) : Bytes → Bytes → Prop where
  /-- The empty text. -/
  | nil : PercentEncoded keep [] []
  /-- A byte as it is. -/
  | kept {b : Byte} {s e : Bytes} : keep b → PercentEncoded keep s e →
      PercentEncoded keep (b :: s) (b :: e)
  /-- A byte in hexadecimal digits. -/
  | escaped {b h l : Byte} {x y : Nat} {s e : Bytes} : hexDigitValue h = some x →
      hexDigitValue l = some y → b.toNat = 16 * x + y → PercentEncoded keep s e →
      PercentEncoded keep (b :: s) (37 :: h :: l :: e)

/-- Every byte is written in hexadecimal digits. -/
abbrev FullyEncoded : Bytes → Bytes → Prop := PercentEncoded fun _ => False

/-- Bytes that are all kept stay as they are. -/
theorem PercentEncoded.refl {keep : Byte → Prop} {s : Bytes} (h : ∀ b ∈ s, keep b) :
    PercentEncoded keep s s := by
  induction s with
  | nil => exact .nil
  | cons b s ih =>
    rw [List.forall_mem_cons] at h
    exact .kept h.1 (ih h.2)

theorem PercentEncoded.append {keep : Byte → Prop} {s t e f : Bytes} (h : PercentEncoded keep s e)
    (h' : PercentEncoded keep t f) : PercentEncoded keep (s ++ t) (e ++ f) := by
  induction h with
  | nil => exact h'
  | kept hkeep _ ih => exact .kept hkeep ih
  | escaped hx hy hvalue _ ih => exact .escaped hx hy hvalue ih

/-- The encoded bytes stand on either side of a byte that is neither `%` nor a digit. -/
theorem PercentEncoded.of_append {keep : Byte → Prop} {c : Byte} (hc : c ≠ 37)
    (hdigit : isHexDigit c = false) {s a b : Bytes} (h : PercentEncoded keep s (a ++ c :: b)) :
    ∃ sa sb, s = sa ++ c :: sb ∧ PercentEncoded keep sa a ∧ PercentEncoded keep sb b := by
  have hnone : hexDigitValue c = none := by
    rw [isHexDigit, Option.isSome_eq_false_iff, Option.isNone_iff_eq_none] at hdigit
    exact hdigit
  generalize he : a ++ c :: b = e at h
  induction h generalizing a with
  | nil => exact absurd (congrArg List.length he) (by simp)
  | @kept b' s e hkeep hrest ih =>
    cases a with
    | nil =>
      obtain ⟨rfl, rfl⟩ := List.cons.inj he
      exact ⟨[], s, rfl, .nil, hrest⟩
    | cons d a =>
      obtain ⟨rfl, htail⟩ := List.cons.inj he
      obtain ⟨sa, sb, rfl, ha, hb⟩ := ih htail
      exact ⟨d :: sa, sb, rfl, .kept hkeep ha, hb⟩
  | @escaped b' x y m n s e hx hy hvalue hrest ih =>
    match a, he with
    | [], he => exact absurd (List.cons.inj he).1 hc
    | [_], he =>
      obtain ⟨-, rfl, -⟩ := List.cons.inj he |>.imp_right List.cons.inj
      rw [hnone] at hx
      cases hx
    | [_, _], he =>
      obtain ⟨-, -, rfl, -⟩ := List.cons.inj he |>.imp_right fun h =>
        (List.cons.inj h).imp_right List.cons.inj
      rw [hnone] at hy
      cases hy
    | p :: q :: r :: a, he =>
      simp only [List.cons_append, List.cons.injEq] at he
      obtain ⟨rfl, rfl, rfl, htail⟩ := he
      obtain ⟨sa, sb, rfl, ha, hb⟩ := ih htail
      exact ⟨b' :: sa, sb, rfl, .escaped hx hy hvalue ha, hb⟩

/-- Texts of a string in which every `%` starts an escape. -/
abbrev WellEscaped : Bytes → Bytes → Prop := PercentEncoded fun b => b ≠ 37

/-- A text in which every byte is encoded is made of `%` and digits. -/
theorem FullyEncoded.mem {s e : Bytes} (h : FullyEncoded s e) {b : Byte} (hb : b ∈ e) :
    b = 37 ∨ isHexDigit b := by
  induction h with
  | nil => exact absurd hb List.not_mem_nil
  | kept hkeep => exact hkeep.elim
  | escaped hh hl _ _ ih =>
    rcases List.mem_cons.mp hb with rfl | hb
    · exact Or.inl rfl
    rcases List.mem_cons.mp hb with rfl | hb
    · exact Or.inr (by rw [isHexDigit, hh, Option.isSome_some])
    rcases List.mem_cons.mp hb with rfl | hb
    · exact Or.inr (by rw [isHexDigit, hl, Option.isSome_some])
    · exact ih hb

/-- So it holds no byte that is neither. -/
theorem FullyEncoded.not_mem {s e : Bytes} (h : FullyEncoded s e) {b : Byte} (hb : b ≠ 37)
    (hdigit : isHexDigit b = false) : b ∉ e := by
  intro hmem
  rcases h.mem hmem with rfl | hhex
  · exact hb rfl
  · rw [hdigit] at hhex
    cases hhex

end Attender.Library
