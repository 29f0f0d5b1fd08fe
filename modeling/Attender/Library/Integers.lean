import Attender.Library.Bytes
import Mathlib.Algebra.Group.Int.Defs
import Mathlib.Algebra.Group.Nat.Defs
import Mathlib.Data.Nat.Log

/-!
# Integers of a fixed width

The conversions between `std::size_t` and `int64_t`, the difference of two
`std::size_t`, and `std::atoll`.
-/

namespace Attender.Library

/-- `a - b` in `std::size_t`. -/
def sub64 (a b : Nat) : Nat := (a + 2 ^ 64 - b % 2 ^ 64) % 2 ^ 64

/-- `static_cast <int64_t>` of a `std::size_t`. -/
def toInt64 (a : Nat) : Int :=
  if a % 2 ^ 64 < 2 ^ 63 then (a % 2 ^ 64 : Nat) else (a % 2 ^ 64 : Nat) - 2 ^ 64

/-- `static_cast <std::size_t>` of a `long long`. -/
def toSize (a : Int) : Nat := (a % 2 ^ 64).toNat

theorem sub64_self {a : Nat} (ha : a < 2 ^ 64) : sub64 a a = 0 := by
  rw [sub64, Nat.mod_eq_of_lt ha, Nat.add_sub_cancel_left, Nat.mod_self]

theorem sub64_of_lt {a b : Nat} (h : b < a) (ha : a < 2 ^ 64) : 0 < sub64 a b := by
  rw [sub64, Nat.mod_eq_of_lt (h.trans ha)]
  omega

theorem toInt64_of_lt {a : Nat} (ha : a < 2 ^ 63) : toInt64 a = a := by
  rw [toInt64, Nat.mod_eq_of_lt (by omega), if_pos ha]

theorem toSize_natCast {a : Nat} (ha : a < 2 ^ 64) : toSize a = a := by
  rw [toSize]
  omega

/-! ### Decimals -/

/-- The value of decimal digits. -/
def decimalValue (s : Bytes) : Nat := s.foldl (fun n b => 10 * n + (b.toNat - 48)) 0

/-- What is written at the start of a string: blanks, a sign, and the digits up to the first byte
that is none. -/
def writtenValue (s : Bytes) : Int :=
  let s := trimLeft s
  let value : Bytes → Int := fun digits => decimalValue (digits.takeWhile isDigit)
  match s with
  | [] => 0
  | b :: bs => if b = 45 then - value bs else if b = 43 then value bs else value (b :: bs)

/-- `std::atoll`. A value out of range has no defined result, and is clamped as `strtoll` does. -/
def atoll (s : Bytes) : Int := max (- 2 ^ 63) (min (writtenValue s) (2 ^ 63 - 1))

/-- A string of decimal digits. -/
def IsDecimal (s : Bytes) : Prop := s ≠ [] ∧ ∀ b ∈ s, isDigit b

instance (s : Bytes) : Decidable (IsDecimal s) :=
  decidable_of_iff (s ≠ [] ∧ s.all isDigit) (and_congr_right' List.all_eq_true)

theorem writtenValue_of_isDecimal {s : Bytes} (hs : IsDecimal s) :
    writtenValue s = decimalValue s := by
  obtain ⟨hne, hdigits⟩ := hs
  obtain ⟨b, bs, rfl⟩ := List.exists_cons_of_ne_nil hne
  obtain ⟨hspace, hminus, hplus⟩ := isAlnum_not_space (b := b)
    (by simp [isAlnum, hdigits b (List.mem_cons_self ..)])
  have htake : (b :: bs).takeWhile isDigit = b :: bs := List.takeWhile_eq_self_iff.mpr hdigits
  simp only [writtenValue, trimLeft, List.dropWhile_cons, hspace, Bool.false_eq_true, if_false,
    if_neg hminus, if_neg hplus, htake]

/-- What `atoll` makes of digits. -/
theorem atoll_of_isDecimal {s : Bytes} (hs : IsDecimal s) (hlt : decimalValue s < 2 ^ 63) :
    atoll s = decimalValue s := by
  rw [atoll, writtenValue_of_isDecimal hs]
  omega

/-- An integer in decimal digits, as `std::to_string` and a stream write it. -/
def toDecimal (n : Int) : Bytes := bytes (toString n)

theorem isDigit_of_mem_toString {n : Nat} {b : Byte} (h : b ∈ bytes (toString n)) : isDigit b := by
  obtain ⟨c, hc, rfl⟩ := List.mem_map.mp h
  have hdigit : c.isDigit := by
    refine Nat.isDigit_of_mem_toDigits (b := 10) (n := n) (by decide) (by decide) ?_
    simpa [Nat.repr] using hc
  simp only [Char.isDigit, Bool.and_eq_true, decide_eq_true_eq, ge_iff_le,
    UInt32.le_iff_toNat_le] at hdigit
  have hbyte : c.toUInt8.toNat = c.val.toNat % 256 := rfl
  obtain ⟨hlow, hhigh⟩ := hdigit
  have hlow' : 48 ≤ c.val.toNat := hlow
  have hhigh' : c.val.toNat ≤ 57 := hhigh
  simp only [isDigit, Bool.and_eq_true, decide_eq_true_eq, UInt8.le_iff_toNat_le,
    UInt8.reduceToNat, hbyte]
  omega

/-- It is written with digits, and with a sign if it is negative. -/
theorem mem_toDecimal {n : Int} {b : Byte} (h : b ∈ toDecimal n) : isDigit b ∨ b = 45 := by
  cases n with
  | ofNat m => exact Or.inl (isDigit_of_mem_toString h)
  | negSucc m =>
    have hneg : toDecimal (.negSucc m) = 45 :: bytes (toString (m + 1)) := by
      show bytes ("-" ++ toString (m + 1)) = _
      simp only [bytes, String.toList_append, List.map_append]
      rfl
    rw [hneg, List.mem_cons] at h
    exact h.symm.imp_left isDigit_of_mem_toString

/-! ### A fixed number of digits -/

/-- The last digits of a number, with zeros in front. -/
def fixedDigits : Nat → Nat → Bytes
  | 0, _ => []
  | width + 1, n => fixedDigits width (n / 10) ++ [UInt8.ofNat (48 + n % 10)]

@[simp] theorem length_fixedDigits (width n : Nat) : (fixedDigits width n).length = width := by
  induction width generalizing n with
  | zero => rfl
  | succ width ih => rw [fixedDigits, List.length_append, ih, List.length_singleton]

/-- The byte of a digit. -/
theorem digitByte {d : Nat} (h : d < 10) :
    isDigit (UInt8.ofNat (48 + d)) ∧ (UInt8.ofNat (48 + d)).toNat - 48 = d ∧
      d.digitChar.toUInt8 = UInt8.ofNat (48 + d) := by
  have hall : ∀ d < 10, isDigit (UInt8.ofNat (48 + d)) ∧
      (UInt8.ofNat (48 + d)).toNat - 48 = d ∧ d.digitChar.toUInt8 = UInt8.ofNat (48 + d) := by
    decide
  exact hall d h

theorem isDigit_of_mem_fixedDigits {width n : Nat} {b : Byte} (h : b ∈ fixedDigits width n) :
    isDigit b := by
  induction width generalizing n with
  | zero => cases h
  | succ width ih =>
    rcases List.mem_append.mp h with h | h
    · exact ih h
    · rw [List.mem_singleton.mp h]
      exact (digitByte (Nat.mod_lt n (by decide))).1

/-- With enough digits the value is that of the number. -/
theorem decimalValue_fixedDigits {width n : Nat} (h : n < 10 ^ width) :
    decimalValue (fixedDigits width n) = n := by
  induction width generalizing n with
  | zero =>
    rw [Nat.pow_zero] at h
    obtain rfl : n = 0 := by omega
    rfl
  | succ width ih =>
    have hrest : n / 10 < 10 ^ width := by
      rw [Nat.pow_succ] at h
      omega
    have hdigit := (digitByte (Nat.mod_lt n (by decide : 0 < 10))).2.1
    have hvalue := ih hrest
    rw [decimalValue] at hvalue
    rw [fixedDigits, decimalValue, List.foldl_append, hvalue, List.foldl_cons, List.foldl_nil,
      hdigit]
    omega

/-- A number without leading zeros is written with all of its digits. -/
theorem toDecimal_eq_fixedDigits (width : Nat) {n : Nat} (hlow : width = 0 ∨ 10 ^ width ≤ n)
    (hhigh : n < 10 ^ (width + 1)) : toDecimal n = fixedDigits (width + 1) n := by
  have hdigits : ∀ n : Nat, toDecimal n = (Nat.toDigits 10 n).map Char.toUInt8 := by
    intro n
    show bytes (Nat.repr n) = _
    rw [bytes, Nat.toList_repr]
  induction width generalizing n with
  | zero =>
    have hn : n < 10 := hhigh
    rw [hdigits, Nat.toDigits_of_lt_base hn, fixedDigits, fixedDigits, Nat.mod_eq_of_lt hn,
      List.nil_append, List.map_singleton, (digitByte hn).2.2]
  | succ width ih =>
    have hlow' : 10 ^ (width + 1) ≤ n := hlow.resolve_left (Nat.succ_ne_zero width)
    have hpos : 1 ≤ 10 ^ width := Nat.one_le_pow _ _ (by decide)
    rw [Nat.pow_succ] at hlow' hhigh
    have hbase : ¬ n < 10 := by omega
    have hrest : toDecimal (n / 10 : Nat) = fixedDigits (width + 1) (n / 10) :=
      ih (Or.inr (by omega)) (by omega)
    rw [hdigits] at hrest
    rw [hdigits, Nat.toDigits_eq_if (by decide), if_neg hbase, List.map_append, hrest,
      List.map_singleton, (digitByte (Nat.mod_lt n (by decide))).2.2]
    rfl

/-- The digits of a number are read back. -/
theorem decimalValue_toDecimal (n : Nat) : decimalValue (toDecimal n) = n := by
  have hhigh : n < 10 ^ (Nat.log 10 n + 1) := Nat.lt_pow_succ_log_self (by decide) n
  have hlow : Nat.log 10 n = 0 ∨ 10 ^ Nat.log 10 n ≤ n := by
    by_cases hn : n = 0
    · exact Or.inl (by rw [hn, Nat.log_zero_right])
    · exact Or.inr (Nat.pow_log_le_self 10 hn)
  rw [toDecimal_eq_fixedDigits _ hlow hhigh, decimalValue_fixedDigits hhigh]

end Attender.Library
