import Attender.Library.Bytes
import Mathlib.Algebra.Order.Floor.Div
import Mathlib.Data.BitVec

/-!
# Base64

`base64_encode` and `base64_decode`. Three bytes are written as four digits of
six bits; one or two bytes at the end are written as two or three digits, filled
up with `=`. The decoder takes the size of what it decodes from the last two
characters, and then reads `=` as a digit beyond the last.
-/

namespace Attender.Encoding

open Attender.Library

/-! ### The encoder -/

/-- The `CharType` of the containers. -/
inductive CharType where
  | signed
  | unsigned

/-- The promotion of a character to `int`. -/
def CharType.promote : CharType → Byte → BitVec 32
  | .signed, b => b.toBitVec.signExtend 32
  | .unsigned, b => b.toBitVec.setWidth 32

/-- The equals sign. -/
abbrev EQUALS : Byte := 61

/-- `table`. -/
def table : Bytes := bytes "ABCDEFGHIJKLMNOPQRSTUVWXYZabcdefghijklmnopqrstuvwxyz0123456789+/="

/-- `table[b]`, for an index that is below 64. -/
def tableAt (b : BitVec 32) : Byte := table.getD b.toNat 0

/-- `base64_encode`. -/
def base64Encode (t : CharType) : Bytes → Bytes
  | [] => []
  | [x] =>
    [tableAt ((t.promote x &&& 0xFC) >>> 2), tableAt ((t.promote x &&& 0x03) <<< 4), EQUALS, EQUALS]
  | [x, y] =>
    [tableAt ((t.promote x &&& 0xFC) >>> 2),
      tableAt ((t.promote x &&& 0x03) <<< 4 ||| (t.promote y &&& 0xF0) >>> 4),
      tableAt ((t.promote y &&& 0x0F) <<< 2), EQUALS]
  | x :: y :: z :: rest =>
    tableAt ((t.promote x &&& 0xFC) >>> 2) ::
      tableAt ((t.promote x &&& 0x03) <<< 4 ||| (t.promote y &&& 0xF0) >>> 4) ::
      tableAt ((t.promote y &&& 0x0F) <<< 2 ||| (t.promote z &&& 0xC0) >>> 6) ::
      tableAt (t.promote z &&& 0x3F) :: base64Encode t rest

/-! ### The decoder -/

/-- Why `base64_decode` does not return. -/
inductive DecodeError where
  /-- A `std::invalid_argument` for the size. -/
  | size
  /-- A `std::invalid_argument` for a character. -/
  | characters
  /-- A write outside of the container, which is undefined. -/
  | outOfBounds
  deriving DecidableEq

/-- The text of the exception. -/
def DecodeError.what : DecodeError → Option String
  | .size => some "input does not have correct size for base64"
  | .characters => some "input contains characters that are not base64"
  | .outOfBounds => none

/-- `backwardsTable`, which throws for other characters. -/
def backwardsTable (c : Byte) : Option Nat :=
  if 65 ≤ c ∧ c ≤ 90 then some (c.toNat - 65)
  else if 97 ≤ c ∧ c ≤ 122 then some (c.toNat - 97 + 26)
  else if 48 ≤ c ∧ c ≤ 57 then some (c.toNat - 48 + 52)
  else if c = 43 then some 62
  else if c = 47 then some 63
  else if c = EQUALS then some 64
  else none

/-- The size of what is decoded. -/
def decodedSize (input : Bytes) : Nat :=
  let size := input.length * 3 / 4
  let size := if input.reverse[0]? = some EQUALS then size - 1 else size
  if input.reverse[1]? = some EQUALS then size - 1 else size

/-- The container that is written to, and `j`. -/
abbrev Output := Bytes × Nat

/-- `bytes[j++] = static_cast <CharType> (n)`, which keeps the low eight bits. -/
def writeByte (out : Output) (n : Nat) : Except DecodeError Output :=
  if out.2 < out.1.length then .ok (out.1.set out.2 (UInt8.ofNat n), out.2 + 1)
  else .error .outOfBounds

/-- The digits of a group are written. -/
def writeGroup (out : Output) (b₀ b₁ b₂ b₃ : Nat) : Except DecodeError Output := do
  let out ← writeByte out (b₀ <<< 2 ||| b₁ >>> 4)
  if b₂ < 64 then
    let out ← writeByte out (b₁ <<< 4 ||| b₂ >>> 2)
    if b₃ < 64 then writeByte out (b₂ <<< 6 ||| b₃) else .ok out
  else .ok out

/-- The loop of `base64_decode`, for an input whose length is a multiple of four. -/
def decodeGroups : Bytes → Output → Except DecodeError Output
  | c₀ :: c₁ :: c₂ :: c₃ :: input, out =>
    match backwardsTable c₀, backwardsTable c₁, backwardsTable c₂, backwardsTable c₃ with
    | some b₀, some b₁, some b₂, some b₃ =>
      match writeGroup out b₀ b₁ b₂ b₃ with
      | .ok out => decodeGroups input out
      | .error e => .error e
    | _, _, _, _ => .error .characters
  | _, out => .ok out

/-- `base64_decode`. -/
def base64Decode (input : Bytes) : Except DecodeError Bytes :=
  if input = [] then .ok []
  else if input.length % 4 ≠ 0 then .error .size
  else (decodeGroups input (List.replicate (decodedSize input) 0, 0)).map Prod.fst

/-! ### Digits -/

/-- The character of a digit. -/
def digit (n : Nat) : Byte := table.getD n 0

/-- A digit is read again, and none is the equals sign. -/
theorem backwardsTable_digit {n : Nat} (hn : n < 64) :
    backwardsTable (digit n) = some n ∧ digit n ≠ EQUALS := by
  have hall : ∀ n < 64, backwardsTable (digit n) = some n ∧ digit n ≠ EQUALS := by
    decide +kernel
  exact hall n hn

/-- A mask below 256 sees the byte alone, however it has been promoted. -/
theorem toNat_promote_and (t : CharType) (x : Byte) {m : BitVec 32} (hm : m.toNat < 2 ^ 8) :
    (t.promote x &&& m).toNat = x.toNat &&& m.toNat := by
  have hlow : (t.promote x).setWidth 8 = x.toBitVec := by
    cases t with
    | signed =>
      ext i hi
      simp [CharType.promote, BitVec.getLsbD_signExtend, hi]
      omega
    | unsigned => exact BitVec.setWidth_setWidth_of_le _ (by decide)
  have hx : x.toNat = (t.promote x).toNat % 2 ^ 8 := by
    rw [← UInt8.toNat_toBitVec, ← hlow, BitVec.toNat_setWidth]
  have hlt : (t.promote x).toNat &&& m.toNat < 2 ^ 8 :=
    lt_of_le_of_lt Nat.and_le_right hm
  rw [BitVec.toNat_and, hx, ← Nat.mod_eq_of_lt hlt, Nat.and_mod_two_pow, Nat.mod_eq_of_lt hm]

/-- The bits that the encoder takes from a byte. -/
theorem masks : ∀ n < 256, (n &&& 0xFC) >>> 2 = n / 4 ∧ (n &&& 0x03) <<< 4 = n % 4 * 16 ∧
    (n &&& 0xF0) >>> 4 = n / 16 ∧ (n &&& 0x0F) <<< 2 = n % 16 * 4 ∧
    (n &&& 0xC0) >>> 6 = n / 64 ∧ n &&& 0x3F = n % 64 := by
  decide +kernel

/-- A low part below the shifted high part is added to it. -/
theorem mul_or_eq_add (k : Nat) {m n p : Nat} (hp : p = 2 ^ k) (hn : n < p) :
    m * p ||| n = m * p + n := by
  subst hp
  rw [Nat.mul_comm, Nat.two_pow_add_eq_or_of_lt hn]

theorem toNat_promote (t : CharType) (x : Byte) :
    ((t.promote x &&& 0xFC) >>> 2).toNat = x.toNat / 4 ∧
      ((t.promote x &&& 0x03) <<< 4).toNat = x.toNat % 4 * 16 ∧
      ((t.promote x &&& 0xF0) >>> 4).toNat = x.toNat / 16 ∧
      ((t.promote x &&& 0x0F) <<< 2).toNat = x.toNat % 16 * 4 ∧
      ((t.promote x &&& 0xC0) >>> 6).toNat = x.toNat / 64 ∧
      (t.promote x &&& 0x3F).toNat = x.toNat % 64 := by
  have hand := fun (m : BitVec 32) (hm : m.toNat < 2 ^ 8) => toNat_promote_and t x hm
  obtain ⟨h₁, h₂, h₃, h₄, h₅, h₆⟩ := masks x.toNat x.toNat_lt
  simp only [BitVec.toNat_ushiftRight, BitVec.toNat_shiftLeft]
  rw [hand 0xFC (by decide), hand 0x03 (by decide), hand 0xF0 (by decide), hand 0x0F (by decide),
    hand 0xC0 (by decide), hand 0x3F (by decide)]
  refine ⟨h₁, ?_, h₃, ?_, h₅, h₆⟩
  · refine (congrArg (· % 2 ^ 32) h₂).trans (Nat.mod_eq_of_lt ?_)
    omega
  · refine (congrArg (· % 2 ^ 32) h₄).trans (Nat.mod_eq_of_lt ?_)
    omega

theorem base64Encode_one (t : CharType) (x : Byte) :
    base64Encode t [x] = [digit (x.toNat / 4), digit (x.toNat % 4 * 16), EQUALS, EQUALS] := by
  obtain ⟨h₁, h₂, -⟩ := toNat_promote t x
  simp only [base64Encode, tableAt, h₁, h₂, digit]

theorem base64Encode_two (t : CharType) (x y : Byte) :
    base64Encode t [x, y] = [digit (x.toNat / 4), digit (x.toNat % 4 * 16 + y.toNat / 16),
      digit (y.toNat % 16 * 4), EQUALS] := by
  obtain ⟨hx₁, hx₂, -⟩ := toNat_promote t x
  obtain ⟨-, -, hy₁, hy₂, -⟩ := toNat_promote t y
  have hlow : y.toNat / 16 < 16 := by
    have := y.toNat_lt
    omega
  simp only [base64Encode, tableAt, BitVec.toNat_or, hx₁, hx₂, hy₁, hy₂, digit]
  rw [mul_or_eq_add 4 (p := 16) rfl hlow]

theorem base64Encode_three (t : CharType) (x y z : Byte) (rest : Bytes) :
    base64Encode t (x :: y :: z :: rest) =
      digit (x.toNat / 4) :: digit (x.toNat % 4 * 16 + y.toNat / 16) ::
        digit (y.toNat % 16 * 4 + z.toNat / 64) :: digit (z.toNat % 64) ::
          base64Encode t rest := by
  obtain ⟨hx₁, hx₂, -⟩ := toNat_promote t x
  obtain ⟨-, -, hy₁, hy₂, -⟩ := toNat_promote t y
  obtain ⟨-, -, -, -, hz₁, hz₂⟩ := toNat_promote t z
  have hy : y.toNat / 16 < 16 := by
    have := y.toNat_lt
    omega
  have hz : z.toNat / 64 < 4 := by
    have := z.toNat_lt
    omega
  simp only [base64Encode, tableAt, BitVec.toNat_or, hx₁, hx₂, hy₁, hy₂, hz₁, hz₂, digit]
  rw [mul_or_eq_add 4 (p := 16) rfl hy, mul_or_eq_add 2 (p := 4) rfl hz]

/-- **The length of what is encoded.** -/
theorem length_base64Encode (t : CharType) (b : Bytes) :
    (base64Encode t b).length = 4 * ((b.length + 2) / 3) := by
  induction b using base64Encode.induct with
  | case1 => rfl
  | case2 x => simp [base64Encode_one]
  | case3 x y => simp [base64Encode_two]
  | case4 x y z rest ih =>
    rw [base64Encode_three]
    simp only [List.length_cons, ih]
    omega

/-! ### Groups of digits -/

/-- The bytes of a group. -/
def groupBytes (b₀ b₁ b₂ b₃ : Nat) : Bytes :=
  UInt8.ofNat (b₀ <<< 2 ||| b₁ >>> 4) ::
    if b₂ < 64 then
      UInt8.ofNat (b₁ <<< 4 ||| b₂ >>> 2) ::
        if b₃ < 64 then [UInt8.ofNat (b₂ <<< 6 ||| b₃)] else []
    else []

/-- The bytes of all groups; nothing if a character is no digit and not the equals sign. -/
def decodeText : Bytes → Option Bytes
  | c₀ :: c₁ :: c₂ :: c₃ :: input =>
    match backwardsTable c₀, backwardsTable c₁, backwardsTable c₂, backwardsTable c₃ with
    | some b₀, some b₁, some b₂, some b₃ =>
      (decodeText input).map fun rest => groupBytes b₀ b₁ b₂ b₃ ++ rest
    | _, _, _, _ => none
  | _ => some []

theorem ofNat_eq_of_mod {n : Nat} {x : Byte} (h : n % 256 = x.toNat) : UInt8.ofNat n = x := by
  rw [← UInt8.toNat_inj, UInt8.toNat_ofNat']
  exact h

theorem groupBytes_eq {b₀ b₁ b₂ b₃ : Nat} (h₁ : b₁ < 64) :
    groupBytes b₀ b₁ b₂ b₃ =
      UInt8.ofNat (b₀ * 4 + b₁ / 16) ::
        if b₂ < 64 then
          UInt8.ofNat (b₁ * 16 + b₂ / 4) ::
            if b₃ < 64 then [UInt8.ofNat (b₂ * 64 + b₃)] else []
        else [] := by
  have hfirst : b₀ <<< 2 ||| b₁ >>> 4 = b₀ * 4 + b₁ / 16 := by
    rw [Nat.shiftLeft_eq, Nat.shiftRight_eq_div_pow]
    exact mul_or_eq_add 2 rfl (by omega)
  have hsecond : b₂ < 64 → b₁ <<< 4 ||| b₂ >>> 2 = b₁ * 16 + b₂ / 4 := by
    intro h₂
    rw [Nat.shiftLeft_eq, Nat.shiftRight_eq_div_pow]
    exact mul_or_eq_add 4 rfl (by omega)
  have hthird : b₃ < 64 → b₂ <<< 6 ||| b₃ = b₂ * 64 + b₃ := by
    intro h₃
    rw [Nat.shiftLeft_eq]
    exact mul_or_eq_add 6 rfl h₃
  rw [groupBytes, hfirst]
  split_ifs with h₂ h₃
  · rw [hsecond h₂, hthird h₃]
  · rw [hsecond h₂]
  · rfl

/-- **What is encoded is read again**, group by group. -/
theorem decodeText_base64Encode (t : CharType) (b : Bytes) :
    decodeText (base64Encode t b) = some b := by
  have hequals : backwardsTable EQUALS = some 64 := rfl
  induction b using base64Encode.induct with
  | case1 => rfl
  | case2 x =>
    have hx := x.toNat_lt
    rw [base64Encode_one]
    simp only [decodeText, (backwardsTable_digit (show x.toNat / 4 < 64 by omega)).1,
      (backwardsTable_digit (show x.toNat % 4 * 16 < 64 by omega)).1, hequals, Option.map_some]
    rw [groupBytes_eq (by omega), if_neg (by decide), ofNat_eq_of_mod (x := x) (by omega)]
    rfl
  | case3 x y =>
    have hx := x.toNat_lt
    have hy := y.toNat_lt
    rw [base64Encode_two]
    simp only [decodeText, (backwardsTable_digit (show x.toNat / 4 < 64 by omega)).1,
      (backwardsTable_digit (show x.toNat % 4 * 16 + y.toNat / 16 < 64 by omega)).1,
      (backwardsTable_digit (show y.toNat % 16 * 4 < 64 by omega)).1, hequals, Option.map_some]
    rw [groupBytes_eq (by omega), if_pos (by omega), if_neg (by decide),
      ofNat_eq_of_mod (x := x) (by omega), ofNat_eq_of_mod (x := y) (by omega)]
    rfl
  | case4 x y z rest ih =>
    have hx := x.toNat_lt
    have hy := y.toNat_lt
    have hz := z.toNat_lt
    rw [base64Encode_three]
    simp only [decodeText, (backwardsTable_digit (show x.toNat / 4 < 64 by omega)).1,
      (backwardsTable_digit (show x.toNat % 4 * 16 + y.toNat / 16 < 64 by omega)).1,
      (backwardsTable_digit (show y.toNat % 16 * 4 + z.toNat / 64 < 64 by omega)).1,
      (backwardsTable_digit (show z.toNat % 64 < 64 by omega)).1, ih, Option.map_some]
    rw [groupBytes_eq (by omega), if_pos (by omega), if_pos (by omega),
      ofNat_eq_of_mod (x := x) (by omega), ofNat_eq_of_mod (x := y) (by omega),
      ofNat_eq_of_mod (x := z) (by omega)]
    rfl

/-! ### The container -/

/-- A container that has been written up to a point, with room for more. -/
def filled (v : Bytes) (n : Nat) : Output := (v ++ List.replicate n 0, v.length)

theorem writeByte_filled (v : Bytes) (n k : Nat) :
    writeByte (filled v (n + 1)) k = .ok (filled (v ++ [UInt8.ofNat k]) n) := by
  have hroom : v.length < (v ++ List.replicate (n + 1) (0 : Byte)).length := by simp
  have hset : (v ++ List.replicate (n + 1) (0 : Byte)).set v.length (UInt8.ofNat k) =
      v ++ [UInt8.ofNat k] ++ List.replicate n 0 := by
    rw [List.set_append_right _ _ le_rfl, Nat.sub_self, List.replicate_succ, List.set_cons_zero,
      List.append_assoc, List.singleton_append]
  rw [writeByte, filled, if_pos hroom, hset, filled, List.length_append, List.length_singleton]

/-- The bytes of a group are written, if there is room for them. -/
theorem writeGroup_filled (v : Bytes) {n b₀ b₁ b₂ b₃ : Nat}
    (hn : (groupBytes b₀ b₁ b₂ b₃).length ≤ n) :
    writeGroup (filled v n) b₀ b₁ b₂ b₃ =
      .ok (filled (v ++ groupBytes b₀ b₁ b₂ b₃) (n - (groupBytes b₀ b₁ b₂ b₃).length)) := by
  rw [groupBytes] at hn ⊢
  split_ifs at hn ⊢ with h₂ h₃
  · obtain ⟨m, rfl⟩ : ∃ m, n = m + 1 + 1 + 1 := ⟨n - 3, (Nat.sub_add_cancel hn).symm⟩
    simp [writeGroup, writeByte_filled, bind, Except.bind, h₂, h₃]
  · obtain ⟨m, rfl⟩ : ∃ m, n = m + 1 + 1 := ⟨n - 2, (Nat.sub_add_cancel hn).symm⟩
    simp [writeGroup, writeByte_filled, bind, Except.bind, h₂, h₃]
  · obtain ⟨m, rfl⟩ : ∃ m, n = m + 1 := ⟨n - 1, (Nat.sub_add_cancel hn).symm⟩
    simp [writeGroup, writeByte_filled, bind, Except.bind, h₂]

/-- The size of what is decoded, group by group. -/
theorem decodedSize_last (c₀ c₁ c₂ c₃ : Byte) :
    decodedSize [c₀, c₁, c₂, c₃] =
      3 - (if c₃ = EQUALS then 1 else 0) - (if c₂ = EQUALS then 1 else 0) := by
  by_cases h₃ : c₃ = EQUALS <;> by_cases h₂ : c₂ = EQUALS <;> simp [decodedSize, h₃, h₂]

theorem decodedSize_cons (c₀ c₁ c₂ c₃ : Byte) {input : Bytes} (hlength : 4 ≤ input.length) :
    decodedSize (c₀ :: c₁ :: c₂ :: c₃ :: input) = 3 + decodedSize input := by
  have hback : ∀ i < 2, (c₀ :: c₁ :: c₂ :: c₃ :: input).reverse[i]? = input.reverse[i]? := by
    intro i hi
    rw [show c₀ :: c₁ :: c₂ :: c₃ :: input = [c₀, c₁, c₂, c₃] ++ input from rfl,
      List.reverse_append, List.getElem?_append_left]
    rw [List.length_reverse]
    omega
  have hsize : (c₀ :: c₁ :: c₂ :: c₃ :: input).length * 3 / 4 = 3 + input.length * 3 / 4 := by
    simp only [List.length_cons]
    omega
  have hpos : 2 ≤ input.length * 3 / 4 := by omega
  rw [decodedSize, decodedSize, hback 0 (by decide), hback 1 (by decide), hsize]
  split_ifs
  · omega
  · omega
  · omega
  · rfl

theorem length_groupBytes (b₀ b₁ b₂ b₃ : Nat) :
    (groupBytes b₀ b₁ b₂ b₃).length = if b₂ < 64 then if b₃ < 64 then 3 else 2 else 1 := by
  rw [groupBytes]
  split_ifs
  · rfl
  · rfl
  · rfl

theorem length_groupBytes_last {c₂ c₃ : Byte} {b₂ b₃ : Nat} (h₂ : backwardsTable c₂ = some b₂)
    (h₃ : backwardsTable c₃ = some b₃) (c₀ c₁ : Byte) (b₀ b₁ : Nat) :
    (groupBytes b₀ b₁ b₂ b₃).length ≤ decodedSize [c₀, c₁, c₂, c₃] := by
  have hequals : backwardsTable EQUALS = some 64 := rfl
  have hb₂ : c₂ = EQUALS → b₂ = 64 := by
    rintro rfl
    exact (Option.some.inj (hequals.symm.trans h₂)).symm
  have hb₃ : c₃ = EQUALS → b₃ = 64 := by
    rintro rfl
    exact (Option.some.inj (hequals.symm.trans h₃)).symm
  rw [length_groupBytes, decodedSize_last]
  by_cases hc₂ : c₂ = EQUALS
  · have h64 := hb₂ hc₂
    rw [if_neg (by omega), if_pos hc₂]
    split_ifs <;> omega
  · rw [if_neg hc₂]
    by_cases hc₃ : c₃ = EQUALS
    · have h64 := hb₃ hc₃
      rw [if_neg (c := b₃ < 64) (by omega), if_pos hc₃]
      split_ifs <;> omega
    · rw [if_neg hc₃]
      split_ifs <;> omega

/-- There is room for a group, and then for the others. -/
theorem room_of_group {c₂ c₃ : Byte} {b₂ b₃ : Nat} (h₂ : backwardsTable c₂ = some b₂)
    (h₃ : backwardsTable c₃ = some b₃) (c₀ c₁ : Byte) (b₀ b₁ : Nat) {input : Bytes}
    (h4 : input.length % 4 = 0) {n : Nat}
    (hn : decodedSize (c₀ :: c₁ :: c₂ :: c₃ :: input) ≤ n) :
    (groupBytes b₀ b₁ b₂ b₃).length + decodedSize input ≤ n := by
  by_cases hinput : input = []
  · subst hinput
    exact (length_groupBytes_last h₂ h₃ c₀ c₁ b₀ b₁).trans hn
  · have hpos := List.length_pos_iff.mpr hinput
    rw [decodedSize_cons c₀ c₁ c₂ c₃ (by omega)] at hn
    rw [length_groupBytes]
    split_ifs <;> omega

/-- **The loop** writes the bytes of all groups, and never outside of the container. -/
theorem decodeGroups_filled {input : Bytes} (h4 : input.length % 4 = 0) (v : Bytes) {n : Nat}
    (hn : decodedSize input ≤ n) :
    decodeGroups input (filled v n) =
      match decodeText input with
      | some out => .ok (filled (v ++ out) (n - out.length))
      | none => .error .characters := by
  induction input using decodeText.induct generalizing v n with
  | case1 c₀ c₁ c₂ c₃ input b₀ b₁ b₂ b₃ h₃ h₂ h₁ h₀ ih =>
    have h4' : input.length % 4 = 0 := by
      simp only [List.length_cons] at h4
      omega
    have hroom := room_of_group h₂ h₃ c₀ c₁ b₀ b₁ h4' hn
    have hgroup : (groupBytes b₀ b₁ b₂ b₃).length ≤ n := by omega
    have hrest : decodedSize input ≤ n - (groupBytes b₀ b₁ b₂ b₃).length := by omega
    simp only [decodeGroups, decodeText, h₀, h₁, h₂, h₃, writeGroup_filled v hgroup,
      ih h4' _ hrest]
    cases decodeText input with
    | none => rfl
    | some out => simp [Nat.sub_sub]
  | case2 c₀ c₁ c₂ c₃ input h =>
    rw [decodeGroups, decodeText]
    split
    · next h₀ h₁ h₂ h₃ => exact (h _ _ _ _ h₀ h₁ h₂ h₃).elim
    · rfl
  | case3 input h =>
    match input, h, h4 with
    | [], _, _ => simp [decodeGroups, decodeText]
    | c₀ :: c₁ :: c₂ :: c₃ :: input, h, _ => exact (h c₀ c₁ c₂ c₃ input rfl).elim

/-- **What `base64_decode` returns**: the bytes of all groups, and zeros where less has been written
than there was room for. -/
theorem base64Decode_eq {input : Bytes} (h4 : input.length % 4 = 0) :
    base64Decode input =
      match decodeText input with
      | some out => .ok (out ++ List.replicate (decodedSize input - out.length) 0)
      | none => .error .characters := by
  rw [base64Decode, if_neg (not_not.mpr h4)]
  split_ifs with hinput
  · subst hinput
    rfl
  · have hloop := decodeGroups_filled h4 [] le_rfl
    rw [filled, List.nil_append, List.length_nil] at hloop
    rw [hloop]
    cases decodeText input with
    | none => rfl
    | some out => rfl

/-! ### The round trip -/

theorem decodedSize_base64Encode (t : CharType) (b : Bytes) :
    decodedSize (base64Encode t b) = b.length := by
  induction b using base64Encode.induct with
  | case1 => simp [base64Encode, decodedSize]
  | case2 x =>
    rw [base64Encode_one, decodedSize_last]
    rfl
  | case3 x y =>
    have hy := (backwardsTable_digit (n := y.toNat % 16 * 4) (by omega)).2
    rw [base64Encode_two, decodedSize_last, if_pos rfl, if_neg hy]
    rfl
  | case4 x y z rest ih =>
    have hz := z.toNat_lt
    have h₂ := (backwardsTable_digit (n := y.toNat % 16 * 4 + z.toNat / 64) (by omega)).2
    have h₃ := (backwardsTable_digit (n := z.toNat % 64) (by omega)).2
    rw [base64Encode_three]
    by_cases hrest : rest = []
    · subst hrest
      rw [base64Encode, decodedSize_last, if_neg h₂, if_neg h₃]
      rfl
    · have hpos := List.length_pos_iff.mpr hrest
      have hlength := length_base64Encode t rest
      rw [decodedSize_cons _ _ _ _ (by omega), ih]
      simp only [List.length_cons]
      omega

/-- **The round trip**: decoding undoes encoding, for either type of characters, and the length of
what is encoded is that of whole groups. -/
theorem base64_round_trip (t : CharType) (b : Bytes) :
    base64Decode (base64Encode t b) = .ok b ∧
      (base64Encode t b).length = 4 * (b.length ⌈/⌉ 3) := by
  have hlength := length_base64Encode t b
  constructor
  · rw [base64Decode_eq (by omega), decodeText_base64Encode, decodedSize_base64Encode]
    dsimp only
    rw [Nat.sub_self, List.replicate_zero, List.append_nil]
  · rw [hlength, Nat.ceilDiv_eq_add_pred_div]
    rfl

/-- Bytes above 127 are negative in the one type and positive in the other. -/
example : base64Encode .signed [255, 128] = bytes "/4A=" ∧
    base64Encode .unsigned [255, 128] = bytes "/4A=" := by
  decide

/-! ### What is accepted -/

/-- A letter of the alphabet. -/
def isBase64Letter (c : Byte) : Bool := isAlnum c || c == 43 || c == 47

/-- Whole groups of letters, filled up with at most two equals signs. -/
def IsBase64 (input : Bytes) : Prop :=
  input.length % 4 = 0 ∧ ∃ (body : Bytes) (padding : Nat),
    input = body ++ List.replicate padding EQUALS ∧ padding ≤ 2 ∧ ∀ c ∈ body, isBase64Letter c

/-- The table has a value for the letters and for the equals sign. -/
theorem backwardsTable_isSome_iff (c : Byte) :
    (backwardsTable c).isSome ↔ isBase64Letter c ∨ c = EQUALS := by
  unfold backwardsTable isBase64Letter isAlnum isDigit
  split_ifs <;> simp_all

/-- All groups are decoded exactly if every character has a value. -/
theorem decodeText_isSome_iff {input : Bytes} (h4 : input.length % 4 = 0) :
    (decodeText input).isSome ↔ ∀ c ∈ input, isBase64Letter c ∨ c = EQUALS := by
  simp only [← backwardsTable_isSome_iff]
  induction input using decodeText.induct with
  | case1 c₀ c₁ c₂ c₃ input b₀ b₁ b₂ b₃ h₃ h₂ h₁ h₀ ih =>
    have h4' : input.length % 4 = 0 := by
      simp only [List.length_cons] at h4
      omega
    simp only [decodeText, h₀, h₁, h₂, h₃, Option.isSome_map, ih h4', List.forall_mem_cons,
      Option.isSome_some, true_and]
  | case2 c₀ c₁ c₂ c₃ input h =>
    rw [decodeText]
    split
    · next h₀ h₁ h₂ h₃ => exact (h _ _ _ _ h₀ h₁ h₂ h₃).elim
    · simp only [List.forall_mem_cons]
      refine iff_of_false nofun ?_
      rintro ⟨h₀, h₁, h₂, h₃, -⟩
      obtain ⟨b₀, h₀⟩ := Option.isSome_iff_exists.mp h₀
      obtain ⟨b₁, h₁⟩ := Option.isSome_iff_exists.mp h₁
      obtain ⟨b₂, h₂⟩ := Option.isSome_iff_exists.mp h₂
      obtain ⟨b₃, h₃⟩ := Option.isSome_iff_exists.mp h₃
      exact h _ _ _ _ h₀ h₁ h₂ h₃
  | case3 input h =>
    match input, h, h4 with
    | [], _, _ => simp [decodeText]
    | c₀ :: c₁ :: c₂ :: c₃ :: input, h, _ => exact (h c₀ c₁ c₂ c₃ input rfl).elim

/-- **What `base64_decode` accepts**: whole groups of letters and equals signs. -/
theorem base64Decode_isOk_iff (input : Bytes) :
    (∃ out, base64Decode input = .ok out) ↔
      input.length % 4 = 0 ∧ ∀ c ∈ input, isBase64Letter c ∨ c = EQUALS := by
  by_cases h4 : input.length % 4 = 0
  · rw [base64Decode_eq h4, ← decodeText_isSome_iff h4]
    cases decodeText input with
    | none => simp
    | some out => simp [h4]
  · have hne : input ≠ [] := by
      rintro rfl
      exact h4 rfl
    rw [base64Decode, if_neg hne, if_pos h4]
    simp [h4]

theorem base64Decode_throws {input : Bytes} (h : ¬ ∃ out, base64Decode input = .ok out) :
    base64Decode input = .error .size ∨ base64Decode input = .error .characters := by
  by_cases h4 : input.length % 4 = 0
  · rw [base64Decode_eq h4] at h ⊢
    cases hdecoded : decodeText input with
    | none => exact Or.inr rfl
    | some out => exact absurd ⟨_, by rw [hdecoded]⟩ h
  · have hne : input ≠ [] := by
      rintro rfl
      exact h4 rfl
    rw [base64Decode, if_neg hne, if_pos h4]
    exact Or.inl rfl

theorem accepted_of_isBase64 {input : Bytes} (h : IsBase64 input) :
    ∀ c ∈ input, isBase64Letter c ∨ c = EQUALS := by
  obtain ⟨-, body, padding, rfl, -, hbody⟩ := h
  intro c hc
  rcases List.mem_append.mp hc with hc | hc
  · exact Or.inl (hbody c hc)
  · exact Or.inr (List.eq_of_mem_replicate hc)

/-! ### Where it writes -/

/-- The `j` of each `bytes[j++]` that the loop executes, up to its end or its exception. -/
def loopPositions : Bytes → Nat → List Nat
  | c₀ :: c₁ :: c₂ :: c₃ :: input, j =>
    match backwardsTable c₀, backwardsTable c₁, backwardsTable c₂, backwardsTable c₃ with
    | some b₀, some b₁, some b₂, some b₃ =>
      let written := (groupBytes b₀ b₁ b₂ b₃).length
      List.range' j written ++ loopPositions input (j + written)
    | _, _, _, _ => []
  | _, _ => []

/-- The `j` of each `bytes[j++]` that `base64_decode` executes. -/
def writePositions (input : Bytes) : List Nat :=
  if input.length % 4 ≠ 0 then [] else loopPositions input 0

/-- What is written for a group. -/
def groupValues (b₀ b₁ b₂ b₃ : Nat) : List Nat :=
  (b₀ <<< 2 ||| b₁ >>> 4) ::
    if b₂ < 64 then (b₁ <<< 4 ||| b₂ >>> 2) :: if b₃ < 64 then [b₂ <<< 6 ||| b₃] else [] else []

theorem length_groupValues (b₀ b₁ b₂ b₃ : Nat) :
    (groupValues b₀ b₁ b₂ b₃).length = (groupBytes b₀ b₁ b₂ b₃).length := by
  rw [length_groupBytes, groupValues]
  split_ifs
  · rfl
  · rfl
  · rfl

theorem writeGroup_eq_foldlM (out : Output) (b₀ b₁ b₂ b₃ : Nat) :
    writeGroup out b₀ b₁ b₂ b₃ = (groupValues b₀ b₁ b₂ b₃).foldlM writeByte out := by
  rw [writeGroup, groupValues]
  split_ifs with h₂ h₃
  · simp [List.foldlM_cons]
  · simp [List.foldlM_cons, pure, Except.pure]
  · simp [List.foldlM_cons, pure, Except.pure]

/-- **Writes one behind another**: one of them is out of bounds and ends it, or none is. -/
theorem foldlM_writeByte_cases (ns : List Nat) (v : Bytes) (j : Nat) :
    (ns.foldlM writeByte (v, j) = .error .outOfBounds ∧
        ∃ i ∈ List.range' j ns.length, v.length ≤ i) ∨
      ∃ v', ns.foldlM writeByte (v, j) = .ok (v', j + ns.length) ∧ v'.length = v.length ∧
        ∀ i ∈ List.range' j ns.length, i < v.length := by
  induction ns generalizing v j with
  | nil => exact Or.inr ⟨v, rfl, rfl, fun i hi => absurd hi List.not_mem_nil⟩
  | cons n ns ih =>
    rw [List.foldlM_cons, List.length_cons, List.range'_succ]
    rcases Nat.lt_or_ge j v.length with hlt | hge
    · have hbyte : writeByte (v, j) n = .ok (v.set j (UInt8.ofNat n), j + 1) := if_pos hlt
      have hset := v.length_set (i := j) (a := UInt8.ofNat n)
      rw [hbyte]
      rcases ih (v.set j (UInt8.ofNat n)) (j + 1) with ⟨herror, i, hi, hle⟩ | ⟨v', hok, hv', hin⟩
      · exact Or.inl ⟨herror, i, List.mem_cons_of_mem _ hi, hset ▸ hle⟩
      · refine Or.inr ⟨v', ?_, hv'.trans hset, ?_⟩
        · exact hok.trans (by rw [Nat.add_right_comm, Nat.add_assoc])
        · exact List.forall_mem_cons.mpr ⟨hlt, fun i hi => hset ▸ hin i hi⟩
    · have hbyte : writeByte (v, j) n = .error .outOfBounds := if_neg (Nat.not_lt.mpr hge)
      rw [hbyte]
      exact Or.inl ⟨rfl, j, List.mem_cons_self, hge⟩

/-- **The loop** is undefined exactly if one of its positions is out of bounds. -/
theorem decodeGroups_outOfBounds_iff (input : Bytes) (v : Bytes) (j : Nat) :
    decodeGroups input (v, j) = .error .outOfBounds ↔
      ∃ i ∈ loopPositions input j, v.length ≤ i := by
  induction input using decodeText.induct generalizing v j with
  | case1 c₀ c₁ c₂ c₃ input b₀ b₁ b₂ b₃ h₃ h₂ h₁ h₀ ih =>
    have hgroup := foldlM_writeByte_cases (groupValues b₀ b₁ b₂ b₃) v j
    rw [← writeGroup_eq_foldlM, length_groupValues] at hgroup
    simp only [decodeGroups, loopPositions, h₀, h₁, h₂, h₃]
    rcases hgroup with ⟨herror, i, hi, hle⟩ | ⟨v', hok, hv', hin⟩
    · rw [herror]
      exact iff_of_true rfl ⟨i, List.mem_append_left _ hi, hle⟩
    · rw [hok]
      refine (ih v' _).trans ?_
      rw [hv']
      constructor
      · rintro ⟨i, hi, hle⟩
        exact ⟨i, List.mem_append_right _ hi, hle⟩
      · rintro ⟨i, hi, hle⟩
        rcases List.mem_append.mp hi with hi | hi
        · exact absurd (hin i hi) (Nat.not_lt.mpr hle)
        · exact ⟨i, hi, hle⟩
  | case2 c₀ c₁ c₂ c₃ input h =>
    rw [decodeGroups, loopPositions]
    split
    · next h₀ h₁ h₂ h₃ => exact (h _ _ _ _ h₀ h₁ h₂ h₃).elim
    · simp
  | case3 input h =>
    match input, h with
    | [], _ => simp [decodeGroups, loopPositions]
    | [_], _ => simp [decodeGroups, loopPositions]
    | [_, _], _ => simp [decodeGroups, loopPositions]
    | [_, _, _], _ => simp [decodeGroups, loopPositions]
    | c₀ :: c₁ :: c₂ :: c₃ :: input, h => exact (h c₀ c₁ c₂ c₃ input rfl).elim

/-- Whatever the input is, it returns or throws. -/
theorem base64Decode_ne_outOfBounds (input : Bytes) : base64Decode input ≠ .error .outOfBounds := by
  intro h
  have hthrows : ¬ ∃ out, base64Decode input = .ok out := by
    rw [h]
    nofun
  rcases base64Decode_throws hthrows with hsize | hcharacters
  · rw [hsize] at h
    cases h
  · rw [hcharacters] at h
    cases h

/-- What `base64_decode` executes is undefined exactly if one of its writes is out of bounds. -/
theorem base64Decode_outOfBounds_iff (input : Bytes) :
    base64Decode input = .error .outOfBounds ↔
      ∃ j ∈ writePositions input, decodedSize input ≤ j := by
  have hloop := decodeGroups_outOfBounds_iff input (List.replicate (decodedSize input) 0) 0
  rw [List.length_replicate] at hloop
  rw [base64Decode, writePositions]
  split_ifs with hinput h4 h4
  · subst hinput
    exact absurd rfl h4
  · subst hinput
    simp [loopPositions]
  · simp
  · rw [← hloop]
    cases decodeGroups input (List.replicate (decodedSize input) 0, 0) with
    | ok out => simp [Except.map]
    | error e => simp [Except.map]

/-- **`base64_decode` never writes out of bounds**: whatever the input is, each write up to the
return or the exception is inside of the container. -/
theorem base64Decode_in_bounds (input : Bytes) :
    (∀ j ∈ writePositions input, j < decodedSize input) ∧
      base64Decode input ≠ .error .outOfBounds := by
  have hdefined := base64Decode_ne_outOfBounds input
  refine ⟨?_, hdefined⟩
  rw [Ne, base64Decode_outOfBounds_iff] at hdefined
  simpa only [not_exists, not_and, not_le] using hdefined

/-- Padding in the first of two groups, and a letter that is none in the third. -/
example : writePositions (bytes "A=B=CCCCD!DD") = [0, 1, 2, 3, 4] ∧
    decodedSize (bytes "A=B=CCCCD!DD") = 9 := by
  decide

end Attender.Encoding
