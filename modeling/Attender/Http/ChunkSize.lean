import Attender.Http.ChunkedFraming

/-!
# The size of a chunk

`producer::hexlen` in the arithmetic of the source: a logarithm by the leading
zeros, shifted to base 16. It is the number of digits that `std::to_chars`
writes (`hexSize_eq`), so all that `send_chunked` writes to the vector of a
chunk stands where the next piece expects it. The size of the vector is a sum in
`std::size_t`, which wraps for the last twenty lengths.
-/

namespace Attender.Http

open Attender.Library

/-! ### The arithmetic of `hexlen` -/

/-- `__builtin_clzll`, of a number that is not zero. -/
def clzll (x : BitVec 64) : BitVec 32 := x.clz.setWidth 32

/-- `LOG2`, where `8 * sizeof (unsigned long long)` and what is taken from it are of 64 bits, and
the result is cast to `unsigned`. -/
def LOG2 (x : BitVec 64) : BitVec 32 := (8#64 * 8#64 - (clzll x).signExtend 64 - 1#64).setWidth 32

/-- `hex_size`, which `producer::hexlen` returns. -/
def hexSize (number : BitVec 64) : BitVec 64 :=
  if number = 0 then 1#64 else 1#64 + (LOG2 number >>> 2).setWidth 64

/-- The size of the vector of a chunk, in `std::size_t`. -/
def availBytesSize (avail : BitVec 64) : BitVec 64 := avail + hexSize avail + 4#64

/-- A number that is not zero has fewer than 64 leading zeros. -/
theorem toNat_clz_lt {n : BitVec 64} (hn : n ≠ 0) : n.clz.toNat < 64 := by
  have h := BitVec.clz_lt_iff_ne_zero.mpr hn
  simpa [BitVec.lt_def] using h

/-- None of the conversions in `LOG2` changes a value. -/
theorem toNat_LOG2 {n : BitVec 64} (hn : n ≠ 0) : (LOG2 n).toNat = 63 - n.clz.toNat := by
  have hlt := toNat_clz_lt hn
  have hclzll : (clzll n).toNat = n.clz.toNat := by
    rw [clzll, BitVec.toNat_setWidth]
    exact Nat.mod_eq_of_lt (by omega)
  have hmsb : (clzll n).msb = false := by
    rw [BitVec.msb_eq_decide, decide_eq_false_iff_not, hclzll]
    omega
  rw [LOG2, BitVec.signExtend_eq_setWidth_of_msb_false hmsb]
  simp only [BitVec.toNat_setWidth, BitVec.toNat_sub, BitVec.toNat_mul, BitVec.toNat_ofNat, hclzll,
    Nat.reduceMul, Nat.reducePow, Nat.reduceMod]
  omega

/-- `LOG2` is the position of the highest bit. -/
theorem LOG2_eq {n : BitVec 64} (hn : n ≠ 0) : (LOG2 n).toNat = Nat.log2 n.toNat := by
  have hlt := toNat_clz_lt hn
  have hzero : n.toNat ≠ 0 := fun h => hn (BitVec.eq_of_toNat_eq h)
  rw [toNat_LOG2 hn, eq_comm, Nat.log2_eq_iff hzero]
  constructor
  · exact BitVec.two_pow_sub_clz_le_toNat_of_ne_zero (by decide) hn
  · rw [show 63 - n.clz.toNat + 1 = 64 - n.clz.toNat by omega]
    exact BitVec.toNat_lt_two_pow_sub_clz

theorem toNat_hexSize (n : BitVec 64) : (hexSize n).toNat = hexlen n.toNat := by
  by_cases hn : n = 0
  · subst hn
    rfl
  · have hzero : n.toNat ≠ 0 := fun h => hn (BitVec.eq_of_toNat_eq h)
    have hlog := LOG2_eq hn
    have hlt : Nat.log2 n.toNat < 64 := (Nat.log2_lt hzero).mpr n.isLt
    rw [hexSize, if_neg hn, hexlen, if_neg hzero]
    simp only [BitVec.toNat_add, BitVec.toNat_setWidth, BitVec.toNat_ushiftRight, hlog,
      Nat.shiftRight_eq_div_pow, BitVec.toNat_ofNat]
    omega

/-- **`hexlen` is the number of digits.** -/
theorem hexSize_eq (n : BitVec 64) : (hexSize n).toNat = (toHex n.toNat).length := by
  rw [toNat_hexSize, length_toHex_hexlen]

/-! ### The vector of a chunk -/

theorem hexlen_le {n : Nat} (h : n < 2 ^ 64) : hexlen n ≤ 16 := by
  unfold hexlen
  split_ifs with hn
  · omega
  · have hlog := (Nat.log2_lt hn).mpr h
    omega

theorem le_hexlen {n : Nat} (h : 2 ^ 60 ≤ n) : 16 ≤ hexlen n := by
  have hn : n ≠ 0 := by omega
  have hlog := (Nat.le_log2 hn).mpr h
  rw [hexlen, if_neg hn]
  omega

/-- **The size of the vector** is not wrapped but for the last twenty lengths. -/
theorem toNat_availBytesSize_iff (n : BitVec 64) :
    (availBytesSize n).toNat = n.toNat + (hexSize n).toNat + 4 ↔ n.toNat + 20 < 2 ^ 64 := by
  have hlt := n.isLt
  have hle := hexlen_le hlt
  have hge := le_hexlen (n := n.toNat)
  simp only [availBytesSize, BitVec.toNat_add, BitVec.toNat_ofNat, toNat_hexSize]
  omega

/-- **What `send_chunked` writes to the vector**: the digits, a line end directly behind them, the
data, and a line end. -/
theorem chunkWrites_eq {sizeLen : Nat} {data : Bytes} (h : sizeLen = (toHex data.length).length) :
    chunkWrites sizeLen data =
      [(0, toHex data.length), ((toHex data.length).length, CRLF), (sizeLen + 2, data),
        (sizeLen + 2 + data.length, CRLF)] := by
  have hroom : ¬ valueTooLarge sizeLen data.length := Nat.not_lt.mpr h.ge
  simp only [chunkWrites, if_neg hroom]

/-- **The length of the size is exact**, for every length: it is the number of digits that
`std::to_chars` writes, which so never reports `value_too_large`; what is written to the vector
fills it without gap or overrun; and the vector has the size that is meant for all lengths but those
of which the sum wraps. -/
theorem hexlen_exact (n : BitVec 64) :
    (hexSize n).toNat = (toHex n.toNat).length ∧
      ∀ data : Bytes, data.length = n.toNat →
        ¬ valueTooLarge (hexSize n).toNat data.length ∧
          chunkWrites (hexSize n).toNat data =
            [(0, toHex data.length), ((toHex data.length).length, CRLF),
              ((hexSize n).toNat + 2, data), ((hexSize n).toNat + 2 + data.length, CRLF)] ∧
          Fills (data.length + (hexSize n).toNat + 4) 0 (chunkWrites (hexSize n).toNat data) ∧
          chunkBytes data = toHex data.length ++ CRLF ++ data ++ CRLF ∧
          ((availBytesSize n).toNat = data.length + (hexSize n).toNat + 4 ↔
            data.length + 20 < 2 ^ 64) := by
  refine ⟨hexSize_eq n, ?_⟩
  intro data hdata
  have hsize : (hexSize n).toNat = (toHex data.length).length := hdata ▸ hexSize_eq n
  refine ⟨Nat.not_lt.mpr hsize.ge, chunkWrites_eq hsize, fills_chunkWrites hsize,
    chunkBytes_eq data, ?_⟩
  rw [hdata]
  exact toNat_availBytesSize_iff n

/-- Sixteen bytes are the first that need two digits. -/
theorem hexlen_exact_sixteen :
    (hexSize 16).toNat = 2 ∧
      Fills 22 0 (chunkWrites (hexSize 16).toNat (List.replicate 16 97)) :=
  ⟨(hexlen_exact 16).1, ((hexlen_exact 16).2 (List.replicate 16 97) rfl).2.2.1⟩

/-- On either side of every power of 16. -/
example : [0, 1, 15, 16, 255, 256, 0xFFFFFFFFFFFFFFF, 0x1000000000000000, 0xFFFFFFFFFFFFFFFF].map
    hexSize = [1, 1, 1, 2, 2, 3, 15, 16, 16] := by
  decide

end Attender.Http
