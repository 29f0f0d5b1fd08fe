import Mathlib.Data.List.AList
import Mathlib.Data.List.DropRight
import Mathlib.Data.List.Infix

/-!
# Byte strings

`std::string` as a list of bytes, with the parts of the C and Boost string
libraries that the models use: the character classes of the classic locale,
trimming, case folding, and splitting at separators with or without the
compression of adjacent separators.
-/

namespace Attender.Library

/-- A byte. -/
abbrev Byte := UInt8

/-- A byte string. -/
abbrev Bytes := List Byte

/-- A map from strings to strings, at most one entry a key. -/
abbrev StringMap := AList fun _ : Bytes => Bytes

/-- The bytes of an ASCII text. -/
def bytes (s : String) : Bytes := s.toList.map Char.toUInt8

/-- The space. -/
abbrev SP : Byte := 32

/-- The carriage return. -/
abbrev CR : Byte := 13

/-- The line feed. -/
abbrev LF : Byte := 10

/-- The end of a line. -/
abbrev CRLF : Bytes := [CR, LF]

/-! ### Character classes -/

/-- `std::isspace` in the classic locale. -/
def isSpace (b : Byte) : Bool := b == 32 || (9 ≤ b && b ≤ 13)

/-- `std::isdigit`. -/
def isDigit (b : Byte) : Bool := 48 ≤ b && b ≤ 57

/-- `std::isalnum` in the classic locale: no byte above 127 is a letter. -/
def isAlnum (b : Byte) : Bool := isDigit b || (65 ≤ b && b ≤ 90) || (97 ≤ b && b ≤ 122)

/-- `std::tolower` in the classic locale. -/
def toLower (b : Byte) : Byte := if 65 ≤ b && b ≤ 90 then b + 32 else b

/-- A letter or a digit is neither a blank nor a sign. -/
theorem isAlnum_not_space {b : Byte} (hb : isAlnum b) : isSpace b = false ∧ b ≠ 45 ∧ b ≠ 43 := by
  simp only [isAlnum, isDigit, Bool.or_eq_true, Bool.and_eq_true, decide_eq_true_eq,
    UInt8.le_iff_toNat_le, UInt8.reduceToNat] at hb
  refine ⟨?_, ?_, ?_⟩
  · simp only [isSpace, Bool.or_eq_false_iff, beq_eq_false_iff_ne, Bool.and_eq_false_iff,
      decide_eq_false_iff_not, UInt8.le_iff_toNat_le, UInt8.reduceToNat, ne_eq,
      ← UInt8.toNat_inj]
    omega
  · rintro rfl
    exact absurd hb (by decide)
  · rintro rfl
    exact absurd hb (by decide)

/-! ### Trimming -/

/-- `boost::algorithm::trim_left_copy`. -/
def trimLeft (s : Bytes) : Bytes := s.dropWhile isSpace

/-- `boost::algorithm::trim_right_copy`. -/
def trimRight (s : Bytes) : Bytes := s.rdropWhile isSpace

/-- The blanks in front of a string that does not begin with one. -/
theorem trimLeft_append {blanks s : Bytes} (hblanks : ∀ b ∈ blanks, isSpace b = true)
    (hs : ∀ b ∈ s.head?, isSpace b = false) : trimLeft (blanks ++ s) = s := by
  rw [trimLeft, List.dropWhile_append_of_pos hblanks]
  cases s with
  | nil => rfl
  | cons b s => rw [List.dropWhile_cons_of_neg (by rw [hs b rfl]; exact Bool.false_ne_true)]

/-- `boost::algorithm::to_lower_copy`. -/
def toLowerCopy (s : Bytes) : Bytes := s.map toLower

/-! ### Letter case -/

/-- A letter of ASCII. -/
def isLetter (b : Byte) : Bool := (65 ≤ b && b ≤ 90) || (97 ≤ b && b ≤ 122)

@[simp] theorem isLetter_toLower (b : Byte) : isLetter (toLower b) = isLetter b := by
  unfold isLetter toLower
  grind

@[simp] theorem isAlnum_toLower (b : Byte) : isAlnum (toLower b) = isAlnum b := by
  unfold isAlnum isDigit toLower
  grind

@[simp] theorem isSpace_toLower (b : Byte) : isSpace (toLower b) = isSpace b := by
  unfold isSpace toLower
  grind

/-- A byte that is no letter has no other case. -/
theorem toLower_of_not_isLetter {b : Byte} (h : isLetter b = false) : toLower b = b := by
  unfold isLetter at h
  unfold toLower
  grind

theorem eq_of_toLower_eq {b c : Byte} (h : toLower b = toLower c) (hb : isLetter b = false) :
    b = c := by
  have hc : isLetter c = false := by rw [← isLetter_toLower c, ← h, isLetter_toLower, hb]
  rw [← toLower_of_not_isLetter hb, h, toLower_of_not_isLetter hc]

/-- Trimming looks at no letter. -/
theorem trimRight_map {f : Byte → Byte} (hf : ∀ b, isSpace (f b) = isSpace b) (s : Bytes) :
    trimRight (s.map f) = (trimRight s).map f := by
  have hspace : isSpace ∘ f = isSpace := funext hf
  rw [trimRight, List.rdropWhile, ← List.map_reverse, List.dropWhile_map, hspace,
    ← List.map_reverse]
  rfl

/-! ### Splitting -/

/-- Adjacent separators merged into one. -/
def mergeSeps (sep : Byte → Bool) : Bytes → Bytes
  | [] => []
  | [b] => [b]
  | b :: c :: bs => if sep b && sep c then mergeSeps sep (c :: bs) else b :: mergeSeps sep (c :: bs)

/-- `boost::algorithm::split` with `token_compress_off`: every two separators delimit a token. -/
def split (sep : Byte → Bool) (s : Bytes) : List Bytes := s.splitOnP sep

/-- `boost::algorithm::split` with `token_compress_on`: adjacent separators are one. -/
def splitCompress (sep : Byte → Bool) (s : Bytes) : List Bytes := split sep (mergeSeps sep s)

section Compress

variable {seps : Byte → Bool}

/-- Where no separators are adjacent, none are merged. -/
theorem mergeSeps_of_forall {s : Bytes} (hs : ∀ b ∈ s, seps b = false) : mergeSeps seps s = s := by
  induction s with
  | nil => rfl
  | cons b s ih =>
    obtain ⟨hb, htail⟩ := List.forall_mem_cons.mp hs
    cases s with
    | nil => rfl
    | cons c s => rw [mergeSeps, hb, Bool.false_and, if_neg Bool.false_ne_true, ih htail]

theorem mergeSeps_append_cons {s t : Bytes} {sep b : Byte} (hs : ∀ b ∈ s, seps b = false)
    (hb : seps b = false) :
    mergeSeps seps (s ++ sep :: b :: t) = s ++ sep :: mergeSeps seps (b :: t) := by
  induction s with
  | nil => rw [List.nil_append, mergeSeps, hb, Bool.and_false, if_neg Bool.false_ne_true]; rfl
  | cons c s ih =>
    obtain ⟨hc, htail⟩ := List.forall_mem_cons.mp hs
    obtain ⟨d, u, hu⟩ : ∃ d u, s ++ sep :: b :: t = d :: u :=
      List.exists_cons_of_ne_nil (by simp)
    have hrest := ih htail
    rw [List.cons_append, hu, mergeSeps, hc, Bool.false_and, if_neg Bool.false_ne_true, ← hu, hrest,
      List.cons_append]

theorem splitCompress_of_forall {s : Bytes} (hs : ∀ b ∈ s, seps b = false) :
    splitCompress seps s = [s] := by
  rw [splitCompress, mergeSeps_of_forall hs, split, List.splitOnP_eq_singleton hs]

/-- **The first token**, if the second does not begin with a separator too. -/
theorem splitCompress_append_cons {s t : Bytes} {sep b : Byte} (hs : ∀ b ∈ s, seps b = false)
    (hsep : seps sep) (hb : seps b = false) :
    splitCompress seps (s ++ sep :: b :: t) = s :: splitCompress seps (b :: t) := by
  rw [splitCompress, mergeSeps_append_cons hs hb, split,
    List.splitOnP_append_cons_of_forall_mem hs sep hsep]
  rfl

end Compress

/-- A string cut at the first occurrence of a byte, which is dropped: `find` and the
two `substr` around the position found. -/
def cut (sep : Byte) : Bytes → Option (Bytes × Bytes)
  | [] => none
  | b :: bs => if b = sep then some ([], bs) else (cut sep bs).map fun p => (b :: p.1, p.2)

theorem cut_eq_some_iff {sep : Byte} {s l r : Bytes} :
    cut sep s = some (l, r) ↔ s = l ++ sep :: r ∧ sep ∉ l := by
  induction s generalizing l with
  | nil => simp [cut]
  | cons b bs ih =>
    rw [cut]
    split_ifs with h
    · subst h
      cases l with
      | nil => simp [eq_comm]
      | cons a l =>
        simp only [Option.some.injEq, Prod.mk.injEq, List.nil_eq, reduceCtorEq, false_and,
          List.cons_append, List.cons.injEq, List.mem_cons, not_or, false_iff, not_and, not_not]
        rintro ⟨rfl, -⟩ h
        exact absurd rfl h
    · cases l with
      | nil => simp [h]
      | cons a l =>
        simp only [Option.map_eq_some_iff, Prod.mk.injEq, List.cons.injEq, Prod.exists,
          List.cons_append, List.mem_cons, not_or]
        constructor
        · rintro ⟨l', r', e, ⟨rfl, rfl⟩, rfl⟩
          obtain ⟨rfl, hn⟩ := ih.mp e
          exact ⟨⟨rfl, rfl⟩, Ne.symm h, hn⟩
        · rintro ⟨⟨rfl, e⟩, -, hn⟩
          exact ⟨l, r, ih.mpr ⟨e, hn⟩, ⟨rfl, rfl⟩, rfl⟩

theorem cut_eq_none_iff {sep : Byte} {s : Bytes} : cut sep s = none ↔ sep ∉ s := by
  induction s with
  | nil => simp [cut]
  | cons b bs ih =>
    rw [cut]
    split_ifs with h
    · simp [h]
    · simp [ih, Ne.symm h]

/-- A string cut at the last occurrence of a byte, which is dropped: `find_last_of` and the two
`substr` around the position found. -/
def cutLast (sep : Byte) (s : Bytes) : Option (Bytes × Bytes) :=
  (cut sep s.reverse).map fun p => (p.2.reverse, p.1.reverse)

theorem cutLast_eq_some_iff {sep : Byte} {s l r : Bytes} :
    cutLast sep s = some (l, r) ↔ s = l ++ sep :: r ∧ sep ∉ r := by
  simp only [cutLast, Option.map_eq_some_iff, Prod.exists, Prod.mk.injEq, cut_eq_some_iff]
  constructor
  · rintro ⟨r', l', ⟨h, hn⟩, rfl, rfl⟩
    refine ⟨?_, by simpa using hn⟩
    rw [← List.reverse_reverse s, h]
    simp
  · rintro ⟨rfl, hn⟩
    exact ⟨r.reverse, l.reverse, ⟨by simp, by simpa using hn⟩, by simp, by simp⟩

theorem cutLast_eq_none_iff {sep : Byte} {s : Bytes} : cutLast sep s = none ↔ sep ∉ s := by
  rw [cutLast, Option.map_eq_none_iff, cut_eq_none_iff, List.mem_reverse]

/-! ### Joining -/

/-- Strings with a separator between every two. -/
def join (sep : Byte) (ss : List Bytes) : Bytes := [sep].intercalate ss

@[simp] theorem join_nil (sep : Byte) : join sep [] = [] := rfl

@[simp] theorem join_singleton (sep : Byte) (s : Bytes) : join sep [s] = s := by
  simp [join, List.intercalate]

@[simp] theorem join_cons_cons (sep : Byte) (s t : Bytes) (ss : List Bytes) :
    join sep (s :: t :: ss) = s ++ sep :: join sep (t :: ss) := by
  simp [join, List.intercalate]

/-- The separator stands before each string but the first. -/
theorem join_cons (sep : Byte) (s : Bytes) (ss : List Bytes) :
    join sep (s :: ss) = s ++ ss.flatMap fun s => sep :: s := by
  induction ss generalizing s with
  | nil => simp
  | cons t ss ih => rw [join_cons_cons, ih t, List.flatMap_cons, List.cons_append]

/-- With an empty string in front, the separator stands before each string. -/
theorem join_nil_cons (sep : Byte) (ss : List Bytes) :
    join sep ([] :: ss) = ss.flatMap fun s => sep :: s :=
  (join_cons sep [] ss).trans (List.nil_append _)

/-- Joining undoes splitting. -/
theorem join_split (sep : Byte) (s : Bytes) : join sep (split (· == sep) s) = s :=
  List.intercalate_splitOn sep

/-- Splitting undoes joining, if no string holds a separator. -/
theorem split_join {seps : Byte → Bool} {sep : Byte} (hsep : seps sep) {ss : List Bytes}
    (hne : ss ≠ []) (hss : ∀ s ∈ ss, ∀ b ∈ s, seps b = false) : split seps (join sep ss) = ss := by
  induction ss with
  | nil => exact absurd rfl hne
  | cons s ss ih =>
    rw [List.forall_mem_cons] at hss
    cases ss with
    | nil => rw [join_singleton, split, List.splitOnP_eq_singleton hss.1]
    | cons t ss =>
      have htail := ih (List.cons_ne_nil t ss) hss.2
      rw [split] at htail
      rw [join_cons_cons, split, List.splitOnP_append_cons_of_forall_mem hss.1 sep hsep, htail]

/-- The tokens of a split hold no separator, and no byte that was not there. -/
theorem mem_of_mem_split {seps : Byte → Bool} {s t : Bytes} (ht : t ∈ split seps s) {b : Byte}
    (hb : b ∈ t) : b ∈ s ∧ seps b = false := by
  induction s generalizing t with
  | nil =>
    rw [split, List.splitOnP_nil, List.mem_singleton] at ht
    subst ht
    exact absurd hb List.not_mem_nil
  | cons c s ih =>
    rw [split, List.splitOnP_cons_eq_if_modifyHead] at ht
    split_ifs at ht with hc
    · rcases List.mem_cons.mp ht with rfl | ht
      · exact absurd hb List.not_mem_nil
      · exact ⟨List.mem_cons_of_mem c (ih ht hb).1, (ih ht hb).2⟩
    · obtain ⟨u, us, e⟩ := List.exists_cons_of_ne_nil (List.splitOnP_ne_nil seps s)
      rw [e, List.modifyHead_cons, List.mem_cons] at ht
      rcases ht with rfl | ht
      · rcases List.mem_cons.mp hb with rfl | hb
        · exact ⟨List.mem_cons_self .., by simpa using hc⟩
        · have hu := ih (t := u) (by rw [split, e]; exact List.mem_cons_self ..) hb
          exact ⟨List.mem_cons_of_mem c hu.1, hu.2⟩
      · have hu := ih (t := t) (by rw [split, e]; exact List.mem_cons_of_mem u ht) hb
        exact ⟨List.mem_cons_of_mem c hu.1, hu.2⟩

example : splitCompress (· == 59) (bytes "a=b;;c=d;") = [bytes "a=b", bytes "c=d", []] := by decide

/-! ### Vectors -/

/-- A part of a vector written over. -/
def overwrite (v : Bytes) (pos : Nat) (data : Bytes) : Bytes :=
  v.take pos ++ data ++ v.drop (pos + data.length)

/-- What is written behind the written part of a vector. -/
theorem overwrite_append (v : Bytes) (n : Nat) (data : Bytes) :
    overwrite (v ++ List.replicate n 0) v.length data =
      (v ++ data) ++ List.replicate (n - data.length) 0 := by
  rw [overwrite, List.take_left, List.drop_append, List.drop_of_length_le (Nat.le_add_right ..),
    List.nil_append, Nat.add_sub_cancel_left, List.drop_replicate]

/-- What is written at the front of a vector stands there. -/
theorem take_overwrite_zero (v data : Bytes) : (overwrite v 0 data).take data.length = data := by
  rw [overwrite, List.take_zero, List.nil_append, List.take_left]

theorem length_overwrite_zero {v data : Bytes} (h : data.length ≤ v.length) :
    (overwrite v 0 data).length = v.length := by
  rw [overwrite, List.take_zero, List.nil_append, List.length_append, List.length_drop]
  omega

/-! ### Vectors filled piece by piece -/

/-- Pieces written over parts of a vector, each at its position. -/
def writePieces (v : Bytes) (pieces : List (Nat × Bytes)) : Bytes :=
  pieces.foldl (fun v piece => overwrite v piece.1 piece.2) v

/-- Each piece begins where the one before it ends, the first at `start`, and the last ends with a
vector of some size. -/
def Fills (size : Nat) : Nat → List (Nat × Bytes) → Prop
  | start, [] => start = size
  | start, (pos, piece) :: pieces => pos = start ∧ Fills size (start + piece.length) pieces

/-- What is behind the written part is written over, and nothing else. -/
theorem Fills.writePieces_eq {size : Nat} {v : Bytes} {pieces : List (Nat × Bytes)}
    (h : Fills size v.length pieces) :
    writePieces (v ++ List.replicate (size - v.length) 0) pieces =
      v ++ (pieces.map Prod.snd).flatten := by
  induction pieces generalizing v with
  | nil =>
    have hsize : v.length = size := h
    simp [writePieces, hsize]
  | cons piece pieces ih =>
    obtain ⟨pos, piece⟩ := piece
    obtain ⟨hpos, hrest⟩ := h
    rw [← List.length_append] at hrest
    have hih := ih hrest
    rw [List.length_append, Nat.sub_add_eq] at hih
    simp only [writePieces, List.foldl_cons, hpos, overwrite_append]
    exact hih.trans (by simp)

end Attender.Library
