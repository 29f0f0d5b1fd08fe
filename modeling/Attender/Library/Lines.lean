import Attender.Library.Bytes

/-!
# Separators of two bytes

A string cut at the first occurrence of two bytes, and split at all of them. With
`CR` and `LF` the parts are lines. What is put together from strings that do not
hold the separator is split into them again.
-/

namespace Attender.Library

/-- What stands before the first occurrence of `x` and `y` in a row, and what stands behind it. -/
def cutPair (x y : Byte) : Bytes → Option (Bytes × Bytes)
  | [] => none
  | [_] => none
  | b :: c :: s =>
    if b = x ∧ c = y then some ([], s)
    else (cutPair x y (c :: s)).map fun p => (b :: p.1, p.2)

/-- The strings between the occurrences of `x` and `y` in a row. -/
def splitPair (x y : Byte) : Bytes → List Bytes
  | [] => [[]]
  | [b] => [[b]]
  | b :: c :: s =>
    if b = x ∧ c = y then [] :: splitPair x y s
    else (splitPair x y (c :: s)).modifyHead (b :: ·)

section Infix

variable {x y : Byte}

theorem pair_infix_cons_cons {b c : Byte} {s : Bytes} :
    [x, y] <:+: b :: c :: s ↔ (b = x ∧ c = y) ∨ [x, y] <:+: c :: s := by
  rw [List.infix_cons_iff, List.cons_prefix_cons, List.cons_prefix_cons]
  simp only [List.nil_prefix, and_true, eq_comm]

theorem not_pair_infix_singleton (b : Byte) : ¬ [x, y] <:+: [b] := by
  intro h
  simpa using h.length_le

/-- Two bytes in a row are on one side of a seam, or they make it. -/
theorem pair_infix_append {s t : Bytes} :
    [x, y] <:+: s ++ t ↔
      [x, y] <:+: s ∨ [x, y] <:+: t ∨ (s.getLast? = some x ∧ t.head? = some y) := by
  rw [List.infix_append_iff_ne_nil]
  refine or_congr_right (or_congr_right ?_)
  constructor
  · rintro ⟨l₁, l₂, h₁, h₂, h, ⟨s', rfl⟩, ⟨t', rfl⟩⟩
    match l₁, l₂, h with
    | [], _, _ => exact absurd rfl h₁
    | [a], [b], h =>
      simp only [List.cons_append, List.nil_append, List.cons.injEq, and_true] at h
      simp [h]
    | [a], [], _ => exact absurd rfl h₂
    | [a], b :: c :: l, h => simp at h
    | a :: a' :: l, b :: l', h => simp at h
    | a :: a' :: l, [], _ => exact absurd rfl h₂
  · rintro ⟨hs, ht⟩
    obtain ⟨s', rfl⟩ := List.getLast?_eq_some_iff.mp hs
    obtain ⟨t', rfl⟩ := List.head?_eq_some_iff.mp ht
    exact ⟨[x], [y], by simp, by simp, rfl, ⟨s', rfl⟩, ⟨t', rfl⟩⟩

/-- A byte that is neither of the two parts what is before it from what is behind it. -/
theorem pair_infix_append_cons {s t : Bytes} {b : Byte} (hx : b ≠ x) (hy : b ≠ y) :
    [x, y] <:+: s ++ b :: t ↔ [x, y] <:+: s ∨ [x, y] <:+: t := by
  rw [pair_infix_append, List.infix_cons_iff, List.cons_prefix_cons]
  simp [hx.symm, hy]

/-- So does a string without the two. -/
theorem pair_infix_append_append {s m t : Bytes} (hm : m ≠ []) (hx : x ∉ m) (hy : y ∉ m) :
    [x, y] <:+: s ++ (m ++ t) ↔ [x, y] <:+: s ∨ [x, y] <:+: t := by
  induction m generalizing s with
  | nil => exact absurd rfl hm
  | cons b m ih =>
    rw [List.mem_cons, not_or] at hx hy
    rw [List.cons_append, pair_infix_append_cons (Ne.symm hx.1) (Ne.symm hy.1)]
    by_cases hnil : m = []
    · rw [hnil, List.nil_append]
    · have hrest := ih (s := []) hnil hx.2 hy.2
      rw [List.nil_append] at hrest
      rw [hrest]
      simp

/-- A string without one of the two bytes does not hold them in a row. -/
theorem not_pair_infix_of_not_mem {s : Bytes} (h : x ∉ s) : ¬ [x, y] <:+: s := by
  intro hs
  exact h (hs.subset (List.mem_cons_self ..))

end Infix

/-! ### The first occurrence -/

variable {x y : Byte}

/-- **What is cut off** is what stands before the first occurrence. -/
theorem cutPair_eq_some_iff (hxy : x ≠ y) {s a b : Bytes} :
    cutPair x y s = some (a, b) ↔ s = a ++ x :: y :: b ∧ ¬ [x, y] <:+: a := by
  induction s using cutPair.induct (x := x) (y := y) generalizing a with
  | case1 => simp [cutPair]
  | case2 c => cases a <;> simp [cutPair]
  | case3 c d s hcd =>
    obtain ⟨rfl, rfl⟩ := hcd
    simp only [cutPair, and_self, if_true, Option.some.injEq, Prod.mk.injEq]
    constructor
    · rintro ⟨rfl, rfl⟩
      exact ⟨rfl, by simp⟩
    · rintro ⟨h, ha⟩
      match a, h, ha with
      | [], h, _ => simpa using h
      | [e], h, _ =>
        simp only [List.cons_append, List.nil_append, List.cons.injEq] at h
        exact absurd h.2.1.symm hxy
      | e :: e' :: a, h, ha =>
        simp only [List.cons_append, List.cons.injEq] at h
        exact absurd (pair_infix_cons_cons.mpr (Or.inl ⟨h.1.symm, h.2.1.symm⟩)) ha
  | case4 c d s hcd ih =>
    simp only [cutPair, if_neg hcd, Option.map_eq_some_iff, Prod.exists, Prod.mk.injEq]
    constructor
    · rintro ⟨a', b', e, rfl, rfl⟩
      obtain ⟨h, ha⟩ := ih.mp e
      refine ⟨by rw [h]; rfl, ?_⟩
      cases a' with
      | nil => exact not_pair_infix_singleton c
      | cons e' a' =>
        simp only [List.cons_append, List.cons.injEq] at h
        rw [pair_infix_cons_cons, ← h.1]
        exact not_or.mpr ⟨hcd, h.1 ▸ ha⟩
    · rintro ⟨h, ha⟩
      cases a with
      | nil =>
        simp only [List.nil_append, List.cons.injEq] at h
        exact absurd ⟨h.1, h.2.1⟩ hcd
      | cons e a =>
        simp only [List.cons_append, List.cons.injEq] at h
        obtain ⟨rfl, h⟩ := h
        exact ⟨a, b, ih.mpr ⟨h, fun hi => ha (List.infix_cons hi)⟩, rfl, rfl⟩

theorem cutPair_eq_none_iff {s : Bytes} : cutPair x y s = none ↔ ¬ [x, y] <:+: s := by
  induction s using cutPair.induct (x := x) (y := y) with
  | case1 => simp [cutPair]
  | case2 b => simp [cutPair, not_pair_infix_singleton]
  | case3 b c s h => simp [cutPair, h, pair_infix_cons_cons]
  | case4 b c s h ih => simp [cutPair, h, pair_infix_cons_cons, ih]

/-! ### All occurrences -/

/-- The first string, and the others. -/
theorem splitPair_eq (x y : Byte) (s : Bytes) :
    splitPair x y s =
      match cutPair x y s with
      | none => [s]
      | some (a, b) => a :: splitPair x y b := by
  induction s using cutPair.induct (x := x) (y := y) with
  | case1 => rfl
  | case2 b => rfl
  | case3 b c s h => simp [splitPair, cutPair, h]
  | case4 b c s h ih =>
    rw [splitPair, if_neg h, ih, cutPair, if_neg h]
    cases cutPair x y (c :: s) <;> rfl

/-- A string without the separator in front of it is the first one. -/
theorem splitPair_append (hxy : x ≠ y) {s : Bytes} (h : ¬ [x, y] <:+: s) (t : Bytes) :
    splitPair x y (s ++ x :: y :: t) = s :: splitPair x y t := by
  rw [splitPair_eq, (cutPair_eq_some_iff hxy).mpr ⟨rfl, h⟩]

/-- **Splitting undoes joining**: strings with the separator behind each are split again. -/
theorem splitPair_flatMap (hxy : x ≠ y) {ss : List Bytes} (h : ∀ s ∈ ss, ¬ [x, y] <:+: s)
    (t : Bytes) :
    splitPair x y ((ss.flatMap fun s => s ++ [x, y]) ++ t) = ss ++ splitPair x y t := by
  induction ss with
  | nil => rfl
  | cons s ss ih =>
    obtain ⟨hs, hss⟩ := List.forall_mem_cons.mp h
    rw [List.flatMap_cons, List.append_assoc, List.append_assoc, List.cons_append,
      List.cons_append, List.nil_append, splitPair_append hxy hs, ih hss, List.cons_append]

/-- No string that comes of splitting holds the separator. -/
theorem not_infix_of_mem_splitPair (hxy : x ≠ y) {s l : Bytes} (h : l ∈ splitPair x y s) :
    ¬ [x, y] <:+: l := by
  induction hlength : s.length using Nat.strong_induction_on generalizing s with
  | _ n ih =>
    rw [splitPair_eq] at h
    cases hcut : cutPair x y s with
    | none =>
      rw [hcut, List.mem_singleton] at h
      rw [h]
      exact cutPair_eq_none_iff.mp hcut
    | some ab =>
      obtain ⟨a, b⟩ := ab
      obtain ⟨rfl, ha⟩ := (cutPair_eq_some_iff hxy).mp hcut
      rw [hcut] at h
      rcases List.mem_cons.mp h with rfl | h
      · exact ha
      · refine ih b.length ?_ h rfl
        rw [← hlength, List.length_append, List.length_cons, List.length_cons]
        omega

end Attender.Library
