import Mathlib.Data.List.Basic

/-!
# Lexical paths

What a path means without the links of a file system: its components are walked
one by one from the root or from the working directory, where an empty
component and `.` stay and `..` goes up. A location is inside another when the
other is one of the directories on the way to it.
-/

namespace Attender.Library

/-- Where a path leads. -/
structure Location (α : Type*) where
  /-- It starts at the root, not at the working directory. -/
  absolute : Bool
  /-- How many directories above the start it leaves from. -/
  ups : Nat
  /-- The names of the directories on the way, the last innermost. -/
  names : List (List α)
  deriving DecidableEq

namespace Location

variable {α : Type*}

/-- The directory above. There is none above the root. -/
def up (l : Location α) : Location α :=
  if l.names = [] then if l.absolute then l else { l with ups := l.ups + 1 }
  else { l with names := l.names.dropLast }

/-- A directory inside. -/
def down (l : Location α) (name : List α) : Location α := { l with names := l.names ++ [name] }

/-- `l` is `r` or a descendant of it. -/
structure Inside (r l : Location α) : Prop where
  absolute : l.absolute = r.absolute
  ups : l.ups = r.ups
  names : r.names <+: l.names

/-- There is nothing above the root. -/
def IsTop (l : Location α) : Prop := l.absolute ∧ l.names = []

instance (l : Location α) : Decidable l.IsTop := inferInstanceAs (Decidable (_ ∧ _))

theorem Inside.refl (r : Location α) : Inside r r := ⟨rfl, rfl, List.prefix_refl _⟩

theorem Inside.trans {r l m : Location α} (h₁ : Inside r l) (h₂ : Inside l m) : Inside r m :=
  ⟨h₂.absolute.trans h₁.absolute, h₂.ups.trans h₁.ups, h₁.names.trans h₂.names⟩

theorem inside_down (r : Location α) (name : List α) : Inside r (r.down name) :=
  ⟨rfl, rfl, List.prefix_append _ _⟩

theorem up_absolute (l : Location α) : l.up.absolute = l.absolute := by
  unfold up
  split_ifs <;> rfl

theorem up_down (l : Location α) (name : List α) : (l.down name).up = l := by
  simp [up, down]

/-- Only the top is inside itself after `..`. -/
theorem inside_up_iff {r : Location α} : Inside r r.up ↔ r.IsTop := by
  unfold up
  split_ifs with hnames habs
  · exact iff_of_true (Inside.refl r) ⟨habs, hnames⟩
  · refine iff_of_false ?_ fun h => habs h.1
    intro h
    have := h.ups
    simp at this
  · refine iff_of_false ?_ fun h => hnames h.2
    intro h
    have := h.names.length_le
    have := List.length_pos_of_ne_nil hnames
    simp at *
    omega

/-- The directories on the way have one name at each depth. -/
theorem not_inside_of_ne {l m : Location α} {n n' : List α} (hne : n ≠ n')
    (h : (l.down n').Inside m) : ¬ (l.down n).Inside m := by
  intro h'
  have hlength : (l.names ++ [n]).length = (l.names ++ [n']).length := by simp
  have := List.prefix_of_prefix_length_le h'.names h.names (Nat.le_of_eq hlength)
  have := (List.prefix_append_right_inj l.names).mp this
  simp at this
  exact hne this

theorem not_inside_down (l : Location α) (n : List α) : ¬ (l.down n).Inside l := by
  intro h
  have := h.names.length_le
  rw [down, List.length_append, List.length_singleton] at this
  omega

end Location

/-! ### Components -/

section Components

variable {α : Type*} [DecidableEq α] (sep dot : α)

/-- A component that names a directory. -/
def IsName (c : List α) : Prop := c ≠ [] ∧ c ≠ [dot] ∧ c ≠ [dot, dot]

instance (c : List α) : Decidable (IsName dot c) := inferInstanceAs (Decidable (_ ∧ _ ∧ _))

/-- One component. -/
def walk (l : Location α) (c : List α) : Location α :=
  if c = [dot, dot] then l.up else if c = [] ∨ c = [dot] then l else l.down c

/-- Where a path leads. -/
def resolve (p : List α) : Location α :=
  (p.splitOn sep).foldl (walk dot) { absolute := p.head? = some sep, ups := 0, names := [] }

variable {sep dot}

omit [DecidableEq α] in
/-- A component with something else than dots is a name. -/
theorem isName_of_mem {c : List α} {b : α} (hmem : b ∈ c) (hb : b ≠ dot) : IsName dot c := by
  refine ⟨?_, ?_, ?_⟩ <;> rintro rfl <;> simp at hmem <;> exact hb hmem

theorem walk_dotdot (l : Location α) : walk dot l [dot, dot] = l.up := if_pos rfl

theorem walk_of_isName {l : Location α} {c : List α} (h : IsName dot c) :
    walk dot l c = l.down c := by
  rw [walk, if_neg h.2.2, if_neg (not_or.mpr ⟨h.1, h.2.1⟩)]

theorem walk_nil (l : Location α) : walk dot l [] = l := by
  rw [walk, if_neg (List.cons_ne_nil _ _).symm, if_pos (Or.inl rfl)]

/-- A walk ends on the side it starts on. -/
theorem resolve_absolute (p : List α) :
    (resolve sep dot p).absolute = decide (p.head? = some sep) := by
  have hwalk : ∀ (cs : List (List α)) (l : Location α),
      (cs.foldl (walk dot) l).absolute = l.absolute := by
    intro cs
    induction cs with
    | nil =>
      intro l
      exact rfl
    | cons c cs ih =>
      intro l
      rw [List.foldl_cons, ih, walk]
      split_ifs
      · exact l.up_absolute
      · rfl
      · rfl
  rw [resolve, hwalk]

/-- What is walked behind a separator. -/
theorem resolve_append_sep (a b : List α) :
    resolve sep dot (a ++ sep :: b) =
      (b.splitOn sep).foldl (walk dot) (resolve sep dot (a ++ [sep])) := by
  have hhead : (a ++ sep :: b).head? = (a ++ [sep]).head? := by cases a <;> rfl
  rw [resolve, resolve, hhead, List.splitOn_append_cons_self, List.splitOn_append_cons_self,
    List.foldl_append, List.foldl_append, List.splitOn_nil, List.foldl_cons, List.foldl_nil,
    walk_nil]

/-- A separator behind a path that is not empty leads nowhere else. -/
theorem resolve_concat_sep {a : List α} (ha : a ≠ []) :
    resolve sep dot (a ++ [sep]) = resolve sep dot a := by
  have hhead : (a ++ [sep]).head? = a.head? := by
    cases a with
    | nil => exact absurd rfl ha
    | cons b a => rfl
  rw [resolve, resolve, hhead, List.splitOn_append_cons_self, List.foldl_append, List.splitOn_nil,
    List.foldl_cons, List.foldl_nil, walk_nil]

/-- Without `..` a walk stays where it is, if no component is a name, or it goes down. -/
theorem walk_cases {cs : List (List α)} (hcs : [dot, dot] ∉ cs) (l : Location α) :
    ((∀ c ∈ cs, ¬ IsName dot c) ∧ cs.foldl (walk dot) l = l) ∨
      (∃ c ∈ cs, IsName dot c) ∧ ∃ m n, l.Inside m ∧ cs.foldl (walk dot) l = m.down n := by
  induction cs generalizing l with
  | nil => exact Or.inl ⟨by simp, rfl⟩
  | cons c cs ih =>
    rw [List.mem_cons, not_or] at hcs
    rw [List.foldl_cons]
    by_cases hc : IsName dot c
    · rw [walk_of_isName hc]
      refine Or.inr ⟨⟨c, List.mem_cons_self .., hc⟩, ?_⟩
      rcases ih hcs.2 (l.down c) with ⟨-, h⟩ | ⟨-, m, n, hm, h⟩
      · exact ⟨l, c, .refl l, h⟩
      · exact ⟨m, n, (l.inside_down c).trans hm, h⟩
    · have hstay : walk dot l c = l := by
        have : c = [] ∨ c = [dot] := by
          by_contra hne
          exact hc ⟨fun h => hne (Or.inl h), fun h => hne (Or.inr h), Ne.symm hcs.1⟩
        rw [walk, if_neg (Ne.symm hcs.1), if_pos this]
      rw [hstay]
      rcases ih hcs.2 l with ⟨hnone, h⟩ | ⟨⟨n, hmem, hn⟩, h⟩
      · exact Or.inl ⟨List.forall_mem_cons.mpr ⟨hc, hnone⟩, h⟩
      · exact Or.inr ⟨⟨n, List.mem_cons_of_mem c hmem, hn⟩, h⟩

/-- Without `..` a walk stays inside. -/
theorem inside_walk {cs : List (List α)} (hcs : [dot, dot] ∉ cs) (l : Location α) :
    l.Inside (cs.foldl (walk dot) l) := by
  rcases walk_cases hcs l with ⟨-, h⟩ | ⟨-, m, n, hm, h⟩
  · rw [h]
    exact .refl l
  · rw [h]
    exact hm.trans (m.inside_down n)

/-- **When a last `..` leaves**: no name is before it, and there is something above. -/
theorem inside_walk_concat_iff {cs : List (List α)} (hcs : [dot, dot] ∉ cs) (c : List α)
    (l : Location α) :
    l.Inside ((cs ++ [c]).foldl (walk dot) l) ↔
      c ≠ [dot, dot] ∨ (∃ n ∈ cs, IsName dot n) ∨ l.IsTop := by
  by_cases hc : c = [dot, dot]
  · simp only [hc, ne_eq, not_true_eq_false, false_or, List.foldl_append, List.foldl_cons,
      List.foldl_nil, walk_dotdot]
    rcases walk_cases hcs l with ⟨hnone, h⟩ | ⟨hname, m, n, hm, h⟩
    · rw [h, Location.inside_up_iff]
      exact (or_iff_right fun ⟨n, hmem, hn⟩ => hnone n hmem hn).symm
    · rw [h, Location.up_down]
      exact iff_of_true hm (Or.inl hname)
  · exact iff_of_true (inside_walk (by simp [hcs, Ne.symm hc]) l) (Or.inl hc)

/-- A walk with no `..` but the last leaves a directory for the one above it only. -/
theorem walk_down_cases {cs : List (List α)} (hcs : [dot, dot] ∉ cs.dropLast) (l : Location α)
    (n : List α) :
    cs.foldl (walk dot) (l.down n) = l ∨ (l.down n).Inside (cs.foldl (walk dot) (l.down n)) := by
  rcases List.eq_nil_or_concat cs with rfl | ⟨cs, c, rfl⟩
  · exact Or.inr (.refl _)
  · rw [List.concat_eq_append] at *
    rw [List.dropLast_concat] at hcs
    by_cases hc : c = [dot, dot]
    · rw [List.foldl_append, hc, List.foldl_cons, List.foldl_nil, walk_dotdot]
      rcases walk_cases hcs (l.down n) with ⟨-, h⟩ | ⟨-, m, n', hm, h⟩
      · rw [h, Location.up_down]
        exact Or.inl rfl
      · rw [h, Location.up_down]
        exact Or.inr hm
    · exact Or.inr ((inside_walk_concat_iff hcs c _).mpr (Or.inl hc))

/-- The components of two strings put together: the last of the first and the first of the second
are one. -/
theorem splitOn_append {a b : List α} {as bs : List (List α)} {x y : List α}
    (ha : a.splitOn sep = as ++ [x]) (hb : b.splitOn sep = y :: bs) :
    (a ++ b).splitOn sep = as ++ (x ++ y) :: bs := by
  induction a generalizing as x with
  | nil =>
    rw [List.splitOn_nil] at ha
    obtain ⟨rfl, rfl⟩ : as = [] ∧ x = [] := by
      cases as with
      | nil => simpa [eq_comm] using ha
      | cons c as => simp at ha
    rw [List.nil_append, hb, List.nil_append, List.nil_append]
  | cons c a ih =>
    rw [List.splitOn_cons_eq_if_modifyHead] at ha
    rw [List.cons_append, List.splitOn_cons_eq_if_modifyHead]
    rcases List.eq_nil_or_concat (a.splitOn sep) with h | ⟨as₀, x₀, h⟩
    · exact absurd h (List.splitOn_ne_nil _ _)
    · rw [List.concat_eq_append] at h
      rw [h] at ha
      split_ifs at ha ⊢ with hc
      · rw [← List.cons_append] at ha
        obtain ⟨rfl, hx⟩ := List.append_inj' ha rfl
        rw [← List.singleton_inj.mp hx, ih h, List.cons_append]
      · rw [ih h]
        cases as₀ with
        | nil =>
          have ha : [] ++ [c :: x₀] = as ++ [x] := ha
          obtain ⟨rfl, hx⟩ := List.append_inj' ha rfl
          rw [← List.singleton_inj.mp hx]
          rfl
        | cons q as₁ =>
          have ha : ((c :: q) :: as₁) ++ [x₀] = as ++ [x] := ha
          obtain ⟨rfl, hx⟩ := List.append_inj' ha rfl
          rw [← List.singleton_inj.mp hx]
          rfl

/-- **Glued paths**: when `b` is put behind `a` without a separator, the last component `x` of `a`
gets another name, and what is then walked is not inside `a`. -/
theorem not_inside_glued {a b x y : List α} {as bs : List (List α)} (ha : a.splitOn sep = as ++ [x])
    (hb : b.splitOn sep = y :: bs) (hhead : (a ++ b).head? = a.head?) (hx : IsName dot x)
    (hxy : IsName dot (x ++ y)) (hy : y ≠ []) (hbs : [dot, dot] ∉ bs.dropLast) :
    ¬ (resolve sep dot a).Inside (resolve sep dot (a ++ b)) := by
  let l := as.foldl (walk dot) { absolute := a.head? = some sep, ups := 0, names := [] }
  have hroot : resolve sep dot a = l.down x := by
    rw [resolve, ha, List.foldl_append, List.foldl_cons, List.foldl_nil, walk_of_isName hx]
  have hglued : resolve sep dot (a ++ b) = bs.foldl (walk dot) (l.down (x ++ y)) := by
    rw [resolve, splitOn_append ha hb, hhead, List.foldl_append, List.foldl_cons,
      walk_of_isName hxy]
  rw [hroot, hglued]
  rcases walk_down_cases hbs l (x ++ y) with h | h
  · rw [h]
    exact l.not_inside_down x
  · exact Location.not_inside_of_ne (fun hne => hy (List.self_eq_append_right.mp hne)) h

/-- A component that is not the last has a separator behind it. -/
theorem infix_of_mem_dropLast {s c : List α} (h : c ∈ (s.splitOn sep).dropLast) :
    c ++ [sep] <:+: s := by
  rw [show s = [sep].intercalate (s.splitOn sep) from (List.intercalate_splitOn sep).symm]
  generalize s.splitOn sep = cs at h
  induction cs with
  | nil => cases h
  | cons d cs ih =>
    cases cs with
    | nil => cases h
    | cons e cs =>
      rw [List.dropLast_cons_cons, List.mem_cons] at h
      rw [List.intercalate_cons_of_ne_nil (List.cons_ne_nil _ _)]
      rcases h with rfl | h
      · exact (List.prefix_append _ _).isInfix
      · exact (ih h).trans (List.suffix_append _ _).isInfix

end Components

end Attender.Library
