import Mathlib.Data.List.Forall2
import Mathlib.Data.List.Infix

/-!
# Texts that say where they end

A reader takes a value off the front of a text. It reads a word as a value
(`Reads`) if it takes the word off whatever stands behind it, and takes nothing
off a text that ends within the word. Readers one after the other read the words
one after the other (`Reads.bind`, `Reads.untilStop`).
-/

namespace Attender.Library

variable {α β γ : Type*}

/-- What takes a value off the front of a text, if it is there. -/
abbrev Reader (β α : Type*) := List β → Option (α × List β)

namespace Reader

/-- Nothing is taken off. -/
def pure (a : α) : Reader β α := fun s => some (a, s)

/-- No text is read. -/
def fail : Reader β α := fun _ => none

/-- What the second reader reads may depend on the value of the first. -/
def bind (d : Reader β α) (f : α → Reader β γ) : Reader β γ :=
  fun s => (d s).bind fun p => f p.1 p.2

/-- As many items. -/
def take (n : Nat) : Reader β (List β) :=
  fun s => if n ≤ s.length then some (s.take n, s.drop n) else none

/-- The values in front of the first at which to stop, which is taken off too. -/
def upTo (d : Reader β α) (stop : α → Prop) [DecidablePred stop] : Nat → Reader β (List α)
  | 0 => fail
  | fuel + 1 => d.bind fun a =>
    if stop a then pure [] else (upTo d stop fuel).bind fun as => pure (a :: as)

/-- `upTo`, with as much fuel as can be needed if every value takes at least one item. -/
def untilStop (d : Reader β α) (stop : α → Prop) [DecidablePred stop] : Reader β (List α) :=
  fun s => d.upTo stop (s.length + 1) s

end Reader

/-- A reader takes the word off for the value, and nothing off a part of the word. -/
structure Reads (d : Reader β α) (w : List β) (a : α) : Prop where
  whole : ∀ rest, d (w ++ rest) = some (a, rest)
  part : ∀ {s}, s <+: w → s ≠ w → d s = none

/-- What is a part of two words is a part of the first, or has it in front. -/
theorem prefix_append_cases {s w v : List β} (h : s <+: w ++ v) (hne : s ≠ w ++ v) :
    (s <+: w ∧ s ≠ w) ∨ ∃ t, s = w ++ t ∧ t <+: v ∧ t ≠ v := by
  rcases List.prefix_or_prefix_of_prefix h (List.prefix_append w v) with hs | ⟨t, rfl⟩
  · by_cases he : s = w
    · refine Or.inr ⟨[], by rw [he, List.append_nil], List.nil_prefix, ?_⟩
      rintro rfl
      exact hne (by rw [he, List.append_nil])
    · exact Or.inl ⟨hs, he⟩
  · refine Or.inr ⟨t, rfl, (List.prefix_append_right_inj w).mp h, ?_⟩
    rintro rfl
    exact hne rfl

namespace Reads

variable {d : Reader β α} {w v : List β} {a : α}

theorem pure (a : α) : Reads (Reader.pure a) ([] : List β) a where
  whole _ := rfl
  part hs hne := absurd (List.prefix_nil.mp hs) hne

/-- **One after the other**. -/
theorem bind {f : α → Reader β γ} {c : γ} (h : Reads d w a) (hf : Reads (f a) v c) :
    Reads (d.bind f) (w ++ v) c where
  whole rest := by
    rw [Reader.bind, List.append_assoc, h.whole, Option.bind_some, hf.whole]
  part {s} hs hne := by
    rw [Reader.bind]
    rcases prefix_append_cases hs hne with ⟨hs, hne⟩ | ⟨t, rfl, ht, hne⟩
    · rw [h.part hs hne, Option.bind_none]
    · rw [h.whole, Option.bind_some, hf.part ht hne]

/-- What is read is changed. -/
theorem map {c : γ} {f : α → Reader β γ} (h : Reads d w a) (hf : f a = Reader.pure c) :
    Reads (d.bind f) w c := by
  have hbind := h.bind (f := f) (hf ▸ pure c)
  rwa [List.append_nil] at hbind

theorem take (w : List β) : Reads (Reader.take w.length) w w where
  whole rest := by
    rw [Reader.take, if_pos (by simp), List.take_left, List.drop_left]
  part {s} hs hne := by
    refine if_neg fun hle => hne ?_
    exact hs.eq_of_length_le hle

section UntilStop

variable {stop : α → Prop} [DecidablePred stop] {ws : List (List β)} {as : List α} {last : α}

/-- On a part of the words there is no fuel with which the end is found. -/
theorem upTo_part (h : List.Forall₂ (Reads d) ws as) (hgo : ∀ a ∈ as, ¬ stop a)
    (hlast : Reads d w last) (fuel : Nat) {s : List β} (hs : s <+: ws.flatten ++ w)
    (hne : s ≠ ws.flatten ++ w) : d.upTo stop fuel s = none := by
  induction h generalizing fuel s with
  | nil =>
    cases fuel with
    | zero => rfl
    | succ fuel => rw [Reader.upTo, Reader.bind, hlast.part hs hne, Option.bind_none]
  | @cons word a ws as hword _ ih =>
    rw [List.forall_mem_cons] at hgo
    cases fuel with
    | zero => rfl
    | succ fuel =>
      rw [List.flatten_cons, List.append_assoc] at hs hne
      rw [Reader.upTo, Reader.bind]
      rcases prefix_append_cases hs hne with ⟨hs, hne⟩ | ⟨t, rfl, ht, hne⟩
      · rw [hword.part hs hne, Option.bind_none]
      · rw [hword.whole, Option.bind_some, if_neg hgo.1, Reader.bind, ih hgo.2 fuel ht hne,
          Option.bind_none]

/-- With more fuel than there are values, the end is found. -/
theorem upTo_whole (h : List.Forall₂ (Reads d) ws as) (hgo : ∀ a ∈ as, ¬ stop a)
    (hlast : Reads d w last) (hstop : stop last) {fuel : Nat} (hfuel : as.length < fuel)
    (rest : List β) : d.upTo stop fuel (ws.flatten ++ w ++ rest) = some (as, rest) := by
  induction h generalizing fuel with
  | nil =>
    cases fuel with
    | zero => exact absurd hfuel (Nat.not_lt_zero _)
    | succ fuel =>
      rw [Reader.upTo, Reader.bind, List.flatten_nil, List.nil_append, hlast.whole,
        Option.bind_some, if_pos hstop]
      rfl
  | @cons word a ws as hword _ ih =>
    rw [List.forall_mem_cons] at hgo
    cases fuel with
    | zero => exact absurd hfuel (Nat.not_lt_zero _)
    | succ fuel =>
      rw [Reader.upTo, Reader.bind, List.flatten_cons, List.append_assoc, List.append_assoc,
        hword.whole, Option.bind_some, if_neg hgo.1, Reader.bind, ← List.append_assoc,
        ih hgo.2 (Nat.lt_of_succ_lt_succ hfuel)]
      rfl

/-- **One after the other up to the last**, when no word is empty. -/
theorem untilStop (h : List.Forall₂ (Reads d) ws as) (hgo : ∀ a ∈ as, ¬ stop a)
    (hlast : Reads d w last) (hstop : stop last) (hwords : ∀ word ∈ ws, word ≠ []) :
    Reads (d.untilStop stop) (ws.flatten ++ w) as where
  whole rest := by
    have hcount : ∀ ws : List (List β), (∀ word ∈ ws, word ≠ []) →
        ws.length ≤ ws.flatten.length := by
      intro ws hwords
      induction ws with
      | nil => exact le_rfl
      | cons word ws ih =>
        rw [List.forall_mem_cons] at hwords
        have hpos := List.length_pos_iff.mpr hwords.1
        have hrest := ih hwords.2
        rw [List.flatten_cons, List.length_append, List.length_cons]
        omega
    refine upTo_whole h hgo hlast hstop ?_ rest
    rw [← h.length_eq, List.append_assoc, List.length_append]
    exact Nat.lt_succ_of_le ((hcount ws hwords).trans (Nat.le_add_right _ _))
  part hs hne := upTo_part h hgo hlast _ hs hne

end UntilStop

end Reads

end Attender.Library
