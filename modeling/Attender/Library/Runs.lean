import Mathlib.Data.List.Basic
import Mathlib.Data.Option.Basic

/-!
# Runs of a machine

A machine is a step function that is not defined on the actions that cannot be
taken. What one step preserves holds of all its runs (`run_invariant`), and so
it does when the step preserves it under a condition that all steps of the run
meet (`run_invariant_along`). When a step from a good state is to a bad one
exactly if it is a bad step, a run avoids the bad states exactly if it takes no
bad step (`throughout_iff_along`); when a bad state is never left, a run ends in
one invariant or in the other (`throughout_or`). An invariant may speak of what
the steps have given so far (`run_invariant_gather`), or of the actions that have
been taken (`run_invariant_actions`). A measure that every step decreases bounds
the length of a run (`length_add_le_of_decreasing`), and a machine that can
follow each step of another follows its runs (`run_simulation`).
-/

namespace Attender.Library

variable {σ α : Type*} (step : σ → α → Option σ)

/-- The state after some actions, if all of them can be taken. -/
def run : σ → List α → Option σ
  | s, [] => some s
  | s, a :: as => (step s a).bind fun s' => run s' as

/-- All steps of a run meet the condition `C`. -/
def Along (C : σ → α → Prop) : σ → List α → Prop
  | _, [] => True
  | s, a :: as => C s a ∧ ∀ s', step s a = some s' → Along C s' as

/-- All states of a run meet `P`, the first and the last included. -/
def Throughout (P : σ → Prop) (s : σ) (as : List α) : Prop :=
  ∀ as', as' <+: as → ∀ s', run step s as' = some s' → P s'

variable {step}

@[simp] theorem run_nil (s : σ) : run step s [] = some s := rfl

theorem run_cons {s s' : σ} {a : α} {as : List α} :
    run step s (a :: as) = some s' ↔ ∃ s₁, step s a = some s₁ ∧ run step s₁ as = some s' :=
  Option.bind_eq_some_iff

theorem run_singleton {s s' : σ} {a : α} : run step s [a] = some s' ↔ step s a = some s' := by
  rw [run_cons]
  constructor
  · intro h
    obtain ⟨s₁, hstep, hrun⟩ := h
    rw [run_nil, Option.some.injEq] at hrun
    rwa [hrun] at hstep
  · intro h
    exact ⟨s', h, rfl⟩

theorem run_append {s s' : σ} {as bs : List α} :
    run step s (as ++ bs) = some s' ↔ ∃ s₁, run step s as = some s₁ ∧ run step s₁ bs = some s' := by
  induction as generalizing s with
  | nil => simp
  | cons a as ih =>
    rw [List.cons_append, run_cons]
    constructor
    · intro h
      obtain ⟨s₁, h₁, h⟩ := h
      obtain ⟨s₂, h₂, h⟩ := ih.mp h
      exact ⟨s₂, run_cons.mpr ⟨s₁, h₁, h₂⟩, h⟩
    · intro h
      obtain ⟨s₂, h₂, h⟩ := h
      obtain ⟨s₁, h₁, h₂⟩ := run_cons.mp h₂
      exact ⟨s₁, h₁, ih.mpr ⟨s₂, h₂, h⟩⟩

/-- A run whose first step can be taken. -/
theorem along_cons_iff {C : σ → α → Prop} {s s' : σ} {a : α} {as : List α}
    (hstep : step s a = some s') : Along step C s (a :: as) ↔ C s a ∧ Along step C s' as := by
  rw [Along, hstep]
  simp

theorem along_cons {C : σ → α → Prop} {s s' : σ} {a : α} {as : List α} (hstep : step s a = some s')
    (ha : C s a) (has : Along step C s' as) : Along step C s (a :: as) :=
  (along_cons_iff hstep).mpr ⟨ha, has⟩

/-- A list with `a` in it, cut at the first. -/
theorem eq_takeWhile_append [DecidableEq α] {a : α} {as : List α} (h : a ∈ as) :
    ∃ bs, as = as.takeWhile (· ≠ a) ++ a :: bs := by
  induction as with
  | nil => cases h
  | cons b as ih =>
    by_cases hb : b = a
    · exact ⟨as, by simp [hb]⟩
    · obtain ⟨bs, hbs⟩ := ih ((List.mem_cons.mp h).resolve_left (Ne.symm hb))
      refine ⟨bs, ?_⟩
      rw [List.takeWhile_cons_of_pos (by simpa using hb), List.cons_append, ← hbs]

/-- **Invariants**: what every step with an action in `A` preserves holds after every run of such
steps. -/
theorem run_invariant {A : α → Prop} {I : σ → Prop}
    (hstep : ∀ s a s', A a → I s → step s a = some s' → I s') {s s' : σ} {as : List α}
    (hA : ∀ a ∈ as, A a) (hs : I s) (h : run step s as = some s') : I s' := by
  induction as generalizing s with
  | nil =>
    rw [run_nil, Option.some.injEq] at h
    exact h ▸ hs
  | cons a as ih =>
    obtain ⟨ha, has⟩ := List.forall_mem_cons.mp hA
    obtain ⟨s₁, h₁, h⟩ := run_cons.mp h
    exact ih has (hstep s a s₁ ha hs h₁) h

/-- Invariants under a condition on the steps. -/
theorem run_invariant_along {C : σ → α → Prop} {I : σ → Prop}
    (hstep : ∀ s a s', I s → C s a → step s a = some s' → I s') {s s' : σ} {as : List α} (hs : I s)
    (hC : Along step C s as) (h : run step s as = some s') : I s' := by
  induction as generalizing s with
  | nil =>
    rw [run_nil, Option.some.injEq] at h
    exact h ▸ hs
  | cons a as ih =>
    obtain ⟨s₁, h₁, h⟩ := run_cons.mp h
    exact ih (hstep s a s₁ hs hC.1 h₁) (hC.2 s₁ h₁) h

theorem throughout_cons {P : σ → Prop} {s : σ} {a : α} {as : List α} :
    Throughout step P s (a :: as) ↔ P s ∧ ∀ s', step s a = some s' → Throughout step P s' as := by
  constructor
  · intro h
    refine ⟨h [] (List.nil_prefix) s rfl, ?_⟩
    intro s' hs' as' has' s'' hs''
    exact h (a :: as') ((List.prefix_cons_inj a).mpr has') s'' (run_cons.mpr ⟨s', hs', hs''⟩)
  · intro h as' has' s'' hs''
    rcases List.prefix_cons_iff.mp has' with rfl | ⟨as'', rfl, has''⟩
    · rw [run_nil, Option.some.injEq] at hs''
      exact hs'' ▸ h.1
    · obtain ⟨s', hs', hs''⟩ := run_cons.mp hs''
      exact h.2 s' hs' as'' has'' s'' hs''

/-- Where all actions can be taken: the first state, and then those of the rest. -/
theorem forall_take_cons {f : σ → α → σ} {P : σ → Prop} {s : σ} {a : α} {as : List α} :
    (∀ i, P (((a :: as).take i).foldl f s)) ↔ P s ∧ ∀ i, P ((as.take i).foldl f (f s a)) := by
  constructor
  · intro h
    exact ⟨h 0, fun i => h (i + 1)⟩
  · intro h i
    cases i with
    | zero => exact h.1
    | succ i => exact h.2 i

/-- **Exact conditions**: `I` is kept by the steps that keep `P`, and a step from a state with `P`
leaves `P` exactly if it does not meet `C`. Then a run stays in `P` exactly if all its steps meet
`C`. The actions are those with `A`. -/
theorem throughout_iff_along {A : α → Prop} {C : σ → α → Prop} {I P : σ → Prop}
    (hI : ∀ s a s', A a → I s → P s → step s a = some s' → P s' → I s')
    (hstep : ∀ s a s', A a → I s → P s → step s a = some s' → (P s' ↔ C s a)) {s : σ} (hs : I s)
    (hP : P s) {as : List α} (hA : ∀ a ∈ as, A a) {s' : σ} (hrun : run step s as = some s') :
    Throughout step P s as ↔ Along step C s as := by
  induction as generalizing s with
  | nil =>
    refine iff_of_true ?_ trivial
    intro as' has' s'' hs''
    obtain rfl := List.prefix_nil.mp has'
    rw [run_nil, Option.some.injEq] at hs''
    exact hs'' ▸ hP
  | cons a as ih =>
    obtain ⟨ha, has⟩ := List.forall_mem_cons.mp hA
    obtain ⟨s₁, h₁, hrun⟩ := run_cons.mp hrun
    have hone : ∀ {Q : σ → Prop}, (∀ s₂, step s a = some s₂ → Q s₂) ↔ Q s₁ := by
      intro Q
      constructor
      · intro h
        exact h s₁ h₁
      · intro h s₂ h₂
        rw [h₁, Option.some.injEq] at h₂
        exact h₂ ▸ h
    rw [throughout_cons, Along, and_iff_right hP, hone, hone]
    by_cases hP₁ : P s₁
    · rw [ih (hI s a s₁ ha hs hP h₁ hP₁) hP₁ has hrun,
        and_iff_right ((hstep s a s₁ ha hs hP h₁).mp hP₁)]
    · refine iff_of_false (fun h => hP₁ (h [] List.nil_prefix s₁ rfl)) fun h => hP₁ ?_
      exact (hstep s a s₁ ha hs hP h₁).mpr h.1

/-- **One way or the other**: `I` is kept for as long as the states have `P`, and `J` from the first
that has not. The steps meet `C`. -/
theorem throughout_or {C : σ → α → Prop} {I J P : σ → Prop} (hP : ∀ s, I s → P s)
    (hI : ∀ s a s', I s → C s a → step s a = some s' → I s' ∨ ¬ P s' ∧ J s')
    (hJ : ∀ s a s', J s → C s a → step s a = some s' → J s') {s s' : σ} {as : List α} (hs : I s)
    (hC : Along step C s as) (hrun : run step s as = some s') :
    Throughout step P s as ∧ I s' ∨ ¬ Throughout step P s as ∧ J s' := by
  induction as generalizing s with
  | nil =>
    rw [run_nil, Option.some.injEq] at hrun
    subst hrun
    refine Or.inl ⟨fun as' has' s' hs' => ?_, hs⟩
    obtain rfl := List.prefix_nil.mp has'
    rw [run_nil, Option.some.injEq] at hs'
    exact hs' ▸ hP s hs
  | cons a as ih =>
    obtain ⟨s₁, h₁, hrest⟩ := run_cons.mp hrun
    have hsame : Throughout step P s (a :: as) ↔ Throughout step P s₁ as := by
      rw [throughout_cons, and_iff_right (hP s hs)]
      constructor
      · intro h
        exact h s₁ h₁
      · intro h s₂ h₂
        rw [h₁, Option.some.injEq] at h₂
        exact h₂ ▸ h
    rw [hsame]
    rcases hI s a s₁ hs hC.1 h₁ with hgood | ⟨hlost, hbad⟩
    · exact ih hgood (hC.2 s₁ h₁) hrest
    · refine Or.inr ⟨fun h => hlost (h [] List.nil_prefix s₁ rfl), ?_⟩
      exact run_invariant_along hJ hbad (hC.2 s₁ h₁) hrest

/-- **A simulation**: a machine that can take a step `f a` wherever another takes the step `a`, and
stays related to it, follows all its runs. -/
theorem run_simulation {τ β : Type*} {step' : τ → β → Option τ} {f : α → β} {R : σ → τ → Prop}
    (hstep : ∀ s t a s', R s t → step s a = some s' → ∃ t', step' t (f a) = some t' ∧ R s' t')
    {s s' : σ} {t : τ} {as : List α} (hs : R s t) (h : run step s as = some s') :
    ∃ t', run step' t (as.map f) = some t' ∧ R s' t' := by
  induction as generalizing s t with
  | nil =>
    rw [run_nil, Option.some.injEq] at h
    subst h
    exact ⟨t, rfl, hs⟩
  | cons a as ih =>
    obtain ⟨s₁, h₁, hrest⟩ := run_cons.mp h
    obtain ⟨t₁, ht₁, hs₁⟩ := hstep s t a s₁ hs h₁
    obtain ⟨t', ht', hs'⟩ := ih hs₁ hrest
    exact ⟨t', run_cons.mpr ⟨t₁, ht₁, ht'⟩, hs'⟩

variable (step) in
/-- What the steps of a run give, one after another. -/
def gather {β : Type*} (f : σ → α → List β) : σ → List α → List β
  | _, [] => []
  | s, a :: as =>
    f s a ++
      match step s a with
      | some s' => gather f s' as
      | none => []

/-- **Invariants with a history**: what every step preserves when what it gives is added to the
history. -/
theorem run_invariant_gather {β : Type*} {f : σ → α → List β} {I : List β → σ → Prop}
    (hstep : ∀ bs s a s', I bs s → step s a = some s' → I (bs ++ f s a) s') {bs : List β} {s s' : σ}
    {as : List α} (hs : I bs s) (h : run step s as = some s') :
    I (bs ++ gather step f s as) s' := by
  induction as generalizing bs s with
  | nil =>
    rw [run_nil, Option.some.injEq] at h
    rw [gather, List.append_nil, ← h]
    exact hs
  | cons a as ih =>
    obtain ⟨s₁, h₁, hrest⟩ := run_cons.mp h
    have htail := ih (hstep bs s a s₁ hs h₁) hrest
    rw [List.append_assoc] at htail
    rw [gather, h₁]
    exact htail

/-- The same for the actions themselves. -/
theorem run_invariant_actions {I : List α → σ → Prop}
    (hstep : ∀ bs s a s', I bs s → step s a = some s' → I (bs ++ [a]) s') {bs : List α} {s s' : σ}
    {as : List α} (hs : I bs s) (h : run step s as = some s') : I (bs ++ as) s' := by
  induction as generalizing bs s with
  | nil =>
    rw [run_nil, Option.some.injEq] at h
    rw [List.append_nil, ← h]
    exact hs
  | cons a as ih =>
    obtain ⟨s₁, h₁, hrest⟩ := run_cons.mp h
    have htail := ih (hstep bs s a s₁ hs h₁) hrest
    rwa [List.append_assoc] at htail

/-- No action can be taken. -/
def Halted (step : σ → α → Option σ) (s : σ) : Prop := ∀ a, step s a = none

/-- **Runs end** when every step takes something off a measure. -/
theorem length_add_le_of_decreasing {A : α → Prop} {I : σ → Prop} {m : σ → Nat}
    (hstep : ∀ s a s', A a → I s → step s a = some s' → I s' ∧ m s' < m s) {s s' : σ} {as : List α}
    (hA : ∀ a ∈ as, A a) (hs : I s) (h : run step s as = some s') : as.length + m s' ≤ m s := by
  induction as generalizing s with
  | nil =>
    rw [run_nil, Option.some.injEq] at h
    simp [h]
  | cons a as ih =>
    obtain ⟨ha, has⟩ := List.forall_mem_cons.mp hA
    obtain ⟨s₁, h₁, hrest⟩ := run_cons.mp h
    obtain ⟨hs₁, hless⟩ := hstep s a s₁ ha hs h₁
    have htail := ih has hs₁ hrest
    rw [List.length_cons]
    omega

end Attender.Library
