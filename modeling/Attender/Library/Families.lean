import Attender.Library.Runs
import Mathlib.Data.List.Induction

/-!
# Families of machines

Machines that take their steps one at a time, in any order, and that may join at
any time. None of them notices the others: the state of each is that of a run of
its own actions (`run_member`).
-/

namespace Attender.Library

/-- What happens in a family. -/
inductive FamilyOp (σ α : Type*) where
  /-- Another machine joins, in this state. -/
  | join (s : σ)
  /-- The machine of this number takes a step. -/
  | member (i : Nat) (a : α)

variable {σ α : Type*} {step : Nat → σ → α → Option σ}

variable (step) in
/-- One step of a family. Its machines are numbered in the order in which they have joined. -/
def familyStep (ss : List σ) : FamilyOp σ α → Option (List σ)
  | .join s => some (ss ++ [s])
  | .member i a => (ss[i]?).bind fun s => (step i s a).map fun s' => ss.set i s'

/-- The action of the machine `i`. -/
def FamilyOp.actionOf (i : Nat) : FamilyOp σ α → Option α
  | .join _ => none
  | .member j a => if j = i then some a else none

/-- The actions of the machine `i`. -/
def actionsOf (i : Nat) (ops : List (FamilyOp σ α)) : List α := ops.filterMap (FamilyOp.actionOf i)

section Actions

variable {i : Nat} {ops : List (FamilyOp σ α)}

theorem actionsOf_append (ops' : List (FamilyOp σ α)) :
    actionsOf i (ops ++ ops') = actionsOf i ops ++ actionsOf i ops' :=
  List.filterMap_append

@[simp] theorem actionsOf_join (s : σ) : actionsOf (α := α) i [.join s] = [] := rfl

theorem actionsOf_member (j : Nat) (a : α) :
    actionsOf (σ := σ) i [.member j a] = if j = i then [a] else [] := by
  rw [actionsOf, List.filterMap_cons, FamilyOp.actionOf]
  split_ifs <;> rfl

end Actions

theorem familyStep_member {ss ss' : List σ} {i : Nat} {a : α} :
    familyStep step ss (.member i a) = some ss' ↔
      ∃ s s', ss[i]? = some s ∧ step i s a = some s' ∧ ss' = ss.set i s' := by
  rw [familyStep, Option.bind_eq_some_iff]
  constructor
  · rintro ⟨s, hs, hstep⟩
    obtain ⟨s', hs', rfl⟩ := Option.map_eq_some_iff.mp hstep
    exact ⟨s, s', hs, hs', rfl⟩
  · rintro ⟨s, s', hs, hs', rfl⟩
    exact ⟨s, hs, by rw [hs', Option.map_some]⟩

/-- Machines that join. -/
theorem run_joins (ss ss' : List σ) :
    run (familyStep step) ss (ss'.map .join) = some (ss ++ ss') := by
  induction ss' generalizing ss with
  | nil => rw [List.map_nil, run_nil, List.append_nil]
  | cons s ss' ih =>
    refine run_cons.mpr ⟨ss ++ [s], rfl, ?_⟩
    rw [ih, List.append_assoc]
    rfl

/-- **The members of a family**: each is in the state that its own actions lead to from the one in
which it has joined. -/
theorem run_member {ops : List (FamilyOp σ α)} {ss : List σ}
    (hrun : run (familyStep step) [] ops = some ss) {i : Nat} {s : σ} (hs : ss[i]? = some s) :
    ∃ s₀, .join s₀ ∈ ops ∧ run (step i) s₀ (actionsOf i ops) = some s := by
  suffices h : ∀ i, (∀ s, ss[i]? = some s →
      ∃ s₀, .join s₀ ∈ ops ∧ run (step i) s₀ (actionsOf i ops) = some s) ∧
      (ss.length ≤ i → actionsOf i ops = []) from (h i).1 s hs
  clear hs
  induction ops using List.reverseRecOn generalizing ss with
  | nil =>
    rw [run_nil, Option.some.injEq] at hrun
    subst hrun
    exact fun i => ⟨fun s hs => absurd hs (by simp), fun _ => rfl⟩
  | append_singleton ops op ih =>
    obtain ⟨ss₁, hrun₁, hlast⟩ := run_append.mp hrun
    rw [run_singleton] at hlast
    intro i
    obtain ⟨hmembers, hothers⟩ := ih hrun₁ i
    have hgrow : ∀ s, ss₁[i]? = some s → ∃ s₀, .join s₀ ∈ ops ++ [op] ∧
        run (step i) s₀ (actionsOf i ops) = some s := by
      intro s hs
      obtain ⟨s₀, hjoin, hown⟩ := hmembers s hs
      exact ⟨s₀, List.mem_append_left _ hjoin, hown⟩
    cases op with
    | join s₁ =>
      cases hlast
      rw [actionsOf_append, actionsOf_join, List.append_nil]
      refine ⟨fun s hs => ?_, fun hlength => hothers ?_⟩
      · rcases Nat.lt_trichotomy i ss₁.length with hlt | rfl | hgt
        · rw [List.getElem?_append_left hlt] at hs
          exact hgrow s hs
        · rw [List.getElem?_concat_length, Option.some.injEq] at hs
          subst hs
          refine ⟨s₁, List.mem_append_right _ (List.mem_singleton_self _), ?_⟩
          rw [hothers (Nat.le_refl _), run_nil]
        · rw [List.getElem?_eq_none] at hs
          · cases hs
          · rw [List.length_append, List.length_singleton]
            omega
      · rw [List.length_append] at hlength
        omega
    | member j a =>
      obtain ⟨s₁, s₂, hs₁, hstep, rfl⟩ := familyStep_member.mp hlast
      obtain ⟨hj, -⟩ := List.getElem?_eq_some_iff.mp hs₁
      rw [actionsOf_append, actionsOf_member, List.length_set]
      by_cases hij : j = i
      · subst hij
        rw [if_pos rfl]
        refine ⟨fun s hs => ?_, fun hlength => absurd hj (Nat.not_lt.mpr hlength)⟩
        rw [List.getElem?_set_self hj, Option.some.injEq] at hs
        subst hs
        obtain ⟨s₀, hjoin, hown⟩ := hgrow s₁ hs₁
        exact ⟨s₀, hjoin, run_append.mpr ⟨s₁, hown, run_singleton.mpr hstep⟩⟩
      · rw [if_neg hij, List.append_nil, List.getElem?_set_ne hij]
        exact ⟨hgrow, hothers⟩

end Attender.Library
