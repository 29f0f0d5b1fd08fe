import Mathlib.Data.List.Basic

/-!
# Incremental readers

A reader keeps unread input in its state, and each time it is fed it reads what
it can: it is done, or it rejects the input, or it waits for more. A reader that
may be resumed (`Resumable`) comes to the same verdict whether its input comes in
one piece or in many, up to a relation that says which states no reader tells
apart (`Resumable.feedAll_rel`). Readers compose (`Resumable.bind`).
-/

namespace Attender.Library

/-- What a reader comes to: it is done, it waits for more input, or it rejects. -/
inductive Verdict (ε σ : Type*) where
  /-- Done, with what is left in the state. -/
  | done (s : σ)
  /-- Waiting for more input. -/
  | waiting (s : σ)
  /-- Rejected with an error. -/
  | rejected (e : ε)
  deriving DecidableEq

/-- It is done. -/
def Verdict.isDone {ε σ : Type*} : Verdict ε σ → Bool
  | done _ => true
  | waiting _ | rejected _ => false

namespace Verdict

variable {ε σ : Type*}

/-- One reader after another: the second reads on where the first is done. -/
def bind (v : Verdict ε σ) (f : σ → Verdict ε σ) : Verdict ε σ :=
  match v with
  | done s => f s
  | waiting s => waiting s
  | rejected e => rejected e

@[simp] theorem bind_done (s : σ) (f : σ → Verdict ε σ) : (done s).bind f = f s := rfl

@[simp] theorem bind_waiting (s : σ) (f : σ → Verdict ε σ) : (waiting s).bind f = waiting s := rfl

theorem bind_assoc (v : Verdict ε σ) (f g : σ → Verdict ε σ) :
    (v.bind f).bind g = v.bind fun s => (f s).bind g := by
  cases v <;> rfl

theorem bind_of_done {v : Verdict ε σ} {s : σ} (h : v = done s) (f : σ → Verdict ε σ) :
    v.bind f = f s := by
  rw [h, bind_done]

theorem bind_eq_done {v : Verdict ε σ} {f : σ → Verdict ε σ} {t : σ} (h : v.bind f = done t) :
    ∃ s, v = done s ∧ f s = done t := by
  cases v with
  | done s => exact ⟨s, rfl, h⟩
  | waiting s => cases h
  | rejected e => cases h

theorem bind_eq_waiting {v : Verdict ε σ} {f : σ → Verdict ε σ} {t : σ} (h : v.bind f = waiting t) :
    v = waiting t ∨ ∃ s, v = done s ∧ f s = waiting t := by
  cases v with
  | done s => exact Or.inr ⟨s, rfl, h⟩
  | waiting s => exact Or.inl h
  | rejected e => cases h

theorem bind_ne_rejected {v : Verdict ε σ} {f : σ → Verdict ε σ} {e : ε} (hv : v ≠ rejected e)
    (hf : ∀ s, f s ≠ rejected e) : v.bind f ≠ rejected e := by
  cases v with
  | done s => exact hf s
  | waiting s => exact nofun
  | rejected e' => exact hv

/-- The same verdict, up to `R` on the states. -/
inductive Rel (R : σ → σ → Prop) : Verdict ε σ → Verdict ε σ → Prop where
  /-- Both done, in one state. -/
  | done (s : σ) : Rel R (done s) (done s)
  /-- Both waiting. -/
  | waiting {s t : σ} : R s t → Rel R (waiting s) (waiting t)
  /-- Both rejecting, with the same error. -/
  | rejected (e : ε) : Rel R (rejected e) (rejected e)

variable {R : σ → σ → Prop}

theorem Rel.refl (hR : Equivalence R) : ∀ v : Verdict ε σ, Rel R v v
  | .done s => .done s
  | .waiting s => .waiting (hR.refl s)
  | .rejected e => .rejected e

theorem Rel.symm (hR : Equivalence R) {v w : Verdict ε σ} (h : Rel R v w) : Rel R w v := by
  cases h with
  | done s => exact .done s
  | waiting h => exact .waiting (hR.symm h)
  | rejected e => exact .rejected e

theorem Rel.trans (hR : Equivalence R) {u v w : Verdict ε σ} (h₁ : Rel R u v) (h₂ : Rel R v w) :
    Rel R u w := by
  cases h₁ with
  | done s => exact h₂
  | waiting h =>
    cases h₂ with
    | waiting h' => exact .waiting (hR.trans h h')
  | rejected e => exact h₂

theorem Rel.bind (hR : Equivalence R) {v w : Verdict ε σ} (h : Rel R v w) (f : σ → Verdict ε σ) :
    Rel R (v.bind f) (w.bind f) := by
  cases h with
  | done s => exact Rel.refl hR _
  | waiting h => exact .waiting h
  | rejected e => exact .rejected e

theorem Rel.eq_done {v : Verdict ε σ} {s : σ} (h : Rel R v (.done s)) : v = .done s := by
  cases h with
  | done => rfl

end Verdict

open Verdict

/-- States to which input can be appended, with the relation between the states
that no reader tells apart. -/
structure Buffered (σ β : Type*) where
  /-- The input appended to what is unread. -/
  extend : σ → List β → σ
  /-- The states no reader tells apart. -/
  same : σ → σ → Prop
  extend_nil : ∀ s, extend s [] = s
  extend_append : ∀ s a b, extend s (a ++ b) = extend (extend s a) b
  same_equiv : Equivalence same

/-- **A reader that may be resumed**: what it decides stays decided when more input
follows, and reading on from where it waited comes to what reading everything at
once comes to. -/
structure Resumable {σ β ε : Type*} (B : Buffered σ β) (d : σ → Verdict ε σ) : Prop where
  done : ∀ {s s'}, d s = .done s' → ∀ b, d (B.extend s b) = .done (B.extend s' b)
  rejected : ∀ {s e}, d s = .rejected e → ∀ b, d (B.extend s b) = .rejected e
  waiting : ∀ {s s'}, d s = .waiting s' → ∀ b, Rel B.same (d (B.extend s b)) (d (B.extend s' b))

/-- Feeding pieces one after another, until the reader is done or rejects: the
verdict, and the pieces not fed. -/
def feedAll {σ β ε : Type*} (feed : σ → List β → Verdict ε σ) :
    σ → List (List β) → Verdict ε σ × List (List β)
  | s, [] => (.waiting s, [])
  | s, c :: cs =>
    match feed s c with
    | .waiting s' => feedAll feed s' cs
    | v => (v, cs)

/-- A reader of one token: it waits until the token is there, and then uses it. -/
def token {σ τ ε : Type*} (take : σ → Option (τ × σ)) (use : τ → σ → Verdict ε σ) (s : σ) :
    Verdict ε σ :=
  match take s with
  | none => .waiting s
  | some (t, s') => use t s'

/-- A reader that is passed over unless `c` holds. -/
def onlyIf {σ ε : Type*} (c : σ → Prop) [DecidablePred c] (d : σ → Verdict ε σ) (s : σ) :
    Verdict ε σ :=
  if c s then d s else .done s

section Token

variable {σ τ ε : Type*} {take : σ → Option (τ × σ)} {use : τ → σ → Verdict ε σ} {c : σ → Prop}
  [DecidablePred c] {d : σ → Verdict ε σ} {s : σ}

theorem token_of_none (h : take s = none) : token take use s = .waiting s := by rw [token, h]

theorem token_of_some {t : τ} {s' : σ} (h : take s = some (t, s')) :
    token take use s = use t s' := by rw [token, h]

theorem token_eq_done {s' : σ} (h : token take use s = .done s') :
    ∃ t s₁, take s = some (t, s₁) ∧ use t s₁ = .done s' := by
  cases e : take s with
  | none => rw [token_of_none e] at h; cases h
  | some ts => rw [token_of_some e] at h; exact ⟨_, _, rfl, h⟩

/-- A reader of one token whose use always decides waits with nothing read. -/
theorem token_waiting (hwaiting : ∀ {t s s'}, use t s ≠ .waiting s') {s' : σ}
    (h : token take use s = .waiting s') : s' = s := by
  cases e : take s with
  | none => rw [token_of_none e] at h; cases h; rfl
  | some ts => rw [token_of_some e] at h; exact absurd h hwaiting

theorem onlyIf_pos (h : c s) : onlyIf c d s = d s := if_pos h

theorem onlyIf_neg (h : ¬ c s) : onlyIf c d s = .done s := if_neg h

end Token

variable {σ β ε : Type*} {B : Buffered σ β}

/-- The verdict, with the pieces not fed put after what is unread. -/
def unread (B : Buffered σ β) : Verdict ε σ × List (List β) → Verdict ε σ
  | (.done s, cs) => .done (B.extend s cs.flatten)
  | (v, _) => v

namespace Resumable

/-- A reader of one token may be resumed, if more input leaves the tokens there as
they are and if the use of a token decides, and stays decided. -/
theorem token {τ : Type*} {take : σ → Option (τ × σ)} {use : τ → σ → Verdict ε σ}
    (htake : ∀ {s t s'}, take s = some (t, s') → ∀ b, take (B.extend s b) = some (t, B.extend s' b))
    (hdone : ∀ {t s s'}, use t s = .done s' → ∀ b, use t (B.extend s b) = .done (B.extend s' b))
    (hrejected : ∀ {t s e}, use t s = .rejected e → ∀ b, use t (B.extend s b) = .rejected e)
    (hwaiting : ∀ {t s s'}, use t s ≠ .waiting s') : Resumable B (token take use) where
  done {s s'} h b := by
    cases e : take s with
    | none => rw [token_of_none e] at h; cases h
    | some ts =>
      rw [token_of_some e] at h
      rw [token_of_some (htake e b)]
      exact hdone h b
  rejected {s e'} h b := by
    cases e : take s with
    | none => rw [token_of_none e] at h; cases h
    | some ts =>
      rw [token_of_some e] at h
      rw [token_of_some (htake e b)]
      exact hrejected h b
  waiting {s s'} h b := by
    cases e : take s with
    | none =>
      rw [token_of_none e] at h
      cases h
      exact .refl B.same_equiv _
    | some ts =>
      rw [token_of_some e] at h
      exact absurd h hwaiting

/-- A reader may be passed over, if its condition does not depend on what is unread
and it keeps the condition while it waits. -/
theorem onlyIf {c : σ → Prop} [DecidablePred c] {d : σ → Verdict ε σ} (hd : Resumable B d)
    (hc : ∀ {s} b, c (B.extend s b) ↔ c s) (hkeep : ∀ {s s'}, c s → d s = .waiting s' → c s') :
    Resumable B (onlyIf c d) where
  done {s s'} h b := by
    by_cases e : c s
    · rw [onlyIf_pos e] at h
      rw [onlyIf_pos ((hc b).mpr e)]
      exact hd.done h b
    · rw [onlyIf_neg e] at h
      cases h
      exact onlyIf_neg fun e' => e ((hc b).mp e')
  rejected {s e'} h b := by
    by_cases e : c s
    · rw [onlyIf_pos e] at h
      rw [onlyIf_pos ((hc b).mpr e)]
      exact hd.rejected h b
    · rw [onlyIf_neg e] at h
      cases h
  waiting {s s'} h b := by
    by_cases e : c s
    · rw [onlyIf_pos e] at h
      rw [onlyIf_pos ((hc b).mpr e), onlyIf_pos ((hc b).mpr (hkeep e h))]
      exact hd.waiting h b
    · rw [onlyIf_neg e] at h
      cases h

/-- Readers compose, if the first passes over the states the second waits in. -/
theorem bind {d₁ d₂ : σ → Verdict ε σ} (h₁ : Resumable B d₁) (h₂ : Resumable B d₂)
    (hpass : ∀ {s s₁ s₂}, d₁ s = .done s₁ → d₂ s₁ = .waiting s₂ →
      ∀ b, d₁ (B.extend s₂ b) = .done (B.extend s₂ b)) :
    Resumable B fun s => (d₁ s).bind d₂ where
  done {s s'} h b := by
    obtain ⟨s₁, e₁, e₂⟩ := bind_eq_done h
    rw [h₁.done e₁ b]
    exact h₂.done e₂ b
  rejected {s e} h b := by
    cases e₁ : d₁ s with
    | done s₁ =>
      rw [e₁] at h
      rw [h₁.done e₁ b]
      exact h₂.rejected h b
    | waiting s₁ => rw [e₁] at h; cases h
    | rejected e' =>
      rw [e₁] at h
      rw [h₁.rejected e₁ b]
      exact h
  waiting {s s'} h b := by
    rcases bind_eq_waiting h with e₁ | ⟨s₁, e₁, e₂⟩
    · exact (h₁.waiting e₁ b).bind B.same_equiv d₂
    · rw [h₁.done e₁ b, hpass e₁ e₂ b]
      exact h₂.waiting e₂ b

/-- A resumable reader waits again when it is resumed without new input. -/
theorem waits {d : σ → Verdict ε σ} (hd : Resumable B d) {s s' : σ} (h : d s = .waiting s') :
    Rel B.same (d s') (.waiting s') := by
  have := hd.waiting h []
  rw [B.extend_nil, B.extend_nil, h] at this
  exact this.symm B.same_equiv

/-- **Segmentation invariance**: however its input is cut, a resumable reader that
waits comes to the verdict it comes to on the whole input at once. -/
theorem feedAll_rel {d : σ → Verdict ε σ} (hd : Resumable B d) :
    ∀ (cs : List (List β)) (s : σ), Rel B.same (d s) (.waiting s) →
      Rel B.same (unread B (feedAll (fun s c => d (B.extend s c)) s cs))
        (d (B.extend s cs.flatten)) := by
  have hR := B.same_equiv
  intro cs
  induction cs with
  | nil =>
    intro s hs
    rw [List.flatten_nil, B.extend_nil]
    exact hs.symm hR
  | cons c cs ih =>
    intro s hs
    rw [List.flatten_cons, B.extend_append, feedAll]
    cases e : d (B.extend s c) with
    | done s' => rw [hd.done e]; exact .done _
    | waiting s' => exact (ih s' (hd.waits e)).trans hR ((hd.waiting e _).symm hR)
    | rejected e' => rw [hd.rejected e]; exact .rejected _

end Resumable

/-- A run that waits has been fed everything. -/
theorem feedAll_waiting {feed : σ → List β → Verdict ε σ} {s s' : σ} {cs rest : List (List β)}
    (h : feedAll feed s cs = (.waiting s', rest)) : rest = [] := by
  induction cs generalizing s with
  | nil =>
    cases h
    rfl
  | cons c cs ih =>
    rw [feedAll] at h
    cases e : feed s c with
    | done s₁ => rw [e] at h; cases h
    | waiting s₁ => rw [e] at h; exact ih h
    | rejected e' => rw [e] at h; cases h

/-- A run that waits is resumed by what follows. -/
theorem feedAll_append {feed : σ → List β → Verdict ε σ} {s s' : σ} {cs : List (List β)}
    (h : feedAll feed s cs = (.waiting s', [])) (ds : List (List β)) :
    feedAll feed s (cs ++ ds) = feedAll feed s' ds := by
  induction cs generalizing s with
  | nil =>
    cases h
    rfl
  | cons c cs ih =>
    rw [feedAll] at h
    rw [List.cons_append, feedAll]
    cases e : feed s c with
    | done s₁ => rw [e] at h; cases h
    | waiting s₁ => rw [e] at h; exact ih h
    | rejected e' => rw [e] at h; cases h

/-! ### Invariants of readers -/

/-- From the states of `I` a reader is done in one of `J`, or it waits in one of `W`, or it
rejects. -/
structure Leads (I J W : σ → Prop) (d : σ → Verdict ε σ) : Prop where
  done : ∀ {s s'}, I s → d s = .done s' → J s'
  waiting : ∀ {s s'}, I s → d s = .waiting s' → W s'

variable {I J K W : σ → Prop}

theorem Leads.bind {d₁ d₂ : σ → Verdict ε σ} (h₁ : Leads I J W d₁) (h₂ : Leads J K W d₂) :
    Leads I K W fun s => (d₁ s).bind d₂ where
  done := by
    intro s s' hs h
    obtain ⟨s₁, e₁, e₂⟩ := Verdict.bind_eq_done h
    exact h₂.done (h₁.done hs e₁) e₂
  waiting := by
    intro s s' hs h
    rcases Verdict.bind_eq_waiting h with e | ⟨s₁, e₁, e₂⟩
    · exact h₁.waiting hs e
    · exact h₂.waiting (h₁.done hs e₁) e₂

/-- A reader of one token leads where its use of the token does. -/
theorem Leads.token {τ : Type*} {c : σ → Prop} [DecidablePred c] {take : σ → Option (τ × σ)}
    {use : τ → σ → Verdict ε σ} (hwait : ∀ {s}, I s → W s) (hpass : ∀ {s}, I s → ¬ c s → J s)
    (hdone : ∀ {s t s₁ s'}, I s → c s → take s = some (t, s₁) → use t s₁ = .done s' → J s')
    (hwaiting : ∀ {s t s₁ s'}, I s → c s → take s = some (t, s₁) → use t s₁ = .waiting s' → W s') :
    Leads I J W (onlyIf c (token take use)) where
  done := by
    intro s s' hs h
    by_cases hc : c s
    · rw [onlyIf_pos hc] at h
      obtain ⟨t, s₁, htake, huse⟩ := token_eq_done h
      exact hdone hs hc htake huse
    · rw [onlyIf_neg hc] at h
      cases h
      exact hpass hs hc
  waiting := by
    intro s s' hs h
    by_cases hc : c s
    · rw [onlyIf_pos hc] at h
      cases htake : take s with
      | none =>
        rw [token_of_none htake] at h
        cases h
        exact hwait hs
      | some ts =>
        rw [token_of_some htake] at h
        exact hwaiting hs hc htake h
    · rw [onlyIf_neg hc] at h
      cases h

/-- What a reader that waits keeps at each piece, the total fed along with it, holds while it waits
on all of them. -/
theorem feedAll_total {feed : σ → List β → Verdict ε σ} {P : Nat → σ → Prop}
    (hfeed : ∀ {n s c s'}, P n s → feed s c = .waiting s' → P (n + c.length) s')
    {cs rest : List (List β)} {n : Nat} {s s' : σ} (hs : P n s)
    (h : feedAll feed s cs = (.waiting s', rest)) : P (n + cs.flatten.length) s' := by
  induction cs generalizing n s with
  | nil =>
    cases h
    exact hs
  | cons c cs ih =>
    rw [feedAll] at h
    cases e : feed s c with
    | done s₁ => rw [e] at h; cases h
    | waiting s₁ =>
      rw [e] at h
      rw [List.flatten_cons, List.length_append, ← Nat.add_assoc]
      exact ih (hfeed hs e) h
    | rejected e' => rw [e] at h; cases h

/-- In pieces with at least `n` bytes, `n` not zero, one piece holds the last of them. -/
theorem exists_piece {n : Nat} (hn : 0 < n) {cs : List (List β)} (h : n ≤ cs.flatten.length) :
    ∃ before c after, cs = before ++ c :: after ∧ before.flatten.length < n ∧
      n ≤ before.flatten.length + c.length := by
  induction cs generalizing n with
  | nil => exact absurd (Nat.lt_of_lt_of_le hn h) (by simp)
  | cons c cs ih =>
    rcases Nat.lt_or_ge c.length n with hlt | hge
    · rw [List.flatten_cons, List.length_append] at h
      obtain ⟨before, d, after, rfl, hlt', hle⟩ := ih (n := n - c.length) (by omega) (by omega)
      refine ⟨c :: before, d, after, rfl, ?_, ?_⟩ <;> rw [List.flatten_cons, List.length_append] <;>
        omega
    · exact ⟨[], c, cs, rfl, hn, by simpa using hge⟩

/-- A reader that first checks what it is fed, and rejects with `e` what fails the
check, reads like the reader without the check, or rejects with `e`; `I` holds
while it waits. -/
theorem feedAll_guarded {f g : σ → List β → Verdict ε σ} {e : ε} {I : σ → Prop}
    (hfg : ∀ s c, I s → f s c = g s c ∨ f s c = .rejected e)
    (hI : ∀ s c s', I s → g s c = .waiting s' → I s') :
    ∀ (cs : List (List β)) (s : σ), I s →
      feedAll f s cs = feedAll g s cs ∨ (feedAll f s cs).1 = .rejected e := by
  intro cs
  induction cs with
  | nil =>
    intro s _
    exact Or.inl rfl
  | cons c cs ih =>
    intro s hs
    rcases hfg s c hs with h | h
    · cases hg : g s c with
      | done s' => simp [feedAll, h, hg]
      | waiting s' => simpa [feedAll, h, hg] using ih s' (hI s c s' hs hg)
      | rejected e' => simp [feedAll, h, hg]
    · simp [feedAll, h]

end Attender.Library
