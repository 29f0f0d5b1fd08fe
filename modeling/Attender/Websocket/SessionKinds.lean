import Attender.Websocket.SessionBase
import Mathlib.Data.List.Perm.Basic
import Mathlib.Data.List.Range

/-!
# Kinds of sessions

`flexible_session` and `noop_session` override `on_write_complete` and do not
call that of `session_base`, the only function that takes entries from the
queue. In the sessions of either kind each operation and each callback that has
been given to the session has run once or waits once, whatever fails; what waits
in a session that overrides `on_write_complete` waits for ever
(`write_queue_accounts`).
-/

namespace Attender.Websocket

open Attender.Library Attender.Utility

/-- The sessions of the library, by their `on_write_complete`. -/
inductive SessionKind where
  /-- That of `session_base`. -/
  | base
  /-- `flexible_session` and `noop_session`: user code, or nothing. -/
  | overriding
  deriving DecidableEq

/-- The number of an operation. -/
def Entry.operation? : Entry → Option Nat
  | .operation n => some n
  | .onComplete _ => none

/-- The write of a callback. -/
def Entry.callback? : Entry → Option Nat
  | .operation _ => none
  | .onComplete write => some write

namespace SessionBase

/-- `connection::on_write` without an error, with the `on_write_complete` of a session that
overrides it. -/
def onWriteOverriding (s : SessionBase) (write : Write) : SessionBase :=
  { s with
    writeInProgress := false
    writeBuffer := []
    completed := s.completed ++ [write]
    -- `on_write_complete_cb`
    stack := .handler :: s.stack }

/-- One step of a session of a kind. -/
def stepOf (kind : SessionKind) (s : SessionBase) : SessionAction → Option SessionBase
  | .written none =>
    match kind with
    | .base => s.step (.written none)
    | .overriding =>
      match s.stack, s.inFlight with
      | [], write :: inFlight => some ({ s with inFlight := inFlight }.onWriteOverriding write)
      | _, _ => none
  | a => s.step a

/-- The write that a step starts with an `on_complete`. -/
def givenBy (s : SessionBase) : SessionAction → List Nat
  | .write mode data hasOnComplete =>
    if hasOnComplete ∧ (s.write mode data hasOnComplete).2 then [s.writes] else []
  | .handler | .enqueueWrite | .return_ | .written _ => []

/-- The writes that have been started with an `on_complete` in a run. -/
def given (kind : SessionKind) (s : SessionBase) (actions : List SessionAction) : List Nat :=
  gather (stepOf kind) givenBy s actions

/-- The operations that wait. -/
def waiting (s : SessionBase) : List Nat := s.enqueuedWrites.filterMap Entry.operation?

/-- The callbacks that wait. -/
def pendingCallbacks (s : SessionBase) : List Nat := s.enqueuedWrites.filterMap Entry.callback?

section Kinds

variable {kind : SessionKind} {s s' : SessionBase} {a : SessionAction}

theorem stepOf_base : stepOf .base s a = s.step a := by
  rw [stepOf.eq_def]
  split <;> rfl

/-- **What a step does**: that of `session_base`, or a completion that takes nothing. -/
theorem stepOf_cases (hstep : stepOf kind s a = some s') :
    s.step a = some s' ∧ (kind = .overriding → a ≠ .written none) ∨
      kind = .overriding ∧ a = .written none ∧ s.stack = [] ∧ ∃ write inFlight,
        s.inFlight = write :: inFlight ∧
          s' = { s with inFlight := inFlight }.onWriteOverriding write := by
  cases kind with
  | base =>
    rw [stepOf_base] at hstep
    refine Or.inl ⟨hstep, fun hkind => ?_⟩
    cases hkind
  | overriding =>
    by_cases ha : a = .written none
    · subst ha
      simp only [stepOf] at hstep
      split at hstep
      · next write inFlight hstack hflight =>
        cases hstep
        exact Or.inr ⟨rfl, rfl, hstack, write, inFlight, hflight, rfl⟩
      · cases hstep
    · refine Or.inl ⟨?_, fun _ => ha⟩
      rw [stepOf.eq_def] at hstep
      split at hstep
      · exact absurd rfl ha
      · exact hstep

end Kinds

/-! ### Accounts -/

/-- What a session owes to the callbacks `given` and to its operations. -/
structure Accounts (given : List Nat) (s : SessionBase) : Prop where
  one : s.OneWrite
  inFlight : ∀ w ∈ s.inFlight, w.id + 1 = s.writes
  operations : (s.executed ++ s.waiting).Perm (List.range s.operations)
  callbacks : s.callbacks.map Prod.fst ++ s.pendingCallbacks = given
  increasing : given.Pairwise (· < ·)
  started : ∀ w ∈ given, w < s.writes
  /-- A callback runs at the completion of its write or of a later one. -/
  late : ∀ p ∈ s.callbacks, ∃ n, p.2 = some n ∧ p.1 ≤ n ∧ n + s.inFlight.length < s.writes
  /-- A completion runs one callback at most. -/
  apart : s.callbacks.Pairwise fun p q => ∀ m ∈ p.2, ∀ n ∈ q.2, m < n

theorem accounts_init : Accounts [] {} := by
  refine ⟨Or.inl ⟨rfl, rfl⟩, ?_, ?_, rfl, List.Pairwise.nil, ?_, ?_, List.Pairwise.nil⟩
  · intro w hw
    cases hw
  · exact List.Perm.refl _
  · intro w hw
    cases hw
  · intro p hp
    cases hp

section Step

variable {given : List Nat} {s s' : SessionBase}

/-- What runs on the strand, how the next write is sent and what has completed do not matter. -/
theorem Accounts.of_eq (h : Accounts given s)
    (e : s = { s' with
      stack := s.stack, mode := s.mode, writeBuffer := s.writeBuffer
      completed := s.completed }) : Accounts given s' := by
  rw [e] at h
  exact ⟨h.one, h.inFlight, h.operations, h.callbacks, h.increasing, h.started, h.late, h.apart⟩

theorem Accounts.idle (h : Accounts given s) :
    Accounts given { s with writeInProgress := false, inFlight := [] } := by
  refine ⟨Or.inl ⟨rfl, rfl⟩, ?_, h.operations, h.callbacks, h.increasing, h.started, ?_, h.apart⟩
  · intro w hw
    cases hw
  · intro p hp
    obtain ⟨n, hn, hle, hlt⟩ := h.late p hp
    exact ⟨n, hn, hle, Nat.lt_of_le_of_lt (Nat.le_add_right n _) hlt⟩

theorem Accounts.push (h : Accounts given s) :
    Accounts given { s with
      operations := s.operations + 1
      enqueuedWrites := s.enqueuedWrites ++ [.operation s.operations] } := by
  refine ⟨h.one, h.inFlight, ?_, ?_, h.increasing, h.started, h.late, h.apart⟩
  · have hperm := h.operations.append_right [s.operations]
    rw [List.append_assoc, ← List.range_succ] at hperm
    simpa [waiting, Entry.operation?] using hperm
  · simpa [pendingCallbacks, List.filterMap_cons, Entry.callback?] using h.callbacks

theorem Accounts.runNow (h : Accounts given s) :
    Accounts given
      ({ s with operations := s.operations + 1 }.runEntry (.operation s.operations) none) := by
  refine ⟨h.one, h.inFlight, ?_, h.callbacks, h.increasing, h.started, h.late, h.apart⟩
  have hperm : (s.executed ++ s.operations :: s.waiting).Perm (List.range (s.operations + 1)) := by
    rw [List.range_succ]
    refine List.perm_middle.trans ((h.operations.cons s.operations).trans ?_)
    exact (List.perm_append_singleton s.operations _).symm
  simpa [runEntry, waiting] using hperm

theorem Accounts.writeCommon (h : Accounts given s) (hflight : s.inFlight = []) (data : Bytes)
    (hasOnComplete : Bool) :
    Accounts (given ++ if hasOnComplete then [s.writes] else [])
      (s.writeCommon data hasOnComplete) := by
  rw [writeCommon_eq, hflight]
  refine ⟨Or.inr ⟨rfl, _, rfl⟩, ?_, ?_, ?_, ?_, ?_, ?_, h.apart⟩
  · intro w hw
    rw [List.mem_singleton.mp hw]
  · cases hasOnComplete with
    | false => simpa [waiting] using h.operations
    | true => simpa [waiting, List.filterMap_cons, Entry.operation?] using h.operations
  · cases hasOnComplete with
    | false => simpa [pendingCallbacks] using h.callbacks
    | true => simp [pendingCallbacks, Entry.callback?, ← h.callbacks]
  · cases hasOnComplete with
    | false => simpa using h.increasing
    | true => simpa [List.pairwise_append] using ⟨h.increasing, h.started⟩
  · intro w hw
    rcases List.mem_append.mp hw with hw | hw
    · exact Nat.lt_succ_of_lt (h.started w hw)
    · split_ifs at hw
      · rw [List.mem_singleton.mp hw]
        exact Nat.lt_succ_self _
      · cases hw
  · intro p hp
    obtain ⟨n, hn, hle, hlt⟩ := h.late p hp
    rw [hflight] at hlt
    exact ⟨n, hn, hle, Nat.succ_lt_succ hlt⟩

/-- **A completion** of `session_base` runs the first entry. -/
theorem Accounts.onWrite {w : Write} (h : Accounts given s) (hflight : s.inFlight = [w]) :
    Accounts given ({ s with inFlight := [] }.onWrite w none) := by
  have hid : w.id + 1 = s.writes := h.inFlight w (hflight ▸ List.mem_singleton_self w)
  obtain ⟨queue, hqueue⟩ : ∃ queue, s.enqueuedWrites = queue := ⟨_, rfl⟩
  cases queue with
  | nil =>
    rw [onWrite_nil w (s := { s with inFlight := [] }) hqueue]
    exact h.idle.of_eq rfl
  | cons front rest =>
    rw [onWrite_cons w (s := { s with inFlight := [] }) hqueue]
    cases front with
    | operation n =>
      refine ⟨Or.inl ⟨rfl, rfl⟩, h.idle.inFlight, ?_, ?_, h.increasing, h.started, h.idle.late,
        h.apart⟩
      · have hperm := h.operations
        rw [waiting, hqueue] at hperm
        simpa [runEntry, waiting, Entry.operation?] using hperm
      · have hsame := h.callbacks
        rw [pendingCallbacks, hqueue] at hsame
        simpa [runEntry, pendingCallbacks, List.filterMap_cons, Entry.callback?] using hsame
    | onComplete write =>
      have hsame := h.callbacks
      rw [pendingCallbacks, hqueue] at hsame
      have hwrite : write < s.writes := by
        refine h.started write ?_
        rw [← hsame]
        simp [Entry.callback?]
      refine ⟨Or.inl ⟨rfl, rfl⟩, h.idle.inFlight, ?_, ?_, h.increasing, h.started, ?_, ?_⟩
      · have hperm := h.operations
        rw [waiting, hqueue] at hperm
        simpa [runEntry, waiting, List.filterMap_cons, Entry.operation?] using hperm
      · simpa [runEntry, pendingCallbacks, Entry.callback?] using hsame
      · intro p hp
        rcases List.mem_append.mp hp with hp | hp
        · exact h.idle.late p hp
        · rw [List.mem_singleton.mp hp]
          refine ⟨w.id, rfl, ?_, ?_⟩
          · rw [← hid] at hwrite
            exact Nat.le_of_lt_succ hwrite
          · exact Nat.lt_of_succ_le (Nat.le_of_eq hid)
      · refine List.pairwise_append.mpr ⟨h.apart, List.pairwise_singleton _ _, ?_⟩
        intro p hp q hq m hm n hn
        rw [List.mem_singleton.mp hq, Option.mem_some_iff] at hn
        obtain ⟨k, hk, -, hlt⟩ := h.late p hp
        rw [hk, Option.mem_some_iff] at hm
        rw [hflight, List.length_singleton] at hlt
        omega

/-- **One step**: what it starts with a callback is owed from then on. -/
theorem accounts_step {kind : SessionKind} {a : SessionAction} (h : Accounts given s)
    (hstep : stepOf kind s a = some s') : Accounts (given ++ s.givenBy a) s' := by
  rcases stepOf_cases hstep with ⟨hstep, -⟩ | ⟨-, rfl, -, w, inFlight, hflight, rfl⟩
  · rcases step_cases hstep with ⟨rfl, -, rfl⟩ | ⟨mode, data, hasOnComplete, rfl, -, rfl⟩ |
      ⟨rfl, -, rfl⟩ | ⟨code, stack, rfl, -, rfl⟩ | ⟨ec, w, inFlight, rfl, -, hflight, rfl⟩
    · rw [givenBy, List.append_nil]
      exact h.of_eq rfl
    · by_cases hw : s.writeInProgress
      · have hnone : s.givenBy (.write mode data hasOnComplete) = [] := by
          simp [givenBy, write, hw]
        rw [hnone, List.append_nil, write, if_pos hw]
        exact h
      · have hsome : s.givenBy (.write mode data hasOnComplete) =
            if hasOnComplete then [s.writes] else [] := by
          simp [givenBy, write, hw]
        rw [hsome, write, if_neg hw]
        have hmode : Accounts given { s with mode := mode } := h.of_eq rfl
        exact hmode.writeCommon (h.one.not_inProgress hw) data hasOnComplete
    · rw [givenBy, List.append_nil, enqueueWrite]
      split_ifs
      · exact h.push
      · exact h.runNow
    · rw [givenBy, List.append_nil]
      exact h.of_eq rfl
    · obtain rfl := h.one.of_cons hflight
      rw [givenBy, List.append_nil]
      cases ec with
      | some ec => exact h.idle.of_eq rfl
      | none => exact h.onWrite hflight
  · obtain rfl := h.one.of_cons hflight
    rw [givenBy, List.append_nil]
    exact h.idle.of_eq rfl

/-- The sessions that override `on_write_complete` take nothing from the queue. -/
theorem enqueuedWrites_overriding {a : SessionAction} (hstep : stepOf .overriding s a = some s') :
    s.enqueuedWrites <+: s'.enqueuedWrites ∧ s'.callbacks = s.callbacks := by
  rcases stepOf_cases hstep with ⟨hstep, hkind⟩ | ⟨-, -, -, w, inFlight, -, rfl⟩
  · rcases step_cases hstep with ⟨-, -, rfl⟩ | ⟨mode, data, hasOnComplete, -, -, rfl⟩ |
      ⟨-, -, rfl⟩ | ⟨code, stack, -, -, rfl⟩ | ⟨ec, w, inFlight, rfl, -, -, rfl⟩
    · exact ⟨List.prefix_refl _, rfl⟩
    · rw [write]
      split_ifs
      · exact ⟨List.prefix_refl _, rfl⟩
      · rw [writeCommon_eq]
        exact ⟨List.prefix_append _ _, rfl⟩
    · rw [enqueueWrite]
      split_ifs
      · exact ⟨List.prefix_append _ _, rfl⟩
      · exact ⟨List.prefix_refl _, rfl⟩
    · exact ⟨List.prefix_refl _, rfl⟩
    · cases ec with
      | some ec => exact ⟨List.prefix_refl _, rfl⟩
      | none => exact absurd rfl (hkind rfl)
  · exact ⟨List.prefix_refl _, rfl⟩

end Step

/-! ### Whole runs -/

/-- What waits in a session that overrides `on_write_complete` stays where it is. -/
theorem waits_for_ever {actions : List SessionAction} {s s' : SessionBase}
    (hrun : run (stepOf .overriding) s actions = some s') :
    s.enqueuedWrites <+: s'.enqueuedWrites ∧ s'.callbacks = s.callbacks := by
  refine run_invariant (A := fun _ => True)
    (I := fun t => s.enqueuedWrites <+: t.enqueuedWrites ∧ t.callbacks = s.callbacks) ?_
    (fun _ _ => trivial) ⟨List.prefix_refl _, rfl⟩ hrun
  intro t a t' _ h hstep
  obtain ⟨hqueue, hcallbacks⟩ := enqueuedWrites_overriding hstep
  exact ⟨h.1.trans hqueue, hcallbacks.trans h.2⟩

/-- **The accounts of the write queue**, for the sessions of either kind and whatever fails: each
operation passed to `enqueue_write` has been executed once or waits once. The callbacks run in the
order in which their writes have been started, each once or it waits, none before its write is
done, and one at a completion at most. A session that overrides `on_write_complete` runs none, and
what waits in it waits for ever. -/
theorem write_queue_accounts (kind : SessionKind) (actions : List SessionAction) (s : SessionBase)
    (hrun : run (stepOf kind) {} actions = some s) :
    (s.executed ++ s.waiting).Perm (List.range s.operations) ∧
      s.callbacks.map Prod.fst ++ s.pendingCallbacks = given kind {} actions ∧
      (given kind {} actions).Pairwise (· < ·) ∧
      (∀ p ∈ s.callbacks, ∃ n, p.2 = some n ∧ p.1 ≤ n) ∧
      (s.callbacks.Pairwise fun p q => ∀ m ∈ p.2, ∀ n ∈ q.2, m < n) ∧
      (kind = .overriding → s.callbacks = [] ∧ ∀ actions' s',
        run (stepOf kind) s actions' = some s' →
          s'.callbacks = [] ∧ s.enqueuedWrites <+: s'.enqueuedWrites) := by
  have h : Accounts (given kind {} actions) s :=
    run_invariant_gather (fun _ _ _ _ h hstep => accounts_step h hstep) accounts_init hrun
  refine ⟨h.operations, h.callbacks, h.increasing, fun p hp => ?_, h.apart, ?_⟩
  · obtain ⟨n, hn, hle, -⟩ := h.late p hp
    exact ⟨n, hn, hle⟩
  · rintro rfl
    have hnone : s.callbacks = [] := (waits_for_ever hrun).2
    refine ⟨hnone, fun actions' s' hrun' => ?_⟩
    obtain ⟨hqueue, hcallbacks⟩ := waits_for_ever hrun'
    exact ⟨hcallbacks.trans hnone, hqueue⟩

/-- A failed write, whose callback runs at the completion of the next. -/
theorem write_queue_accounts_failed :
    ∃ s, run (stepOf .base) {} [.handler, .write .text (bytes "a") true, .return_,
        .written (some .eof), .write .text (bytes "b") true, .return_, .written none] = some s ∧
      s.callbacks = [(0, some 1)] ∧
      s.callbacks.map Prod.fst ++ s.pendingCallbacks = given .base {} [.handler,
        .write .text (bytes "a") true, .return_, .written (some .eof),
        .write .text (bytes "b") true, .return_, .written none] :=
  ⟨_, rfl, rfl, (write_queue_accounts .base _ _ rfl).2.1⟩

end SessionBase

end Attender.Websocket
