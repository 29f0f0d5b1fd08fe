import Attender.Websocket.SessionBase

/-!
# The mutex of the write queue

`queue_mut_` is no recursive mutex, and `on_write_complete` holds it while the
entry that it has taken from the queue runs. So the strand waits for itself as
soon as that entry, or what it calls in turn, puts another entry in the queue.
-/

namespace Attender.Websocket

open Attender.Library Attender.Utility

/-- A session with its mutex. -/
structure LockedSession where
  session : SessionBase := {}
  /-- The strand holds `queue_mut_`. -/
  held : Bool := false
  /-- It has tried to lock the mutex that it holds, and waits for ever. -/
  blocked : Bool := false
  deriving DecidableEq

namespace LockedSession

variable (s : LockedSession)

/-- `std::scoped_lock lock{queue_mut_}`, which is never done if the strand holds the mutex. -/
def lock : Option LockedSession := if s.held then none else some { s with held := true }

/-- The end of the `scoped_lock`. -/
def unlock : LockedSession := { s with held := false }

/-- `session_base::enqueue_write`. -/
def enqueueWrite (e : Entry) : Option LockedSession :=
  if ¬ s.session.writeInProgress then some { s with session := s.session.runEntry e none }
  else s.lock.map fun s =>
    unlock { s with
      session := { s.session with enqueuedWrites := s.session.enqueuedWrites ++ [e] } }

/-- `session_base::write_common` behind the call of `enqueue_write`. -/
def asyncWrite (data : Bytes) (hasOnComplete : Bool) : LockedSession :=
  let session := { s.session with writeBuffer := s.session.writeBuffer ++ data }
  let write := {
    id := session.writes, mode := session.mode, data := session.writeBuffer
    hasOnComplete := hasOnComplete }
  { s with
    session := { session with
      inFlight := session.inFlight ++ [write], writes := session.writes + 1 } }

/-- `session_base::write_common`. -/
def writeCommon (data : Bytes) (hasOnComplete : Bool) : Option LockedSession :=
  let id := s.session.writes
  let s := { s with session := { s.session with writeInProgress := true } }
  (if hasOnComplete then s.enqueueWrite (.onComplete id) else some s).map fun s =>
    s.asyncWrite data hasOnComplete

/-- `session_base::write_text` and `session_base::write_binary`. -/
def write (mode : Mode) (data : Bytes) (hasOnComplete : Bool) : Option LockedSession :=
  if s.session.writeInProgress then some s
  else { s with session := { s.session with mode := mode } }.writeCommon data hasOnComplete

/-- `session_base::on_write_complete`. If an entry runs, the mutex is held until it returns. -/
def onWriteComplete (write : Nat) : Option LockedSession :=
  s.lock.map fun s =>
    match s.session.enqueuedWrites with
    | [] => s.unlock
    | front :: rest =>
      { s with
        session := { s.session with enqueuedWrites := rest }.runEntry front (some write) }

/-- `connection::on_write`. -/
def onWrite (write : Write) (ec : Option ErrorCode) : Option LockedSession :=
  let session := { s.session with writeInProgress := false, writeBuffer := [] }
  match ec with
  | some ec => some { s with session := { session with stack := .onError ec :: session.stack } }
  | none =>
    { s with session := { session with completed := session.completed ++ [write] } }.onWriteComplete
      write.id

/-- What comes of a call: without a result the strand is blocked. -/
def attempt (result : Option LockedSession) : LockedSession :=
  result.getD { s with blocked := true }

end LockedSession

/-- The code that runs while `on_write_complete` holds the mutex. -/
def Code.holds : Code → Bool
  | .entry _ (some _) => true
  | .entry _ none | .handler | .onError _ => false

/-- One step of a session with its mutex. -/
def LockedSession.step (s : LockedSession) (a : SessionAction) : Option LockedSession :=
  if s.blocked then none
  else
    match a with
    | .handler => (s.session.step .handler).map fun session => { s with session := session }
    | .write mode data hasOnComplete =>
      if s.session.stack ≠ [] then some (s.attempt (s.write mode data hasOnComplete)) else none
    | .enqueueWrite =>
      if s.session.stack ≠ [] then
        let n := s.session.operations
        let s' := { s with session := { s.session with operations := n + 1 } }
        some (s.attempt (s'.enqueueWrite (.operation n)))
      else none
    | .return_ =>
      match s.session.stack with
      | [] => none
      | code :: stack =>
        let s' := { s with session := { s.session with stack := stack } }
        some (if code.holds then s'.unlock else s')
    | .written ec =>
      match s.session.stack, s.session.inFlight with
      | [], write :: inFlight =>
        let s' := { s with session := { s.session with inFlight := inFlight } }
        some (s.attempt (s'.onWrite write ec))
      | _, _ => none

namespace LockedSession

/-! ### Who holds the mutex -/

/-- The steps that lock the mutex again: an entry of the queue runs at a completion, or code that
it has called, and starts a write with a callback, or enqueues while a write is in progress. -/
def Relocks (s : SessionBase) : SessionAction → Prop
  | .write _ _ hasOnComplete =>
    (∃ code ∈ s.stack, code.holds) ∧ hasOnComplete ∧ ¬ s.writeInProgress
  | .enqueueWrite => (∃ code ∈ s.stack, code.holds) ∧ s.writeInProgress
  | _ => False

/-- The mutex is held by the one entry that runs at a completion. -/
def Guarded (s : LockedSession) : Prop :=
  s.session.stack.countP Code.holds = if s.held then 1 else 0

theorem guarded_init : Guarded {} := rfl

variable {s s' : LockedSession}

theorem Guarded.held_iff (h : s.Guarded) :
    s.held ↔ ∃ code ∈ s.session.stack, code.holds := by
  rw [← List.countP_pos_iff, h]
  split_ifs with hheld
  · exact iff_of_true hheld Nat.one_pos
  · exact iff_of_false hheld (Nat.lt_irrefl 0)

/-- An entry runs outside of a completion. -/
theorem Guarded.runEntry (h : s.Guarded) (e : Entry) :
    Guarded { s with session := s.session.runEntry e none } := by
  cases e <;> exact h

theorem Guarded.not_held (h : s.Guarded) (hstack : s.session.stack = []) : s.held = false := by
  rw [Guarded, hstack, List.countP_nil] at h
  split_ifs at h with hheld
  exact Bool.eq_false_iff.mpr hheld

/-! ### The calls that lock -/

theorem enqueueWrite_of_held (e : Entry) (hw : s.session.writeInProgress) (hheld : s.held) :
    s.enqueueWrite e = none := by
  rw [enqueueWrite, if_neg (not_not.mpr hw), lock, if_pos hheld, Option.map_none]

theorem enqueueWrite_of_free (e : Entry) (hw : s.session.writeInProgress) (hfree : ¬ s.held) :
    s.enqueueWrite e = some { s with
      session := { s.session with enqueuedWrites := s.session.enqueuedWrites ++ [e] } } := by
  rw [Bool.not_eq_true] at hfree
  rw [enqueueWrite, if_neg (not_not.mpr hw), lock, hfree]
  simp [unlock]

/-- **A call of `enqueue_write`** blocks the strand exactly if it has to lock and the mutex is
held. -/
theorem enqueueWrite_cases (h : s.Guarded) (e : Entry) :
    s.enqueueWrite e = none ∧ s.held ∧ s.session.writeInProgress ∨
      ∃ s', s.enqueueWrite e = some s' ∧ s'.Guarded ∧ s'.blocked = s.blocked ∧
        s'.session = s.session.enqueueWrite e ∧ ¬ (s.held ∧ s.session.writeInProgress) := by
  by_cases hw : s.session.writeInProgress
  · by_cases hheld : s.held
    · exact Or.inl ⟨enqueueWrite_of_held e hw hheld, hheld, hw⟩
    · exact Or.inr ⟨_, enqueueWrite_of_free e hw hheld, h, rfl, (if_neg (not_not.mpr hw)).symm,
        fun hboth => hheld hboth.1⟩
  · exact Or.inr ⟨_, if_pos hw, h.runEntry e, rfl, (if_pos hw).symm, fun hboth => hw hboth.2⟩

/-- **A write** blocks it exactly if it is started with a callback while the mutex is held. -/
theorem write_cases (h : s.Guarded) (mode : Mode) (data : Bytes) (hasOnComplete : Bool) :
    s.write mode data hasOnComplete = none ∧
        (s.held ∧ hasOnComplete ∧ ¬ s.session.writeInProgress) ∨
      ∃ s', s.write mode data hasOnComplete = some s' ∧ s'.Guarded ∧ s'.blocked = s.blocked ∧
        s'.session = (s.session.write mode data hasOnComplete).1 ∧
        ¬ (s.held ∧ hasOnComplete ∧ ¬ s.session.writeInProgress) := by
  by_cases hw : s.session.writeInProgress
  · refine Or.inr ⟨s, if_pos hw, h, rfl, ?_, fun hall => hall.2.2 hw⟩
    rw [SessionBase.write, if_pos hw]
  let s₁ : LockedSession :=
    { s with session := { s.session with mode := mode, writeInProgress := true } }
  have hcall : s.write mode data hasOnComplete =
      (if hasOnComplete then s₁.enqueueWrite (.onComplete s.session.writes) else some s₁).map
        fun s => s.asyncWrite data hasOnComplete := by
    rw [write, if_neg hw]
    rfl
  rw [hcall, SessionBase.write, if_neg hw]
  cases hasOnComplete with
  | false => exact Or.inr ⟨_, rfl, h, rfl, rfl, fun hall => Bool.false_ne_true hall.2.1⟩
  | true =>
    rw [if_pos rfl]
    by_cases hheld : s.held
    · rw [enqueueWrite_of_held (s := s₁) _ rfl hheld]
      exact Or.inl ⟨rfl, hheld, rfl, hw⟩
    · rw [enqueueWrite_of_free (s := s₁) _ rfl hheld]
      exact Or.inr ⟨_, rfl, h, rfl, rfl, fun hall => hheld hall.1⟩

/-- A completion never blocks: no user code runs when it comes. -/
theorem onWrite_cases (h : s.Guarded) (hstack : s.session.stack = []) (write : Write)
    (ec : Option ErrorCode) :
    ∃ s', s.onWrite write ec = some s' ∧ s'.Guarded ∧ s'.blocked = s.blocked ∧
      s'.session = s.session.onWrite write ec := by
  have hfree := h.not_held hstack
  cases ec with
  | some ec => exact ⟨_, rfl, by simp [Guarded, hstack, hfree, Code.holds], rfl, rfl⟩
  | none =>
    rw [onWrite]
    dsimp only
    rw [onWriteComplete, lock, hfree, if_neg Bool.false_ne_true, Option.map_some]
    cases hqueue : s.session.enqueuedWrites with
    | nil =>
      rw [SessionBase.onWrite_nil write hqueue]
      exact ⟨_, rfl, by simp [Guarded, unlock, hstack], rfl, by simp [unlock, hqueue]⟩
    | cons front rest =>
      rw [SessionBase.onWrite_cons write hqueue]
      refine ⟨_, rfl, ?_, rfl, rfl⟩
      cases front <;> simp [Guarded, SessionBase.runEntry, hstack, Code.holds]

/-! ### Whole runs -/

/-- What a call that has a result leaves. -/
theorem attempt_some {s₀ : LockedSession} {result : Option LockedSession}
    (h : result = some s') : s₀.attempt result = s' := by
  rw [attempt, h, Option.getD_some]

theorem attempt_none {s₀ : LockedSession} {result : Option LockedSession} (h : result = none) :
    (s₀.attempt result).blocked := by
  rw [attempt, h, Option.getD_none]

/-- A call blocks the strand exactly if it locks the mutex again, and else it leaves what the
session without the mutex does. -/
theorem attempt_iff {result : Option LockedSession} {locks : Prop} {session : SessionBase}
    (hblocked : ¬ s.blocked)
    (hcases : result = none ∧ locks ∨
      ∃ s', result = some s' ∧ s'.Guarded ∧ s'.blocked = s.blocked ∧ s'.session = session ∧
        ¬ locks) :
    (¬ (s.attempt result).blocked ↔ ¬ locks) ∧
      (¬ (s.attempt result).blocked →
        (s.attempt result).Guarded ∧ some session = some (s.attempt result).session) := by
  rcases hcases with ⟨e, hlocks⟩ | ⟨s', e, hs', hsame, hsession, hlocks⟩
  · exact ⟨iff_of_false (not_not.mpr (attempt_none e)) (not_not.mpr hlocks),
      fun hfree => absurd (attempt_none e) hfree⟩
  · rw [attempt_some e, hsession]
    exact ⟨iff_of_true (hsame ▸ hblocked) hlocks, fun _ => ⟨hs', rfl⟩⟩

/-- **One step** blocks the strand exactly if it locks the mutex again, and else it is that of the
session without the mutex. -/
theorem step_iff {a : SessionAction} (h : s.Guarded) (hstep : s.step a = some s') :
    (¬ s'.blocked ↔ ¬ Relocks s.session a) ∧
      (¬ s'.blocked → s'.Guarded ∧ s.session.step a = some s'.session) := by
  cases a with
  | handler =>
    simp only [step, SessionBase.step] at hstep
    split_ifs at hstep with hblocked hstack
    · cases hstep
      refine ⟨iff_of_true hblocked id, fun _ => ⟨?_, ?_⟩⟩
      · simpa [Guarded, hstack, Code.holds] using h
      · rw [SessionBase.step, if_pos hstack]
    · cases hstep
  | write mode data hasOnComplete =>
    simp only [step] at hstep
    split_ifs at hstep with hblocked hstack
    cases hstep
    rw [Relocks, ← h.held_iff, SessionBase.step, if_pos hstack]
    exact attempt_iff hblocked (write_cases h mode data hasOnComplete)
  | enqueueWrite =>
    simp only [step] at hstep
    split_ifs at hstep with hblocked hstack
    cases hstep
    rw [Relocks, ← h.held_iff, SessionBase.step, if_pos hstack]
    have hcases := enqueueWrite_cases (s := { s with
        session := { s.session with operations := s.session.operations + 1 } }) h
      (.operation s.session.operations)
    exact attempt_iff hblocked hcases
  | return_ =>
    simp only [step] at hstep
    split_ifs at hstep with hblocked
    cases hstack : s.session.stack with
    | nil =>
      rw [hstack] at hstep
      cases hstep
    | cons code stack =>
      rw [hstack] at hstep
      dsimp only at hstep
      cases hstep
      rw [Guarded, hstack, List.countP_cons] at h
      refine ⟨iff_of_true (by split_ifs <;> exact hblocked) id, fun _ => ⟨?_, ?_⟩⟩
      swap
      · simp only [SessionBase.step, hstack]
        split_ifs <;> rfl
      split_ifs with hholds
      · rw [Guarded, unlock, if_neg Bool.false_ne_true]
        rw [if_pos hholds] at h
        dsimp only
        split_ifs at h
        · omega
      · rw [Guarded]
        rwa [if_neg hholds] at h
  | written ec =>
    simp only [step] at hstep
    split_ifs at hstep with hblocked
    split at hstep
    · next write inFlight hstack hflight =>
      cases hstep
      obtain ⟨s', e, hs', hsame, hsession⟩ := onWrite_cases (s := { s with
        session := { s.session with inFlight := inFlight } }) h hstack write ec
      rw [attempt_some e]
      refine ⟨iff_of_true (hsame ▸ hblocked) id, fun _ => ⟨hs', ?_⟩⟩
      simp only [SessionBase.step, hstack, hflight, hsession]
    · cases hstep

/-- **The mutex of the queue**: the strand is not blocked throughout a run exactly if none of its
steps locks the mutex again. -/
theorem no_self_deadlock_iff (actions : List SessionAction) (s : LockedSession)
    (hrun : run step {} actions = some s) :
    Throughout step (fun s => ¬ s.blocked) {} actions ↔
      Along step (fun s a => ¬ Relocks s.session a) {} actions := by
  refine throughout_iff_along (A := fun _ => True) (I := Guarded) ?_ ?_ guarded_init
    Bool.false_ne_true (fun _ _ => trivial) hrun
  · intro s a s' _ h _ hstep hfree
    exact ((step_iff h hstep).2 hfree).1
  · intro s a s' _ h _ hstep
    exact (step_iff h hstep).1

/-- An operation that writes without a callback when the write before it is done. -/
theorem no_self_deadlock_iff_queued :
    Throughout step (fun s => ¬ s.blocked) {}
        [.handler, .write .text (bytes "a") false, .enqueueWrite, .return_, .written none,
          .write .binary (bytes "b") false, .return_, .written none] ↔
      Along step (fun s a => ¬ Relocks s.session a) {}
        [.handler, .write .text (bytes "a") false, .enqueueWrite, .return_, .written none,
          .write .binary (bytes "b") false, .return_, .written none] :=
  no_self_deadlock_iff _
    { session := {
        mode := .binary
        writes := 2
        completed := [⟨0, .text, bytes "a", false⟩, ⟨1, .binary, bytes "b", false⟩]
        operations := 1
        executed := [0] } }
    (by decide)

/-- An operation that writes with a callback when the write before it is done. -/
theorem self_deadlock :
    ¬ ∀ (actions : List SessionAction) (s : LockedSession), run step {} actions = some s →
      ¬ s.blocked := by
  intro h
  have hrun : (run step {} [.handler, .write .text (bytes "a") false, .enqueueWrite, .return_,
      .written none, .write .text (bytes "b") true]).map LockedSession.blocked = some true := by
    decide
  obtain ⟨s, hs, hblocked⟩ := Option.map_eq_some_iff.mp hrun
  exact h _ s hs hblocked

end LockedSession

end Attender.Websocket
