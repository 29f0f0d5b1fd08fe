import Attender.Websocket.SessionBase
import Mathlib.Data.List.Range

/-!
# The write queue

What a session owes to the operations passed to `enqueue_write` and to the
completion callbacks. A completion runs one entry of the queue whatever that
entry is, and nothing else runs the entries behind it. So a callback is put
behind operations that its write does not run, an operation passed to
`enqueue_write` overtakes those in the queue, and entries stay in the queue for
ever if none of these starts a write.
-/

namespace Attender.Websocket.SessionBase

open Attender.Library Attender.Utility

/-- The callbacks of the writes in flight. -/
def due (s : SessionBase) : List Entry :=
  (s.inFlight.filter Write.hasOnComplete).map fun w => .onComplete w.id

/-- What a session owes: the operations run once each and in their order, the callbacks run once
each at the completions of their writes, and no entry is left in the queue when nothing goes on. -/
structure Lawful (s : SessionBase) : Prop where
  order : ∃ waiting, s.enqueuedWrites = s.due ++ waiting.map Entry.operation ∧
    s.executed ++ waiting = List.range s.operations
  callbacks : s.callbacks = (s.completed.filter Write.hasOnComplete).map fun w => (w.id, some w.id)
  rest : s.stack = [] → s.inFlight = [] → s.enqueuedWrites = []

/-- The steps that break the law: a write with a callback or an operation that finds entries in the
queue while no write is in progress, and a return that leaves them there. -/
def Breaks (s : SessionBase) : SessionAction → Prop
  | .write _ _ hasOnComplete => hasOnComplete ∧ ¬ s.writeInProgress ∧ s.enqueuedWrites ≠ []
  | .enqueueWrite => ¬ s.writeInProgress ∧ s.enqueuedWrites ≠ []
  | .return_ => s.stack.length = 1 ∧ ¬ s.writeInProgress ∧ s.enqueuedWrites ≠ []
  | _ => False

/-- The completions of writes that succeed. -/
def Succeeds (a : SessionAction) : Prop := ∀ ec, a ≠ .written (some ec)

theorem lawful_init : Lawful {} := ⟨⟨[], rfl, rfl⟩, rfl, fun _ _ => rfl⟩

/-! ### One step -/

section Step

variable {s s' : SessionBase}

theorem due_eq_nil (h : s.inFlight = []) : s.due = [] := by simp [due, h]

/-- The next operation cannot come before those that wait. -/
theorem waiting_eq_nil {executed waiting : List Nat} {n : Nat}
    (h : executed ++ waiting = List.range n)
    (h' : executed ++ [n] ++ waiting = List.range (n + 1)) : waiting = [] := by
  rw [List.range_succ, ← h, List.append_assoc, List.append_assoc, List.append_cancel_left_eq] at h'
  cases waiting with
  | nil => rfl
  | cons m waiting =>
    obtain ⟨rfl, -⟩ := List.cons.inj h'
    have hn : n ∈ List.range n := h ▸ List.mem_append_right _ List.mem_cons_self
    exact absurd (List.mem_range.mp hn) (Nat.lt_irrefl n)

theorem Lawful.enqueue (h : s.Lawful) (hflight : s.inFlight ≠ []) :
    Lawful { s with
      operations := s.operations + 1
      enqueuedWrites := s.enqueuedWrites ++ [.operation s.operations] } := by
  obtain ⟨waiting, hqueue, horder⟩ := h.order
  refine ⟨⟨waiting ++ [s.operations], ?_, ?_⟩, h.callbacks, fun _ hf => absurd hf hflight⟩
  · simp [hqueue, due]
  · rw [← List.append_assoc, horder, List.range_succ]

/-- An operation that is run at once is in its order exactly if the queue is empty. -/
theorem Lawful.run_iff (h : s.Lawful) (hflight : s.inFlight = []) :
    Lawful ({ s with operations := s.operations + 1 }.runEntry (.operation s.operations) none) ↔
      s.enqueuedWrites = [] := by
  obtain ⟨waiting, hqueue, horder⟩ := h.order
  rw [due_eq_nil hflight, List.nil_append] at hqueue
  constructor
  · intro h'
    obtain ⟨waiting', hqueue', horder'⟩ := h'.order
    have hdue : ({ s with operations := s.operations + 1 }.runEntry
        (.operation s.operations) none).due = [] :=
      due_eq_nil hflight
    rw [hdue, List.nil_append] at hqueue'
    have hsame : waiting' = waiting :=
      List.map_injective_iff.mpr (fun _ _ h => Entry.operation.inj h) (hqueue'.symm.trans hqueue)
    rw [hsame] at horder'
    rw [hqueue, waiting_eq_nil horder horder', List.map_nil]
  · intro hnil
    rw [hnil, eq_comm, List.map_eq_nil_iff] at hqueue
    rw [hqueue, List.append_nil] at horder
    refine ⟨⟨[], ?_, ?_⟩, h.callbacks, fun hstack => nomatch hstack⟩
    · rw [List.map_nil, List.append_nil]
      exact hnil.trans (due_eq_nil hflight).symm
    · rw [List.append_nil, runEntry, List.range_succ, ← horder]

/-- A callback is the next entry to be run exactly if it has been put in an empty queue. -/
theorem Lawful.writeCommon_iff (h : s.Lawful) (hflight : s.inFlight = []) (data : Bytes)
    (hasOnComplete : Bool) :
    Lawful (s.writeCommon data hasOnComplete) ↔ (hasOnComplete → s.enqueuedWrites = []) := by
  obtain ⟨waiting, hqueue, horder⟩ := h.order
  rw [due_eq_nil hflight, List.nil_append] at hqueue
  rw [writeCommon_eq]
  cases hasOnComplete with
  | false =>
    refine iff_of_true ⟨⟨waiting, ?_, horder⟩, h.callbacks, fun _ hf => ?_⟩ nofun
    · simp [due, hflight, hqueue]
    · simp at hf
  | true =>
    constructor
    · intro h' _
      obtain ⟨waiting', hqueue', -⟩ := h'.order
      cases waiting with
      | nil => exact hqueue
      | cons n waiting => simp [due, hflight, hqueue] at hqueue'
    · intro hnil
      refine ⟨⟨waiting, ?_, horder⟩, h.callbacks, fun _ hf => ?_⟩
      · have hwaiting : waiting = [] := by
          rw [hnil rfl, eq_comm, List.map_eq_nil_iff] at hqueue
          exact hqueue
        simp [due, hflight, hnil, hwaiting]
      · simp at hf

/-- A completion runs the callback of its write, if there is one, or else the next operation. -/
theorem Lawful.written {w : Write} (h : s.Lawful) (hflight : s.inFlight = [w]) :
    Lawful ({ s with inFlight := [] }.onWrite w none) := by
  obtain ⟨waiting, hqueue, horder⟩ := h.order
  have hcallbacks := h.callbacks
  by_cases hw : w.hasOnComplete
  · have hfront : s.enqueuedWrites = .onComplete w.id :: waiting.map Entry.operation := by
      simp [hqueue, due, hflight, hw]
    rw [onWrite_cons w (s := { s with inFlight := [] }) hfront]
    refine ⟨⟨waiting, ?_, horder⟩, ?_, fun hs => nomatch hs⟩
    · simp [runEntry, due]
    · simp [runEntry, hcallbacks, hw]
  · have hfront : s.enqueuedWrites = waiting.map Entry.operation := by
      simp [hqueue, due, hflight, hw]
    cases waiting with
    | nil =>
      rw [onWrite_nil w (s := { s with inFlight := [] }) hfront]
      refine ⟨⟨[], ?_, horder⟩, ?_, fun _ _ => hfront⟩
      · simp [due, hfront]
      · simp [hcallbacks, hw]
    | cons n waiting =>
      rw [onWrite_cons w (s := { s with inFlight := [] }) hfront]
      refine ⟨⟨waiting, ?_, ?_⟩, ?_, fun hs => nomatch hs⟩
      · simp [runEntry, due]
      · simpa [runEntry] using horder
      · simp [runEntry, hcallbacks, hw]

/-- **One step** keeps the law exactly if it does not break it. -/
theorem lawful_step_iff {a : SessionAction} (ha : Succeeds a) (hone : s.OneWrite) (h : s.Lawful)
    (hstep : s.step a = some s') : s'.Lawful ↔ ¬ s.Breaks a := by
  rcases step_cases hstep with ⟨rfl, -, rfl⟩ | ⟨mode, data, hasOnComplete, rfl, -, rfl⟩ |
    ⟨rfl, -, rfl⟩ | ⟨code, stack, rfl, hstack, rfl⟩ | ⟨ec, w, inFlight, rfl, -, hflight, rfl⟩
  · exact iff_of_true ⟨h.order, h.callbacks, fun hs => absurd hs (List.cons_ne_nil _ _)⟩ id
  · rw [write]
    split_ifs with hw
    · exact iff_of_true h fun hbreaks => hbreaks.2.1 hw
    · have hmode : Lawful { s with mode := mode } := ⟨h.order, h.callbacks, h.rest⟩
      rw [hmode.writeCommon_iff (hone.not_inProgress hw), Breaks]
      simp only [hw, not_and, not_not]
      constructor
      · intro hnil honComplete _
        exact hnil honComplete
      · intro hnil honComplete
        exact hnil honComplete Bool.false_ne_true
  · rw [enqueueWrite]
    split_ifs with hw
    · obtain ⟨w, hflight⟩ := hone.inProgress hw
      refine iff_of_true (h.enqueue ?_) fun hbreaks => hbreaks.1 hw
      rw [hflight]
      exact List.cons_ne_nil _ _
    · rw [h.run_iff (hone.not_inProgress hw), Breaks, and_iff_right hw, not_not]
  · rw [Breaks, hstack, List.length_cons, Nat.add_eq_right, List.length_eq_zero_iff]
    constructor
    · intro h' hbreaks
      exact hbreaks.2.2 (h'.rest hbreaks.1 (hone.not_inProgress hbreaks.2.1))
    · intro hkeeps
      refine ⟨h.order, h.callbacks, ?_⟩
      intro hnil hflight
      by_contra hqueue
      refine hkeeps ⟨hnil, ?_, hqueue⟩
      intro hw
      obtain ⟨w, hf⟩ := hone.inProgress hw
      rw [hf] at hflight
      cases hflight
  · cases ec with
    | some ec => exact absurd rfl (ha ec)
    | none =>
      obtain rfl := hone.of_cons hflight
      exact iff_of_true (h.written hflight) id

end Step

/-! ### Whole runs -/

/-- **The write queue**: a run in which all writes succeed keeps the law in all its states exactly
if none of its steps breaks it. -/
theorem write_queue_iff (actions : List SessionAction) (hactions : ∀ a ∈ actions, Succeeds a)
    (s : SessionBase) (hrun : run step {} actions = some s) :
    Throughout step Lawful {} actions ↔ Along step (fun s a => ¬ s.Breaks a) {} actions := by
  refine throughout_iff_along (I := OneWrite) ?_ ?_ (Or.inl ⟨rfl, rfl⟩) lawful_init hactions hrun
  · intro s a s' _ hone _ hstep _
    exact oneWrite_step hone hstep
  · intro s a s' ha hone h hstep
    exact lawful_step_iff ha hone h hstep

/-- A write, and an operation that writes when the first is done. -/
theorem write_queue_iff_queued :
    Throughout step Lawful {}
        [.handler, .write .text (bytes "a") false, .enqueueWrite, .return_, .written none,
          .write .binary (bytes "b") true, .return_, .written none, .return_] ↔
      Along step (fun s a => ¬ s.Breaks a) {}
        [.handler, .write .text (bytes "a") false, .enqueueWrite, .return_, .written none,
          .write .binary (bytes "b") true, .return_, .written none, .return_] :=
  write_queue_iff _ (by simp [Succeeds])
    { mode := .binary
      writes := 2
      completed := [⟨0, .text, bytes "a", false⟩, ⟨1, .binary, bytes "b", true⟩]
      operations := 1
      executed := [0]
      callbacks := [(1, some 1)] }
    (by decide)

/-- The callback of a write is run at its completion, and the operation behind it stays in the
queue. -/
theorem write_queue_strands :
    ¬ ∀ (actions : List SessionAction), (∀ a ∈ actions, Succeeds a) →
      ∀ s, run step {} actions = some s → s.Lawful := by
  intro hclaim
  have hlaw := hclaim
    [.handler, .write .text (bytes "a") true, .enqueueWrite, .return_, .written none, .return_]
    (by simp [Succeeds])
    { enqueuedWrites := [.operation 0]
      writes := 1
      completed := [⟨0, .text, bytes "a", true⟩]
      operations := 1
      callbacks := [(0, some 0)] }
    (by decide)
  exact absurd (hlaw.rest rfl rfl) (List.cons_ne_nil _ _)

end Attender.Websocket.SessionBase
