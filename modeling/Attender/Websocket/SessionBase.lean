import Attender.Library.Bytes
import Attender.Library.Runs
import Attender.Utility.CallbackWrapper

/-!
# Websocket sessions

The writes of `session_base`. One write of the stream is in progress at a time,
and what is passed to `enqueue_write` meanwhile is kept in a queue, of which
each completion runs the first entry. The completion callbacks of the writes are
kept in the same queue. All user code runs on one strand, and what it calls of
the session comes in any order; the mutex of the queue is left aside.
-/

namespace Attender.Websocket

open Attender.Library Attender.Utility

/-- How the stream sends a message: `ws.text(true)` or `ws.binary(true)`. -/
inductive Mode where
  | text
  | binary
  deriving DecidableEq

/-- What is put in `enqueued_writes_`. -/
inductive Entry where
  /-- What has been passed to `enqueue_write`, numbered in the order of the calls. -/
  | operation (n : Nat)
  /-- The `on_complete` of a write. -/
  | onComplete (write : Nat)
  deriving DecidableEq

/-- User code that runs on the strand. -/
inductive Code where
  /-- `on_text`, `on_binary` and the like. -/
  | handler
  /-- `on_error`. -/
  | onError (ec : ErrorCode)
  /-- An entry of the queue, at the completion of a write, or at once in `enqueue_write`. -/
  | entry (e : Entry) (completion : Option Nat)
  deriving DecidableEq

/-- A write of the stream, numbered in the order of the starts. -/
structure Write where
  id : Nat
  mode : Mode
  data : Bytes
  /-- It has been given an `on_complete`. -/
  hasOnComplete : Bool
  deriving DecidableEq

/-- `session_base`, with the members of its connection that it writes with, and what it has done so
far. -/
structure SessionBase where
  /-- `connection::write_in_progress_`. -/
  writeInProgress : Bool := false
  /-- `connection::write_buffer_`. -/
  writeBuffer : Bytes := []
  mode : Mode := .text
  enqueuedWrites : List Entry := []
  /-- The user code that runs on the strand, the innermost first. -/
  stack : List Code := []
  /-- The writes of the stream that have not completed. -/
  inFlight : List Write := []
  /-- How many writes have been started. -/
  writes : Nat := 0
  /-- The writes that have completed. -/
  completed : List Write := []
  /-- How many operations have been passed to `enqueue_write`. -/
  operations : Nat := 0
  /-- The operations that have been executed. -/
  executed : List Nat := []
  /-- The `on_complete` callbacks that have run: of which write, and at the completion of which. -/
  callbacks : List (Nat × Option Nat) := []
  deriving DecidableEq

namespace SessionBase

/-- An entry of the queue is called. -/
def runEntry (s : SessionBase) (e : Entry) (completion : Option Nat) : SessionBase :=
  let s := { s with stack := .entry e completion :: s.stack }
  match e with
  | .operation n => { s with executed := s.executed ++ [n] }
  | .onComplete write => { s with callbacks := s.callbacks ++ [(write, completion)] }

/-- `session_base::enqueue_write`. -/
def enqueueWrite (s : SessionBase) (e : Entry) : SessionBase :=
  if ¬ s.writeInProgress then s.runEntry e none
  else { s with enqueuedWrites := s.enqueuedWrites ++ [e] }

/-- `session_base::write_common`. -/
def writeCommon (s : SessionBase) (data : Bytes) (hasOnComplete : Bool) : SessionBase :=
  let id := s.writes
  let s := { s with writeInProgress := true }
  let s := if hasOnComplete then s.enqueueWrite (.onComplete id) else s
  let s := { s with writeBuffer := s.writeBuffer ++ data }
  let write := { id := id, mode := s.mode, data := s.writeBuffer, hasOnComplete := hasOnComplete }
  { s with inFlight := s.inFlight ++ [write], writes := id + 1 }

/-- `session_base::write_text` and `session_base::write_binary`. -/
def write (s : SessionBase) (mode : Mode) (data : Bytes) (hasOnComplete : Bool) :
    SessionBase × Bool :=
  if s.writeInProgress then (s, false)
  else ({ s with mode := mode }.writeCommon data hasOnComplete, true)

/-- `session_base::on_write_complete`. -/
def onWriteComplete (s : SessionBase) (write : Nat) : SessionBase :=
  match s.enqueuedWrites with
  | [] => s
  | front :: rest => { s with enqueuedWrites := rest }.runEntry front (some write)

/-- `connection::on_write`. -/
def onWrite (s : SessionBase) (write : Write) (ec : Option ErrorCode) : SessionBase :=
  let s := { s with writeInProgress := false, writeBuffer := [] }
  match ec with
  | some ec => { s with stack := .onError ec :: s.stack }
  | none => { s with completed := s.completed ++ [write] }.onWriteComplete write.id

section OnWrite

variable {s : SessionBase} (write : Write)

/-- A successful completion with nothing in the queue. -/
theorem onWrite_nil (h : s.enqueuedWrites = []) :
    s.onWrite write none =
      { s with
        writeInProgress := false, writeBuffer := [], completed := s.completed ++ [write] } := by
  simp [onWrite, onWriteComplete, h]

/-- A successful completion runs the first entry of the queue. -/
theorem onWrite_cons {front : Entry} {rest : List Entry} (h : s.enqueuedWrites = front :: rest) :
    s.onWrite write none =
      { s with
        writeInProgress := false
        writeBuffer := []
        completed := s.completed ++ [write]
        enqueuedWrites := rest }.runEntry front (some write.id) := by
  simp [onWrite, onWriteComplete, h]

end OnWrite

end SessionBase

/-- What happens to a session. -/
inductive SessionAction where
  /-- User code is called on the strand. -/
  | handler
  /-- The innermost user code calls `write_text` or `write_binary`. -/
  | write (mode : Mode) (data : Bytes) (hasOnComplete : Bool)
  /-- It calls `enqueue_write`. -/
  | enqueueWrite
  /-- It returns. -/
  | return_
  /-- A write of the stream completes, with an error or without. -/
  | written (ec : Option ErrorCode)
  deriving DecidableEq

/-- One step of a session. -/
def SessionBase.step (s : SessionBase) : SessionAction → Option SessionBase
  | .handler => if s.stack = [] then some { s with stack := [.handler] } else none
  | .write mode data hasOnComplete =>
    if s.stack ≠ [] then some (s.write mode data hasOnComplete).1 else none
  | .enqueueWrite =>
    if s.stack ≠ [] then
      some ({ s with operations := s.operations + 1 }.enqueueWrite (.operation s.operations))
    else none
  | .return_ =>
    match s.stack with
    | [] => none
    | _ :: stack => some { s with stack := stack }
  | .written ec =>
    match s.stack, s.inFlight with
    | [], write :: inFlight => some ({ s with inFlight := inFlight }.onWrite write ec)
    | _, _ => none

namespace SessionBase

/-- **What a step does.** -/
theorem step_cases {s s' : SessionBase} {a : SessionAction} (hstep : s.step a = some s') :
    (a = .handler ∧ s.stack = [] ∧ s' = { s with stack := [.handler] }) ∨
      (∃ mode data hasOnComplete, a = .write mode data hasOnComplete ∧ s.stack ≠ [] ∧
        s' = (s.write mode data hasOnComplete).1) ∨
      (a = .enqueueWrite ∧ s.stack ≠ [] ∧
        s' = { s with operations := s.operations + 1 }.enqueueWrite (.operation s.operations)) ∨
      (∃ code stack, a = .return_ ∧ s.stack = code :: stack ∧ s' = { s with stack := stack }) ∨
      ∃ ec write inFlight, a = .written ec ∧ s.stack = [] ∧ s.inFlight = write :: inFlight ∧
        s' = { s with inFlight := inFlight }.onWrite write ec := by
  cases a with
  | handler =>
    simp only [step] at hstep
    split_ifs at hstep with hstack
    cases hstep
    exact Or.inl ⟨rfl, hstack, rfl⟩
  | write mode data hasOnComplete =>
    simp only [step] at hstep
    split_ifs at hstep with hstack
    cases hstep
    exact Or.inr (Or.inl ⟨mode, data, hasOnComplete, rfl, hstack, rfl⟩)
  | enqueueWrite =>
    simp only [step] at hstep
    split_ifs at hstep with hstack
    cases hstep
    exact Or.inr (Or.inr (Or.inl ⟨rfl, hstack, rfl⟩))
  | return_ =>
    simp only [step] at hstep
    split at hstep
    · cases hstep
    · next code stack hstack =>
      cases hstep
      exact Or.inr (Or.inr (Or.inr (Or.inl ⟨code, stack, rfl, hstack, rfl⟩)))
  | written ec =>
    simp only [step] at hstep
    split at hstep
    · next write inFlight hstack hflight =>
      cases hstep
      exact Or.inr (Or.inr (Or.inr (Or.inr ⟨ec, write, inFlight, rfl, hstack, hflight, rfl⟩)))
    · cases hstep

/-! ### What holds of every run -/

/-- At most one write is in flight, and the flag says whether. -/
def OneWrite (s : SessionBase) : Prop :=
  (s.writeInProgress = false ∧ s.inFlight = []) ∨ s.writeInProgress = true ∧ ∃ w, s.inFlight = [w]

theorem OneWrite.not_inProgress {s : SessionBase} (h : s.OneWrite) (hw : ¬ s.writeInProgress) :
    s.inFlight = [] := by
  rcases h with ⟨-, hf⟩ | ⟨ht, -⟩
  · exact hf
  · exact absurd ht hw

theorem OneWrite.inProgress {s : SessionBase} (h : s.OneWrite) (hw : s.writeInProgress) :
    ∃ w, s.inFlight = [w] := by
  rcases h with ⟨hf, -⟩ | ⟨-, hf⟩
  · rw [hf] at hw
    cases hw
  · exact hf

theorem OneWrite.of_cons {s : SessionBase} (h : s.OneWrite) {write : Write} {inFlight : List Write}
    (hflight : s.inFlight = write :: inFlight) : inFlight = [] := by
  rcases h with ⟨-, hf⟩ | ⟨-, w, hf⟩
  · rw [hf] at hflight
    cases hflight
  · rw [hf] at hflight
    exact (List.cons.inj hflight).2.symm

/-- The call of an entry starts no write. -/
theorem oneWrite_runEntry {s : SessionBase} (h : s.OneWrite) (e : Entry) (completion : Option Nat) :
    (s.runEntry e completion).OneWrite := by
  cases e with
  | operation n => exact h
  | onComplete write => exact h

theorem oneWrite_enqueueWrite {s : SessionBase} (h : s.OneWrite) (e : Entry) :
    (s.enqueueWrite e).OneWrite := by
  rw [enqueueWrite]
  split_ifs
  · exact h
  · exact oneWrite_runEntry h e none

/-- A completion leaves no write in flight. -/
theorem oneWrite_onWrite {s : SessionBase} (h : s.inFlight = []) (write : Write)
    (ec : Option ErrorCode) : (s.onWrite write ec).OneWrite := by
  cases ec with
  | some ec => exact Or.inl ⟨rfl, h⟩
  | none =>
    cases hqueue : s.enqueuedWrites with
    | nil =>
      rw [onWrite_nil write hqueue]
      exact Or.inl ⟨rfl, h⟩
    | cons front rest =>
      rw [onWrite_cons write hqueue]
      have hnone : OneWrite { s with
          writeInProgress := false
          writeBuffer := []
          completed := s.completed ++ [write]
          enqueuedWrites := rest } := Or.inl ⟨rfl, h⟩
      exact oneWrite_runEntry hnone front (some write.id)

/-- A write that is started: the entry of its callback, and the write in flight. -/
theorem writeCommon_eq {s : SessionBase} (data : Bytes) (hasOnComplete : Bool) :
    s.writeCommon data hasOnComplete =
      { s with
        writeInProgress := true
        enqueuedWrites := s.enqueuedWrites ++ if hasOnComplete then [.onComplete s.writes] else []
        writeBuffer := s.writeBuffer ++ data
        inFlight := s.inFlight ++ [⟨s.writes, s.mode, s.writeBuffer ++ data, hasOnComplete⟩]
        writes := s.writes + 1 } := by
  cases hasOnComplete with
  | false => simp [writeCommon]
  | true => simp [writeCommon, enqueueWrite]

/-- **One step** keeps it to one write. -/
theorem oneWrite_step {s s' : SessionBase} {a : SessionAction} (h : s.OneWrite)
    (hstep : s.step a = some s') : s'.OneWrite := by
  rcases step_cases hstep with ⟨-, -, rfl⟩ | ⟨mode, data, hasOnComplete, -, -, rfl⟩ |
    ⟨-, -, rfl⟩ | ⟨code, stack, -, -, rfl⟩ | ⟨ec, write, inFlight, -, -, hflight, rfl⟩
  · exact h
  · rw [write]
    split_ifs with hw
    · exact h
    · rw [writeCommon_eq]
      exact Or.inr ⟨rfl, _, by rw [h.not_inProgress hw]; rfl⟩
  · exact oneWrite_enqueueWrite (s := { s with operations := s.operations + 1 }) h _
  · exact h
  · exact oneWrite_onWrite (s := { s with inFlight := inFlight }) (h.of_cons hflight) write ec

end SessionBase

end Attender.Websocket
