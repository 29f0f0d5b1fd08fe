import Attender.Websocket.SessionBase

/-!
# The integrity of messages

What `write_common` gives to the stream is the whole write buffer, to which the
data has been appended. The buffer is emptied by `on_write` alone, before any
user code can start the next write, whether there has been an error or not. So
it is empty whenever no write is in progress, and each write of the stream is
that of one call, with its data and its mode (`message_integrity`).
-/

namespace Attender.Websocket.SessionBase

open Attender.Library Attender.Utility

/-- The call of a step as a write of the stream, if it returns `true`. -/
def accepts (s : SessionBase) : SessionAction → List Write
  | .write mode data hasOnComplete =>
    if (s.write mode data hasOnComplete).2 then [⟨s.writes, mode, data, hasOnComplete⟩] else []
  | _ => []

/-- The calls of a run that return `true`, numbered in their order. -/
def accepted : SessionBase → List SessionAction → List Write
  | _, [] => []
  | s, a :: actions =>
    s.accepts a ++
      match s.step a with
      | some s' => accepted s' actions
      | none => []

/-- A call returns `true` exactly if no write is in progress. -/
theorem write_snd (s : SessionBase) (mode : Mode) (data : Bytes) (hasOnComplete : Bool) :
    (s.write mode data hasOnComplete).2 = !s.writeInProgress := by
  rw [write]
  split_ifs with hw
  · rw [hw]
    rfl
  · rw [Bool.eq_false_iff.mpr hw]
    rfl

/-- What a call adds to those that have been accepted. -/
theorem accepts_write (s : SessionBase) (mode : Mode) (data : Bytes) (hasOnComplete : Bool) :
    s.accepts (.write mode data hasOnComplete) =
      if s.writeInProgress then [] else [⟨s.writes, mode, data, hasOnComplete⟩] := by
  rw [accepts, write_snd]
  cases s.writeInProgress with
  | false => rfl
  | true => rfl

/-- What the session has given to the stream, after some calls that returned `true`: the buffer is
empty while no write is in progress, and each write is the call of its number. -/
structure Sent (calls : List Write) (s : SessionBase) : Prop where
  one : s.OneWrite
  writes : s.writes = calls.length
  idle : s.writeInProgress = false → s.writeBuffer = []
  inFlight : ∀ w ∈ s.inFlight, calls[w.id]? = some w ∧ w.mode = s.mode ∧ w.data = s.writeBuffer
  completed : ∀ w ∈ s.completed, calls[w.id]? = some w

theorem sent_init : Sent [] {} :=
  ⟨Or.inl ⟨rfl, rfl⟩, rfl, fun _ => rfl, fun _ hw => absurd hw List.not_mem_nil,
    fun _ hw => absurd hw List.not_mem_nil⟩

section Step

variable {calls : List Write} {s s' : SessionBase}

/-- The user code that runs and the queue do not matter. -/
theorem Sent.of_eq (h : Sent calls s)
    (e : s = { s' with
      stack := s.stack, enqueuedWrites := s.enqueuedWrites, operations := s.operations
      executed := s.executed, callbacks := s.callbacks }) : Sent calls s' := by
  rw [e] at h
  exact ⟨h.one, h.writes, h.idle, h.inFlight, h.completed⟩

theorem Sent.runEntry (h : Sent calls s) (e : Entry) (completion : Option Nat) :
    Sent calls (s.runEntry e completion) := by
  cases e with
  | operation n => exact h.of_eq rfl
  | onComplete write => exact h.of_eq rfl

theorem Sent.enqueueWrite (h : Sent calls s) (e : Entry) : Sent calls (s.enqueueWrite e) := by
  rw [SessionBase.enqueueWrite]
  split_ifs
  · exact h.of_eq rfl
  · exact h.runEntry e none

/-- A call is still found behind its number when there are more. -/
theorem getElem?_append_of_eq_some {w : Write} {i : Nat} (h : calls[i]? = some w)
    (more : List Write) : (calls ++ more)[i]? = some w := by
  rw [List.getElem?_append_left (List.getElem?_eq_some_iff.mp h).1]
  exact h

/-- A write that is started has the data of its call alone, for the buffer has been empty. -/
theorem Sent.writeCommon (h : Sent calls s) (hidle : ¬ s.writeInProgress) (mode : Mode)
    (data : Bytes) (hasOnComplete : Bool) :
    Sent (calls ++ [⟨s.writes, mode, data, hasOnComplete⟩])
      ({ s with mode := mode }.writeCommon data hasOnComplete) := by
  have hnone := h.one.not_inProgress hidle
  have hbuffer := h.idle (Bool.eq_false_iff.mpr hidle)
  have hnumber : (calls ++ [⟨s.writes, mode, data, hasOnComplete⟩])[s.writes]? =
      some ⟨s.writes, mode, data, hasOnComplete⟩ := by
    rw [h.writes, List.getElem?_concat_length]
  rw [writeCommon_eq]
  simp only [hnone, hbuffer, List.nil_append]
  refine ⟨Or.inr ⟨rfl, _, rfl⟩, ?_, nofun, ?_, ?_⟩
  · rw [List.length_append, List.length_singleton, h.writes]
  · rintro w (_ | ⟨_, ⟨⟩⟩)
    exact ⟨hnumber, rfl, rfl⟩
  · intro w hw
    exact getElem?_append_of_eq_some (h.completed w hw) _

/-- A completion empties the buffer before it runs anything. -/
theorem Sent.onWrite {w : Write} (h : Sent calls s) (hflight : s.inFlight = [w])
    (ec : Option ErrorCode) : Sent calls ({ s with inFlight := [] }.onWrite w ec) := by
  have hw : calls[w.id]? = some w := (h.inFlight w (hflight ▸ List.mem_singleton_self w)).1
  have hcompleted : ∀ w' ∈ s.completed ++ [w], calls[w'.id]? = some w' := by
    intro w' hw'
    rcases List.mem_append.mp hw' with hw' | hw'
    · exact h.completed w' hw'
    · rw [List.mem_singleton.mp hw']
      exact hw
  cases ec with
  | some ec =>
    exact ⟨Or.inl ⟨rfl, rfl⟩, h.writes, fun _ => rfl, nofun, h.completed⟩
  | none =>
    have hdone : ∀ queue : List Entry, Sent calls { s with
        inFlight := []
        writeInProgress := false
        writeBuffer := []
        completed := s.completed ++ [w]
        enqueuedWrites := queue } := by
      intro queue
      exact ⟨Or.inl ⟨rfl, rfl⟩, h.writes, fun _ => rfl, nofun, hcompleted⟩
    obtain ⟨queue, hqueue⟩ : ∃ queue, s.enqueuedWrites = queue := ⟨_, rfl⟩
    cases queue with
    | nil =>
      rw [onWrite_nil w (s := { s with inFlight := [] }) hqueue]
      exact hdone s.enqueuedWrites
    | cons front rest =>
      rw [onWrite_cons w (s := { s with inFlight := [] }) hqueue]
      exact (hdone rest).runEntry front (some w.id)

/-- **One step**: what is in flight is the call that has been accepted last. -/
theorem sent_step {a : SessionAction} (h : Sent calls s) (hstep : s.step a = some s') :
    Sent (calls ++ s.accepts a) s' := by
  rcases step_cases hstep with ⟨rfl, -, rfl⟩ | ⟨mode, data, hasOnComplete, rfl, -, rfl⟩ |
    ⟨rfl, -, rfl⟩ | ⟨code, stack, rfl, -, rfl⟩ | ⟨ec, w, inFlight, rfl, -, hflight, rfl⟩
  · simp only [accepts, List.append_nil]
    exact h.of_eq rfl
  · rw [accepts_write, write]
    split_ifs with hw
    · rw [List.append_nil]
      exact h
    · exact h.writeCommon hw mode data hasOnComplete
  · simp only [accepts, List.append_nil]
    exact Sent.enqueueWrite (s := { s with operations := s.operations + 1 }) (h.of_eq rfl) _
  · simp only [accepts, List.append_nil]
    exact h.of_eq rfl
  · simp only [accepts, List.append_nil]
    obtain rfl := h.one.of_cons hflight
    exact h.onWrite hflight ec

end Step

theorem sent_run {actions : List SessionAction} {calls : List Write} {s s' : SessionBase}
    (h : Sent calls s) (hrun : run step s actions = some s') :
    Sent (calls ++ accepted s actions) s' := by
  induction actions generalizing s calls with
  | nil =>
    rw [run_nil, Option.some.injEq] at hrun
    rw [accepted, List.append_nil, ← hrun]
    exact h
  | cons a actions ih =>
    obtain ⟨s₁, hstep, hrun⟩ := run_cons.mp hrun
    have htail := ih (sent_step h hstep) hrun
    rw [List.append_assoc] at htail
    rw [accepted, hstep]
    exact htail

/-- A call that returns `true` puts its data and nothing else in flight. -/
theorem Sent.inFlight_write {calls : List Write} {s : SessionBase} (h : Sent calls s)
    (hidle : ¬ s.writeInProgress) (mode : Mode) (data : Bytes) (hasOnComplete : Bool) :
    (s.write mode data hasOnComplete).1.inFlight = [⟨s.writes, mode, data, hasOnComplete⟩] := by
  rw [write, if_neg hidle, writeCommon_eq]
  simp only [h.one.not_inProgress hidle, h.idle (Bool.eq_false_iff.mpr hidle), List.nil_append]

/-- **The integrity of messages**: in every state of every run at most one write is in flight, there
have been as many writes as calls that returned `true`, and each has the data and the mode of the
call of its number, for as long as it is in flight. A call that returns `true` puts its own data in
flight, and one that returns `false` changes nothing. -/
theorem message_integrity (actions : List SessionAction) (s : SessionBase)
    (hrun : run step {} actions = some s) :
    s.inFlight.length ≤ 1 ∧ s.writes = (accepted {} actions).length ∧
      (∀ w ∈ s.inFlight ++ s.completed, (accepted {} actions)[w.id]? = some w) ∧
      (∀ w ∈ s.inFlight, w.mode = s.mode ∧ w.data = s.writeBuffer) ∧
      ∀ mode data hasOnComplete,
        ((s.write mode data hasOnComplete).2 = true →
          (s.write mode data hasOnComplete).1.inFlight = [⟨s.writes, mode, data, hasOnComplete⟩]) ∧
        ((s.write mode data hasOnComplete).2 = false →
          (s.write mode data hasOnComplete).1 = s) := by
  have hsent : Sent (accepted {} actions) s := sent_run sent_init hrun
  refine ⟨?_, hsent.writes, ?_, fun w hw => (hsent.inFlight w hw).2, ?_⟩
  · rcases hsent.one with ⟨-, hf⟩ | ⟨-, w, hf⟩ <;> rw [hf] <;> simp
  · intro w hw
    rcases List.mem_append.mp hw with hw | hw
    · exact (hsent.inFlight w hw).1
    · exact hsent.completed w hw
  · intro mode data hasOnComplete
    rw [write_snd]
    constructor
    · intro hw
      exact hsent.inFlight_write (by simpa using hw) mode data hasOnComplete
    · intro hw
      rw [write, if_pos (by simpa using hw)]

/-- A message that is sent while another is in flight, refused, and sent after the error. -/
theorem message_integrity_error :
    ∃ s, run step {} [.handler, .write .text (bytes "a") false, .write .binary (bytes "b") false,
        .return_, .written (some .eof), .write .binary (bytes "b") false] = some s ∧
      s.inFlight = [⟨1, .binary, bytes "b", false⟩] ∧ s.inFlight.length ≤ 1 := by
  refine ⟨_, rfl, rfl, ?_⟩
  exact (message_integrity [.handler, .write .text (bytes "a") false,
    .write .binary (bytes "b") false, .return_, .written (some .eof),
    .write .binary (bytes "b") false] _ rfl).1

end Attender.Websocket.SessionBase
