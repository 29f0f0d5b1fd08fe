import Attender.Library.Runs

/-!
# Closing a websocket connection

`connection::close`, `connection::close_sync`, the destructor and a read that
fails all tell the session that the connection is closed. Only the first three
ask `was_closed_`, `close` before the close is started and not when it is done,
and the read neither asks nor sets it.
-/

namespace Attender.Websocket

open Attender.Library

/-- A `connection` that has been accepted, and what it has told its session. -/
structure Connection where
  wasClosed : Bool := false
  /-- A read of the stream is outstanding. -/
  reading : Bool := true
  /-- The closes of the stream that have been started and are not done. -/
  closing : Nat := 0
  destroyed : Bool := false
  /-- How often `session_->on_close()` has been called. -/
  onClose : Nat := 0
  deriving DecidableEq

namespace Connection

variable (c : Connection)

/-- `connection::close`. -/
def close : Connection := if c.wasClosed then c else { c with closing := c.closing + 1 }

/-- The handler of `async_close`, whatever the close comes to. -/
def closeDone : Connection :=
  { c with closing := c.closing - 1, wasClosed := true, onClose := c.onClose + 1 }

/-- `connection::close_sync`. -/
def closeSync : Connection :=
  if c.wasClosed then c else { c with wasClosed := true, onClose := c.onClose + 1 }

/-- `connection::on_read`. After a message the next read is started. -/
def onRead (failed : Bool) : Connection :=
  if failed then { c with reading := false, onClose := c.onClose + 1 }
  else { c with reading := true }

/-- `connection::~connection`. -/
def destroy : Connection := { c.closeSync with destroyed := true }

end Connection

/-- What happens to a connection. -/
inductive ConnectionAction where
  /-- `close` is called, by the user or through `session_base::close_connection`. -/
  | close
  | closeSync
  /-- A close of the stream is done. -/
  | closeDone
  /-- The read of the stream is done, with an error or with a message. -/
  | read (failed : Bool)
  /-- Nothing refers to the connection any more: neither the user nor an operation of the stream. -/
  | destroy
  deriving DecidableEq

/-- One step of a connection. -/
def Connection.step (c : Connection) (a : ConnectionAction) : Option Connection :=
  if c.destroyed then none
  else
    match a with
    | .close => some c.close
    | .closeSync => some c.closeSync
    | .closeDone => if c.closing ≠ 0 then some c.closeDone else none
    | .read failed => if c.reading then some (c.onRead failed) else none
    | .destroy => if ¬ c.reading ∧ c.closing = 0 then some c.destroy else none

namespace Connection

/-- The steps that tell the session once: each path comes before the others. -/
def First (c : Connection) : ConnectionAction → Prop
  | .close | .read false => True
  | .closeSync => c.wasClosed ∨ c.reading
  | .closeDone => ¬ c.wasClosed ∧ c.reading
  | .read true => ¬ c.wasClosed
  | .destroy => c.wasClosed

/-- The session has been told if the connection has been closed, or a read has failed. -/
def Told (c : Connection) : Prop := c.onClose = if ¬ c.wasClosed ∧ c.reading then 0 else 1

theorem told_init : Told {} := rfl

section Step

variable {c : Connection}

theorem Told.le_one (h : c.Told) : c.onClose ≤ 1 := by
  rw [h]
  split_ifs
  · exact Nat.zero_le 1
  · exact Nat.le_refl 1

/-- A connection whose session has just been told. -/
theorem told_of_closed (hle : c.onClose + 1 ≤ 1) {c' : Connection}
    (honClose : c'.onClose = c.onClose + 1) (hclosed : ¬ (¬ c'.wasClosed ∧ c'.reading)) :
    c'.Told := by
  rw [Told, if_neg hclosed, honClose]
  exact Nat.le_antisymm hle (Nat.le_add_left 1 _)

/-- What tells the session once more tells it once if it comes first. -/
theorem Told.succ_le_one_iff (h : c.Told) :
    c.onClose + 1 ≤ 1 ↔ ¬ c.wasClosed ∧ c.reading := by
  rw [h]
  split_ifs with hopen
  · exact iff_of_true (Nat.le_refl 1) hopen
  · exact iff_of_false (by decide) hopen

theorem Told.closeSync (h : c.Told) :
    (c.closeSync.onClose ≤ 1 ↔ c.wasClosed ∨ c.reading) ∧
      (c.closeSync.onClose ≤ 1 → c.closeSync.Told) := by
  rw [Connection.closeSync]
  split_ifs with hclosed
  · exact ⟨iff_of_true h.le_one (Or.inl hclosed), fun _ => h⟩
  · refine ⟨?_, fun hle => told_of_closed hle rfl fun hopen => hopen.1 rfl⟩
    exact h.succ_le_one_iff.trans ((and_iff_right hclosed).trans (or_iff_right hclosed).symm)

/-- **One step**: the session is told at most once exactly if the path comes first. -/
theorem step_iff {c' : Connection} {a : ConnectionAction} (h : c.Told)
    (hstep : c.step a = some c') :
    (c'.onClose ≤ 1 ↔ c.First a) ∧ (c'.onClose ≤ 1 → c'.Told) := by
  cases a with
  | close =>
    simp only [step] at hstep
    split_ifs at hstep
    cases hstep
    rw [close]
    split_ifs
    · exact ⟨iff_of_true h.le_one trivial, fun _ => h⟩
    · exact ⟨iff_of_true h.le_one trivial, fun _ => h⟩
  | closeSync =>
    simp only [step] at hstep
    split_ifs at hstep
    cases hstep
    exact h.closeSync
  | closeDone =>
    simp only [step] at hstep
    split_ifs at hstep
    cases hstep
    exact ⟨h.succ_le_one_iff, fun hle => told_of_closed hle rfl fun hopen => hopen.1 rfl⟩
  | read failed =>
    simp only [step] at hstep
    split_ifs at hstep with hdestroyed hreading
    cases hstep
    cases failed with
    | false =>
      have hsame : c.onRead false = c := by
        rw [onRead, if_neg Bool.false_ne_true, ← hreading]
      rw [hsame]
      exact ⟨iff_of_true h.le_one trivial, fun _ => h⟩
    | true =>
      refine ⟨h.succ_le_one_iff.trans (and_iff_left hreading), fun hle => ?_⟩
      exact told_of_closed hle rfl fun hopen => nomatch hopen.2
  | destroy =>
    simp only [step] at hstep
    split_ifs at hstep with hdestroyed hidle
    cases hstep
    obtain ⟨hiff, htold⟩ := h.closeSync
    exact ⟨hiff.trans (or_iff_left hidle.1), htold⟩

end Step

/-- **The session is told once**: `on_close` is called at most once throughout a run exactly if, in
each of its steps, the path that calls it comes first. -/
theorem on_close_once_iff (actions : List ConnectionAction) (c : Connection)
    (hrun : run step {} actions = some c) :
    Throughout step (fun c => c.onClose ≤ 1) {} actions ↔ Along step First {} actions := by
  refine throughout_iff_along (A := fun _ => True) (I := Told) ?_ ?_ told_init (Nat.zero_le 1)
    (fun _ _ => trivial) hrun
  · intro c a c' _ h _ hstep hle
    exact (step_iff h hstep).2 hle
  · intro c a c' _ h _ hstep
    exact (step_iff h hstep).1

/-- A message, and then a close that is started and done. -/
theorem on_close_once_iff_close :
    Throughout step (fun c => c.onClose ≤ 1) {} [.read false, .close, .closeDone, .close] ↔
      Along step First {} [.read false, .close, .closeDone, .close] :=
  on_close_once_iff [.read false, .close, .closeDone, .close]
    { wasClosed := true, onClose := 1 } (by decide)

/-- The client goes away, and the connection is destroyed: the session is told twice. -/
theorem on_close_twice :
    ¬ ∀ (actions : List ConnectionAction) (c : Connection), run step {} actions = some c →
      c.onClose ≤ 1 := by
  intro h
  have htwice := h [.read true, .destroy]
    { wasClosed := true, reading := false, destroyed := true, onClose := 2 } (by decide)
  exact absurd htwice (by decide)

end Connection

end Attender.Websocket
