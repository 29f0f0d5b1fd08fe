import Attender.Library.Runs
import Attender.Utility.CallbackWrapper
import Mathlib.Algebra.Order.Monoid.WithTop
import Mathlib.Algebra.Order.Ring.Nat
import Mathlib.Data.Nat.Cast.Order.Basic

/-!
# The deadline of a read

The timer of a connection over its whole life. A read sets its deadline, and the
completion of the read sets it to infinity; both cancel the waits of the timer.
A wait that has succeeded before it was cancelled looks at the deadline that is
set when its handler runs, and waits again if that has not passed. `on_timeout_`
returns, and does not free the connection.
-/

namespace Attender.Http

open Attender.Library Attender.Utility

/-- What the deadline depends on. Times are in microseconds. -/
structure ReadDeadline where
  now : Nat
  /-- `read_timeout_timer_.expires_at()`, where `⊤` is `pos_infin`. -/
  expiresAt : WithTop Nat := ⊤
  /-- When the read that has not completed was issued. -/
  outstanding : Option Nat := none
  /-- The waits of the timer, which all end when it expires. -/
  armed : Nat := 0
  /-- The handlers of waits that have succeeded, and have not run. -/
  succeeded : Nat := 0
  /-- The handlers of waits that were cancelled, and have not run. -/
  aborted : Nat := 0
  /-- The socket is open. -/
  isOpen : Bool := true
  closed : Bool := false
  /-- `on_timeout_` is not empty. -/
  hasOnTimeout : Bool
  /-- How often `on_timeout_` has been called. -/
  timeouts : Nat := 0

/-- What happens to the timer. -/
inductive DeadlineEvent where
  /-- A read is issued. -/
  | read
  /-- The read completes. -/
  | readCompleted
  /-- Time passes. -/
  | pass (time : Nat)
  /-- A wait succeeds, and its handler is queued. -/
  | expire
  /-- The handler of a wait runs. -/
  | deliver (aborted : Bool)
  /-- The connection is stopped from elsewhere. -/
  | stop

namespace ReadDeadline

variable (readTimeout : Nat)

/-! ### The timer -/

/-- `read_timeout_timer_.cancel()`. -/
def cancel (s : ReadDeadline) : ReadDeadline :=
  { s with armed := 0, aborted := s.aborted + s.armed }

/-- `read_timeout_timer_.expires_from_now`, which cancels. -/
def expiresFromNow (s : ReadDeadline) (time : WithTop Nat) : ReadDeadline :=
  { s.cancel with expiresAt := s.now + time }

/-- `read_timeout_timer_.async_wait`. -/
def asyncWait (s : ReadDeadline) : ReadDeadline := { s with armed := s.armed + 1 }

/-! ### The connection -/

/-- `http_connection_base::read`, with the timeout in seconds. -/
def read (s : ReadDeadline) : ReadDeadline :=
  { (s.expiresFromNow ↑(1000000 * readTimeout)).asyncWait with outstanding := some s.now }

/-- The completion handler of `do_read`. -/
def onRead (s : ReadDeadline) : ReadDeadline := { s.expiresFromNow ⊤ with outstanding := none }

/-- `http_connection_base::stop`. -/
def stop (s : ReadDeadline) : ReadDeadline :=
  if s.closed then s else { s with closed := true, isOpen := false }.cancel

/-- `on_timeout_`, if there is one. -/
def onTimeout (s : ReadDeadline) : ReadDeadline :=
  { s with timeouts := s.timeouts + if s.hasOnTimeout then 1 else 0 }

/-- `http_connection_base::check_deadline`. -/
def checkDeadline (s : ReadDeadline) (ec : Option ErrorCode) : ReadDeadline :=
  if ec = some .operationAborted then s
  else if ¬ s.isOpen then s
  else if ec.isSome then s.stop
  else if s.expiresAt ≤ s.now then s.onTimeout.stop
  else s.asyncWait

/-- The handler of a wait is taken from the queue, and runs. -/
def deliver (s : ReadDeadline) (aborted : Bool) : ReadDeadline :=
  if aborted then { s with aborted := s.aborted - 1 }.checkDeadline (some .operationAborted)
  else { s with succeeded := s.succeeded - 1 }.checkDeadline none

/-- One step. No read is issued while another is outstanding. -/
def step (s : ReadDeadline) : DeadlineEvent → Option ReadDeadline
  | .read => if s.outstanding = none then some (s.read readTimeout) else none
  | .readCompleted => if s.outstanding.isSome then some s.onRead else none
  | .pass time => some { s with now := s.now + time }
  | .expire =>
    if 0 < s.armed ∧ s.expiresAt ≤ s.now then
      some { s with armed := s.armed - 1, succeeded := s.succeeded + 1 }
    else none
  | .deliver aborted =>
    if 0 < (if aborted then s.aborted else s.succeeded) then some (s.deliver aborted) else none
  | .stop => some s.stop

/-! ### The invariant -/

/-- The deadline of the read that is outstanding. -/
def deadline (s : ReadDeadline) : WithTop Nat :=
  match s.outstanding with
  | none => ⊤
  | some issued => ↑(issued + 1000000 * readTimeout)

/-- The timer is set to the deadline, and watches it on an open socket. -/
structure Good (s : ReadDeadline) : Prop where
  expiresAt : s.expiresAt = s.deadline readTimeout
  /-- The socket is closed by `stop`. -/
  closed : s.closed = !s.isOpen
  watched : s.isOpen = true → s.outstanding.isSome → 0 < s.armed ∨ 0 < s.succeeded
  uncalled : s.isOpen = true → s.timeouts = 0
  called : s.timeouts ≤ 1

section Steps

variable {readTimeout : Nat} {s s' : ReadDeadline}

theorem deadline_le_iff :
    s.deadline readTimeout ≤ s.now ↔
      ∃ issued, s.outstanding = some issued ∧ issued + 1000000 * readTimeout ≤ s.now := by
  rw [deadline]
  cases s.outstanding with
  | none => simp
  | some issued => simp [← Nat.cast_le (α := WithTop Nat)]

/-- A step that moves waits and handlers alone. -/
theorem Good.congr (h : Good readTimeout s) (hexpires : s'.expiresAt = s.expiresAt)
    (houtstanding : s'.outstanding = s.outstanding) (hopen : s'.isOpen = s.isOpen)
    (hclosed : s'.closed = s.closed) (htimeouts : s'.timeouts = s.timeouts)
    (hwatched : s.isOpen = true → s.outstanding.isSome → 0 < s'.armed ∨ 0 < s'.succeeded) :
    Good readTimeout s' where
  expiresAt := by rw [hexpires, h.expiresAt, deadline, deadline, houtstanding]
  closed := by rw [hclosed, hopen, h.closed]
  watched := by rwa [hopen, houtstanding]
  uncalled := by rw [htimeouts, hopen]; exact h.uncalled
  called := by rw [htimeouts]; exact h.called

/-- The socket is closed, after which no wait is needed. -/
theorem Good.close (h : Good readTimeout s) {timeouts : Nat} (hcalled : timeouts ≤ 1)
    (succeeded : Nat) :
    Good readTimeout
      { s with
        closed := true, isOpen := false, succeeded := succeeded, timeouts := timeouts }.cancel where
  expiresAt := h.expiresAt
  closed := rfl
  watched := by rintro ⟨⟩
  uncalled := by rintro ⟨⟩
  called := hcalled

/-- A read has its deadline, and a wait for it. -/
theorem Good.read (h : Good readTimeout s) : Good readTimeout (s.read readTimeout) where
  expiresAt := rfl
  closed := h.closed
  watched _ _ := .inl Nat.one_pos
  uncalled := h.uncalled
  called := h.called

/-- No deadline is left when the read has completed. -/
theorem Good.onRead (h : Good readTimeout s) : Good readTimeout s.onRead where
  expiresAt := rfl
  closed := h.closed
  watched _ hread := by cases hread
  uncalled := h.uncalled
  called := h.called

theorem Good.stop (h : Good readTimeout s) : Good readTimeout s.stop := by
  rw [ReadDeadline.stop]
  split_ifs
  · exact h
  · exact h.close h.called s.succeeded

theorem Good.closed_of_isOpen (h : Good readTimeout s) (hopen : s.isOpen = true) :
    s.closed = false := by
  rw [h.closed, hopen, Bool.not_true]

/-- The handler of a wait that has succeeded runs on an open socket. If the deadline has passed,
`on_timeout_` is called and the socket is closed. -/
theorem Good.deliver_of_isOpen (h : Good readTimeout s) (hopen : s.isOpen = true) :
    s.deliver false =
      if s.expiresAt ≤ s.now then
        { s with
          closed := true, isOpen := false, succeeded := s.succeeded - 1,
          timeouts := s.onTimeout.timeouts }.cancel
      else { s with succeeded := s.succeeded - 1 }.asyncWait := by
  have hclosed : ¬ { s with succeeded := s.succeeded - 1 }.onTimeout.closed = true := by
    rw [onTimeout, h.closed_of_isOpen hopen]
    exact Bool.false_ne_true
  rw [ReadDeadline.deliver, if_neg Bool.false_ne_true, checkDeadline, if_neg (by rintro ⟨⟩),
    if_neg (not_not.mpr hopen), if_neg (by simp), ReadDeadline.stop, if_neg hclosed]
  rfl

/-- `on_timeout_` has not been called before. -/
theorem Good.timeouts_onTimeout (h : Good readTimeout s) (hopen : s.isOpen = true) :
    s.onTimeout.timeouts ≤ 1 := by
  change s.timeouts + (if s.hasOnTimeout then 1 else 0) ≤ 1
  rw [h.uncalled hopen]
  split_ifs
  · exact le_rfl
  · exact Nat.zero_le 1

theorem deliver_of_closed (hopen : s.isOpen = false) :
    s.deliver false = { s with succeeded := s.succeeded - 1 } := by
  rw [deliver, if_neg Bool.false_ne_true, checkDeadline, if_neg (by rintro ⟨⟩),
    if_pos (by simp [hopen])]

/-- **A handler runs**: it stops the connection, or leaves a wait behind, or does nothing. -/
theorem Good.deliver (h : Good readTimeout s) (aborted : Bool) :
    Good readTimeout (s.deliver aborted) := by
  cases aborted with
  | true => exact h.congr rfl rfl rfl rfl rfl h.watched
  | false =>
    cases hopen : s.isOpen with
    | true =>
      rw [h.deliver_of_isOpen hopen]
      split_ifs
      · exact h.close (h.timeouts_onTimeout hopen) _
      · exact h.congr rfl rfl rfl rfl rfl fun _ _ => .inl (Nat.succ_pos _)
    | false =>
      rw [deliver_of_closed hopen]
      refine h.congr rfl rfl rfl rfl rfl ?_
      rw [hopen]
      rintro ⟨⟩

theorem Good.step {event : DeadlineEvent} (h : Good readTimeout s)
    (hstep : s.step readTimeout event = some s') : Good readTimeout s' := by
  cases event with
  | read =>
    obtain ⟨-, ⟨⟩⟩ := Option.ite_none_right_eq_some.mp hstep
    exact h.read
  | readCompleted =>
    obtain ⟨-, ⟨⟩⟩ := Option.ite_none_right_eq_some.mp hstep
    exact h.onRead
  | pass time =>
    obtain rfl := Option.some.inj hstep
    exact h.congr rfl rfl rfl rfl rfl h.watched
  | expire =>
    obtain ⟨-, ⟨⟩⟩ := Option.ite_none_right_eq_some.mp hstep
    exact h.congr rfl rfl rfl rfl rfl fun _ _ => .inr (Nat.succ_pos _)
  | deliver aborted =>
    obtain ⟨-, ⟨⟩⟩ := Option.ite_none_right_eq_some.mp hstep
    exact h.deliver aborted
  | stop =>
    obtain rfl := Option.some.inj hstep
    exact h.stop

/-- A connection that has been accepted. -/
theorem good_start (now : Nat) (hasOnTimeout : Bool) :
    Good readTimeout { now := now, hasOnTimeout := hasOnTimeout } where
  expiresAt := rfl
  closed := rfl
  watched := by rintro - ⟨⟩
  uncalled _ := rfl
  called := Nat.zero_le 1

/-- **The timer is good in every run.** -/
theorem Good.of_run {now : Nat} {hasOnTimeout : Bool} {events : List DeadlineEvent}
    (hrun : run (ReadDeadline.step readTimeout) { now := now, hasOnTimeout := hasOnTimeout }
      events = some s) : Good readTimeout s :=
  run_invariant (A := fun _ => True) (fun _ _ _ _ h hstep => h.step hstep) (fun _ _ => trivial)
    (good_start now hasOnTimeout) hrun

/-- A handler stops the connection exactly if its wait has succeeded and the deadline has passed. -/
theorem Good.isOpen_deliver (h : Good readTimeout s) (hopen : s.isOpen = true) (aborted : Bool) :
    (s.deliver aborted).isOpen = false ↔ aborted = false ∧ s.deadline readTimeout ≤ s.now := by
  cases aborted with
  | true =>
    refine iff_of_false ?_ (by rintro ⟨⟨⟩, -⟩)
    rw [Bool.not_eq_false]
    exact hopen
  | false =>
    rw [h.deliver_of_isOpen hopen, ← h.expiresAt, and_iff_right rfl]
    split_ifs with hpassed
    · exact iff_of_true rfl hpassed
    · refine iff_of_false ?_ hpassed
      rw [Bool.not_eq_false]
      exact hopen

end Steps

/-- **The deadline of reads**, in every run: a handler stops the connection only if a read has been
outstanding for the timeout, `on_timeout_` is called at most once, and a read that is outstanding on
an open socket is watched. -/
theorem read_deadline (readTimeout now : Nat) (hasOnTimeout : Bool) (events : List DeadlineEvent)
    (s : ReadDeadline)
    (hrun : run (step readTimeout) { now := now, hasOnTimeout := hasOnTimeout } events = some s) :
    (∀ aborted s', s.step readTimeout (.deliver aborted) = some s' → s.isOpen = true →
      s'.isOpen = false →
        ∃ issued, s.outstanding = some issued ∧ issued + 1000000 * readTimeout ≤ s.now) ∧
      s.timeouts ≤ 1 ∧
      ∀ issued, s.outstanding = some issued → s.isOpen = true →
        s.expiresAt = ↑(issued + 1000000 * readTimeout) ∧ (0 < s.armed ∨ 0 < s.succeeded) := by
  have hgood := Good.of_run hrun
  refine ⟨?_, hgood.called, ?_⟩
  · intro aborted s' hstep hopen hstopped
    obtain ⟨-, ⟨⟩⟩ := Option.ite_none_right_eq_some.mp hstep
    exact deadline_le_iff.mp ((hgood.isOpen_deliver hopen aborted).mp hstopped).2
  · intro issued hissued hopen
    refine ⟨?_, hgood.watched hopen (by rw [hissued]; rfl)⟩
    rw [hgood.expiresAt, deadline, hissued]

/-- A read that is outstanding for eleven seconds. -/
theorem read_deadline_eleven :
    ∃ s s', run (step 11) { now := 5, hasOnTimeout := true } [.read, .pass 11000000, .expire] =
        some s ∧
      s.step 11 (.deliver false) = some s' ∧ s'.isOpen = false ∧
        ∃ issued, s.outstanding = some issued ∧ issued + 1000000 * 11 ≤ s.now := by
  refine ⟨_, _, rfl, rfl, rfl, ?_⟩
  exact (read_deadline 11 5 true [.read, .pass 11000000, .expire] _ rfl).1 false _ rfl rfl rfl

end ReadDeadline

end Attender.Http
