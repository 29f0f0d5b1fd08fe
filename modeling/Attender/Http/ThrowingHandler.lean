import Attender.Http.ConnectionRemoval
import Attender.Http.HttpBasicServer

/-!
# Handlers that throw

The handler of a route runs, and then it returns or throws; what it throws is
answered with 500. If it has started a response before, this answer is a second
one: with an open write it removes the connection under that write, or it starts
another beside it (`not_served_of_throws`). A handler that throws before is
answered like any other request (`served_of_careful`), as long as nothing that it
has left behind starts a response after that: the continuations that it has
registered still run, and `response.hpp` forbids them to call anything then.
-/

namespace Attender.Http

open Attender.Library Attender.Utility

/-! ### The answer -/

/-- The answer ends with `send_header`, as all responses do. -/
theorem ResponseHandler.answerThrown_eq (exposeException : Bool) (r : ResponseHandler)
    (e : Thrown) :
    ∃ (r' : ResponseHandler) (k : HeaderContinuation), r'.headerSent = r.headerSent ∧
      (k = .remove ∨ ∃ text, k = .body (.string text)) ∧
        r.answerThrown exposeException e = r'.sendHeader k := by
  have hsend : ∀ text, ∃ r' : ResponseHandler, r'.headerSent = r.headerSent ∧
      (r.status 500).send (.string text) = r'.sendHeader (.body (.string text)) := by
    intro text
    refine ⟨_, ?_, rfl⟩
    split_ifs <;> simp [status]
  cases e with
  | exception what =>
    rw [answerThrown]
    split_ifs
    · obtain ⟨r', hr, e⟩ := hsend what
      exact ⟨r', _, hr, Or.inr ⟨what, rfl⟩, e⟩
    · exact ⟨(r.status 500).conclude, .remove, rfl, Or.inl rfl, rfl⟩
  | other =>
    obtain ⟨r', hr, e⟩ := hsend (r.status 500).header.message
    exact ⟨r', _, hr, Or.inr ⟨_, rfl⟩, e⟩

/-! ### A request with its handler -/

/-- A connection whose request is handled. -/
structure Handling where
  connection : Connection
  /-- The handler has neither returned nor thrown. -/
  running : Bool := true
  /-- It has thrown. -/
  thrown : Bool := false

/-- What happens while a request is handled, and afterwards. -/
inductive HandlingOp where
  /-- What happens to the connection. The handler is among the user code that starts the
  response. -/
  | connection (op : ConnectionOp)
  /-- The handler uses the response handler without starting a response, which may have been started
  before. -/
  | prepare (op : ResponseOp)
  | returns
  | throws (e : Thrown)
  /-- A continuation that the handler has registered before it threw, or whatever else of user code
  outlives it, uses the response handler. -/
  | late (op : ResponseOp)

namespace Connection

/-- The exception of a handler is caught. The response is no longer for user code to start. -/
def onThrown (cfg : Config) (exposeException : Bool) (c : Connection) (e : Thrown) : Connection :=
  { c with owed := false }.perform (continueWith cfg none)
    (c.response.answerThrown exposeException e)

/-- The writes that have not completed. -/
def inFlight (c : Connection) : Nat := c.writes.length + c.chunked.inFlight.length

/-- **A request is served**: at most one write is in flight, the connection is removed at most once
and with no write in flight, and it has been removed when nothing is pending and nothing is owed. -/
structure Served (c : Connection) : Prop where
  writes : c.inFlight ≤ 1
  removals : c.removals ≤ 1
  removed : c.removals = 1 → c.inFlight = 0 ∧ c.registered = false
  done : Quiescent c → ¬ Owes c → c.removals = 1

end Connection

namespace Handling

open Connection

/-- A request whose handler starts: the header has been read, and the session control may have used
the response handler. -/
def dispatched (request : RequestHandler Unit Unit) (header : ResponseHeader)
    (observer : Option ConclusionObserver) (waits : Nat) (closed : Bool) : Handling where
  connection :=
    { request := request
      response := { header := header, observer := observer }
      waits := waits
      closed := closed
      owed := true }

/-- One step of a request with its handler, which may run while the writes of its response
complete. -/
def step (exposeException : Bool) (cfg : Config) (kind : ProducerKind) (h : Handling) :
    HandlingOp → Option Handling
  | .connection op => (h.connection.step cfg kind op).map fun c => { h with connection := c }
  | .prepare op =>
    if h.running ∧ ¬ op.concludes then some { h with connection := h.connection.respond cfg op }
    else none
  | .returns => if h.running then some { h with running := false } else none
  | .throws e =>
    if h.running then
      some
        { connection := h.connection.onThrown cfg exposeException e, running := false
          thrown := true }
    else none
  | .late op =>
    if h.thrown then some { h with connection := h.connection.respond cfg op } else none

/-- The handler throws only while the response has not been started, what it leaves behind starts
none after that, and no step is one that leaves a connection behind or removes it twice. -/
def Careful (cfg : Config) (kind : ProducerKind) (h : Handling) : HandlingOp → Prop
  | .connection op => ¬ Faulty cfg kind h.connection op
  | .throws _ => h.connection.owed
  | .late op => ¬ op.concludes
  | .prepare _ | .returns => True

end Handling

namespace Connection

variable {cfg : Config} {kind : ProducerKind} {c : Connection}

/-- The answer of a response that has not been started. -/
theorem Sane.onThrown (h : Sane c) (howed : c.owed = true) (exposeException : Bool) (e : Thrown) :
    Sane (c.onThrown cfg exposeException e) := by
  obtain ⟨hreading, hfresh⟩ := h.fresh_of_owed howed
  obtain ⟨r, k, hr, -, hanswer⟩ := c.response.answerThrown_eq exposeException e
  obtain ⟨r', header, hsend, hr'⟩ := ResponseHandler.sendHeader_of_open (hr.trans hfresh.sent) k
  have hthrown : c.onThrown cfg exposeException e =
      { c with owed := false, response := r', writes := c.writes ++ [.header k] } := by
    rw [Connection.onThrown, hanswer, hsend]
    rfl
  rw [hthrown]
  refine ⟨h.chunks, .request ⟨hreading.handshake, hreading.body⟩ (.writing ⟨rfl, hr'⟩
    ⟨hfresh.kept.removals, hfresh.kept.registered⟩ hfresh.phase (.header k) ?_)⟩
  rw [hfresh.writes, List.nil_append]

/-- **What has been kept in order is served.** -/
theorem Sane.served (h : Sane c) : Served c := by
  have hdone : Quiescent c → ¬ Owes c → c.removals = 1 := fun hquiescent howes =>
    (h.gone hquiescent howes).removals
  have hflight : c.chunked.inFlight.length ≤ 1 := by
    rcases h.chunks.flight with hf | ⟨d, hf, -⟩ | ⟨hf, -⟩
    · rw [hf]
      exact Nat.zero_le 1
    · rw [hf]
      exact Nat.le_refl 1
    · rw [hf]
      exact Nat.le_refl 1
  have hunattached : c.chunked.phase = .detached → c.chunked.inFlight.length = 0 := by
    intro hphase
    rw [(h.chunks.of_detached hphase).2.1, List.length_nil]
  have hkept : Kept c → c.inFlight ≤ 1 → Served c := by
    intro hk hwrites
    have hremovals := hk.removals
    exact ⟨hwrites, by omega, fun hremoved => by omega, hdone⟩
  have hgone : Gone c → c.inFlight = 0 → Served c := by
    intro hg hwrites
    have hremovals := hg.removals
    exact ⟨by omega, by omega, fun _ => ⟨hwrites, hg.registered⟩, hdone⟩
  have hfresh : Fresh c → Served c := by
    intro hf
    refine hkept hf.kept ?_
    rw [inFlight, hf.writes, hunattached hf.phase]
    exact Nat.zero_le 1
  cases h.stage with
  | handshake _ _ _ hf => exact hfresh hf
  | header _ _ _ _ hf => exact hfresh hf
  | rejected _ _ _ hg hphase hwrites =>
    refine hgone hg ?_
    rw [inFlight, hwrites, hunattached hphase]
    rfl
  | request _ hprogress =>
    cases hprogress with
    | handler _ hf => exact hfresh hf
    | writing _ hk hphase w hwrites =>
      refine hkept hk ?_
      rw [inFlight, hwrites, hunattached hphase]
      exact Nat.le_refl 1
    | chunking _ hk _ _ _ hwrites =>
      refine hkept hk ?_
      rw [inFlight, hwrites, List.length_nil, Nat.zero_add]
      exact hflight
    | finished _ hg _ hflight hwrites =>
      refine hgone hg ?_
      rw [inFlight, hwrites, hflight]
      rfl

/-- **A handler that throws too late**: with the response started, and a write in flight or the
connection removed, the answer breaks it. -/
theorem not_served_of_throws (hsent : c.response.headerSent = true)
    (hlate : c.inFlight ≠ 0 ∨ c.removals ≠ 0) (exposeException : Bool) (e : Thrown) :
    ¬ Served (c.onThrown cfg exposeException e) := by
  obtain ⟨r, k, hr, hk, hanswer⟩ := c.response.answerThrown_eq exposeException e
  obtain ⟨r', hsend, -⟩ := ResponseHandler.sendHeader_of_sent (hr.trans hsent) k
  have hthrown : c.onThrown cfg exposeException e =
      continueWith cfg none { c with owed := false, response := r' } k := by
    rw [Connection.onThrown, hanswer, hsend]
    rfl
  rw [hthrown]
  intro hserved
  rcases hk with rfl | ⟨text, rfl⟩
  · -- the connection is removed once more
    have hremovals : (continueWith cfg none { c with owed := false, response := r' }
        .remove).removals = c.removals + 1 := by
      simp only [continueWith, remove, stop]
      split_ifs <;> rfl
    have hflight : (continueWith cfg none { c with owed := false, response := r' }
        .remove).inFlight = c.inFlight := by
      simp only [continueWith, remove, stop]
      split_ifs <;> rfl
    have hle := hserved.removals
    have hnone := hserved.removed
    rw [hremovals] at hle hnone
    rw [hflight] at hnone
    have hzero : c.removals = 0 := by omega
    exact hlate.elim (fun hne => hne (hnone (by omega)).1) fun hne => hne hzero
  · -- another write is started
    have hflight : (continueWith cfg none { c with owed := false, response := r' }
        (.body (.string text))).inFlight = c.inFlight + 1 := by
      simp only [continueWith, writeBody, inFlight, Option.isSome_none, Bool.false_eq_true,
        if_false, List.length_append, List.length_singleton]
      omega
    have hremovals : (continueWith cfg none { c with owed := false, response := r' }
        (.body (.string text))).removals = c.removals := rfl
    have hle := hserved.writes
    have hone := hserved.removals
    have hnone := hserved.removed
    rw [hflight] at hle hnone
    rw [hremovals] at hone hnone
    have hremoved : c.removals = 1 := by omega
    exact absurd (hnone hremoved).1 (Nat.succ_ne_zero _)

end Connection

namespace Handling

open Connection

variable {exposeException : Bool} {cfg : Config} {kind : ProducerKind} {h h' : Handling}

theorem sane_dispatched (request : RequestHandler Unit Unit) (header : ResponseHeader)
    (observer : Option ConclusionObserver) (waits : Nat) (closed : Bool) :
    Sane (dispatched request header observer waits closed).connection :=
  ⟨Chunked.inv_init,
    .request ⟨rfl, Or.inl rfl⟩ (.handler rfl ⟨⟨rfl, rfl⟩, rfl, rfl, rfl⟩)⟩

/-- What starts no response is no matter of the connection. -/
theorem sane_respond (hsane : Sane h.connection) {op : ResponseOp} (hop : ¬ op.concludes) :
    Sane (h.connection.respond cfg op) := by
  obtain ⟨r, hr, hrespond⟩ := respond_of_not_concludes cfg (c := h.connection) hop
  rw [hrespond]
  exact hsane.aside h.connection.waits h.connection.closed hr

theorem sane_step {op : HandlingOp} (hsane : Sane h.connection) (hcareful : Careful cfg kind h op)
    (hstep : step exposeException cfg kind h op = some h') : Sane h'.connection := by
  cases op with
  | connection op =>
    obtain ⟨c, hc, rfl⟩ := Option.map_eq_some_iff.mp hstep
    exact Connection.sane_step hsane hcareful hc
  | prepare op =>
    simp only [step] at hstep
    split_ifs at hstep with hready
    cases hstep
    exact sane_respond hsane hready.2
  | returns =>
    simp only [step] at hstep
    split_ifs at hstep
    cases hstep
    exact hsane
  | throws e =>
    simp only [step] at hstep
    split_ifs at hstep
    cases hstep
    exact hsane.onThrown hcareful exposeException e
  | late op =>
    simp only [step] at hstep
    split_ifs at hstep
    cases hstep
    exact sane_respond hsane hcareful

end Handling

end Attender.Http
