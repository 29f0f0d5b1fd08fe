import Attender.Http.Connection
import Attender.Http.SequentialReads
import Attender.Library.Runs

/-!
# The reads of a request

One request from its first read on: what the request handler does when a read of
the connection completes, and when user code reads the body. Whatever the read
brings, and however it fails, one thing follows: another read, the notification
that the header has been read or cannot be, or the completion of the read of the
body.
-/

namespace Attender.Http

open Attender.Library Attender.Utility

/-- What the request handler does in one go. -/
inductive ReadEffect where
  /-- `connection_->read()`. -/
  | read
  /-- `on_parse_`. -/
  | onParse (ec : Option ErrorCode)
  /-- `send_status(400)`, since the header cannot be constructed. -/
  | badHeader
  /-- `fullfill` or `error` of the callback wrapper. -/
  | complete (c : Called Unit Unit)
  /-- `send_status` else. -/
  | sendStatus (code : Int)
  /-- `end` of the response handler. -/
  | endResponse
  deriving DecidableEq

namespace ReadEffect

/-- The next steps: those that a request waits for. -/
def isNext : ReadEffect → Bool
  | read | onParse _ | badHeader | complete _ => true
  | sendStatus _ | endResponse => false

/-- The next steps of a read of the body. -/
def ofBody : ReadEffect → Bool
  | read | complete _ => true
  | onParse _ | badHeader | sendStatus _ | endResponse => false

/-- The calls of `on_parse_`. -/
def isNotification : ReadEffect → Bool
  | onParse _ => true
  | read | badHeader | complete _ | sendStatus _ | endResponse => false

theorem isNext_of_ofBody (e : ReadEffect) (h : e.ofBody) : e.isNext := by
  cases e with
  | read | complete c => rfl
  | onParse ec | badHeader | sendStatus code | endResponse => cases h

theorem isNotification_of_ofBody (e : ReadEffect) (h : e.ofBody) : ¬ e.isNotification := by
  cases e with
  | read | complete c => exact Bool.false_ne_true
  | onParse ec | badHeader | sendStatus code | endResponse => cases h

/-- What the request handler does, as it is seen here. -/
def ofRequest : RequestEffect Unit Unit → ReadEffect
  | .read => read
  | .call c => complete c
  | .sendStatus code => sendStatus code
  | .endResponse => endResponse

end ReadEffect

/-- How a read of the connection completes. -/
structure Completion where
  ec : Option ErrorCode := none
  amount : Bytes := []
  /-- `feed` throws `std::bad_alloc`. -/
  outOfMemory : Bool := false
  /-- `on_parse_` throws a `std::exception`, if it is called with the header. -/
  throws : Bool := false

/-- `request_handler::header_read_handler`. -/
def RequestHandler.headerReadHandler (cfg : Config) (r : RequestHandler Unit Unit)
    (c : Completion) : RequestHandler Unit Unit × List ReadEffect :=
  match c.ec with
  | some ec => (r, [.onParse (some ec)])
  | none =>
    if c.outOfMemory then (r, [.onParse (some .notEnoughMemory)])
    else
      match feed cfg r.parser c.amount with
      | .waiting parser => ({ r with parser := parser }, [.read])
      | .rejected _ => (r, [.onParse (some .protocolError)])
      | .done parser =>
        let r := { r with parser := parser }
        match parser.header.requestHeader with
        | none => (r, [.badHeader])
        | some header =>
          ({ r with header := header },
            .onParse none :: if c.throws then [.sendStatus 400] else [])

/-- A request that is read. The callback wrapper has both its functions, so that each of its
completions is seen; which of them user code has set changes nothing else. -/
structure RequestReads where
  handler : RequestHandler Unit Unit := { onFinishedRead := { func := some (), fail := some () } }
  readCallback : ReadCallback := .header
  /-- The reads of the connection that are outstanding. -/
  reads : Nat := 0
  /-- How often `on_parse_` has been called. -/
  notified : Nat := 0
  /-- It has been called with the header, so a handler of the user may act. -/
  handled : Bool := false

/-- What happens to a request. -/
inductive RequestAction where
  /-- A read of the connection completes. -/
  | completed (c : Completion)
  /-- The handler reads the body. -/
  | readBody (max : Nat)

namespace RequestReads

/-- The request after the request handler has done something. -/
def after (s : RequestReads) (handler : RequestHandler Unit Unit) (effects : List ReadEffect) :
    RequestReads :=
  { s with
    handler := handler
    reads := s.reads + effects.count .read
    notified := s.notified + effects.countP ReadEffect.isNotification
    handled := s.handled || .onParse none ∈ effects }

/-- `request_handler::initiate_header_read`. -/
def initiateHeaderRead (s : RequestReads) : RequestReads :=
  { s with readCallback := .header }.after s.handler [.read]

/-- What the request handler does, and what it leaves. The handler of the user reads one body. -/
def act (cfg : Config) (s : RequestReads) : RequestAction →
    Option (RequestHandler Unit Unit × List ReadEffect)
  | .completed c =>
    if s.reads = 0 then none
    else
      match s.readCallback with
      | .header => some (s.handler.headerReadHandler cfg c)
      | .body =>
        let outcome := s.handler.bodyReadHandler c.ec c.amount
        some (outcome.1, outcome.2.map .ofRequest)
  | .readBody max =>
    if s.handled ∧ s.readCallback = .header then
      let outcome := s.handler.readBody max
      some (outcome.1, outcome.2.map .ofRequest)
    else none

/-- The request as it is when the request handler is called. -/
def before (s : RequestReads) : RequestAction → RequestReads
  | .completed _ => { s with reads := s.reads - 1 }
  | .readBody _ => { s with readCallback := .body }

def step (cfg : Config) (s : RequestReads) (a : RequestAction) : Option RequestReads :=
  (s.act cfg a).map fun o => (s.before a).after o.1 o.2

/-- Exactly one of the next steps, and if user code reads the body one of those of a body. -/
def OneNext (a : RequestAction) (effects : List ReadEffect) : Prop :=
  effects.countP ReadEffect.isNext = 1 ∧
    match a with
    | .completed _ => True
    | .readBody _ => effects.countP ReadEffect.ofBody = 1

end RequestReads

/-! ### What the request handler does in one go -/

/-- One next step, and then at most a response. -/
structure NextIs (e : ReadEffect) (effects : List ReadEffect) : Prop where
  next : e.isNext
  eq : ∃ rest, effects = e :: rest ∧ ∀ x ∈ rest, ¬ x.isNext

section NextIs

variable {e : ReadEffect} {effects : List ReadEffect}

theorem nextIs_singleton (h : e.isNext) : NextIs e [e] :=
  ⟨h, [], rfl, fun _ hx => absurd hx List.not_mem_nil⟩

theorem nextIs_pair (h : e.isNext) {x : ReadEffect} (hx : ¬ x.isNext) : NextIs e [e, x] := by
  refine ⟨h, [x], rfl, ?_⟩
  intro y hy
  rwa [List.mem_singleton.mp hy]

/-- What is counted among the next steps is the first effect. -/
theorem NextIs.countP (h : NextIs e effects) {p : ReadEffect → Bool} (hp : ∀ x, p x → x.isNext) :
    effects.countP p = if p e then 1 else 0 := by
  obtain ⟨rest, rfl, hrest⟩ := h.eq
  have hzero : rest.countP p = 0 := by
    rw [List.countP_eq_zero]
    exact fun x hx hpx => hrest x hx (hp x hpx)
  rw [List.countP_cons, hzero, Nat.zero_add]

theorem NextIs.isNext (h : NextIs e effects) : effects.countP ReadEffect.isNext = 1 := by
  rw [h.countP fun _ hx => hx, if_pos h.next]

theorem NextIs.reads (h : NextIs e effects) :
    effects.count .read = if e = .read then 1 else 0 := by
  rw [List.count, h.countP]
  · simp only [beq_iff_eq]
  · intro x hx
    rw [beq_iff_eq.mp hx]
    rfl

theorem NextIs.notifications (h : NextIs e effects) :
    effects.countP ReadEffect.isNotification = if e.isNotification then 1 else 0 := by
  refine h.countP ?_
  intro x hx
  cases x with
  | onParse ec => rfl
  | read | badHeader | complete c | sendStatus code | endResponse => cases hx

end NextIs

namespace RequestHandler

variable {r : RequestHandler Unit Unit}

/-- **A read of the header.** -/
theorem headerReadHandler_nextIs (cfg : Config) (r : RequestHandler Unit Unit) (c : Completion) :
    (r.headerReadHandler cfg c).1.onFinishedRead = r.onFinishedRead ∧
      ∃ e, NextIs e (r.headerReadHandler cfg c).2 := by
  rw [headerReadHandler]
  cases c.ec with
  | some ec => exact ⟨rfl, _, nextIs_singleton rfl⟩
  | none =>
    cases c.outOfMemory with
    | true => exact ⟨rfl, _, nextIs_singleton rfl⟩
    | false =>
      cases feed cfg r.parser c.amount with
      | waiting parser => exact ⟨rfl, _, nextIs_singleton rfl⟩
      | rejected e => exact ⟨rfl, _, nextIs_singleton rfl⟩
      | done parser =>
        cases hheader : parser.header.requestHeader with
        | none => simpa [hheader] using ⟨_, nextIs_singleton (e := .badHeader) rfl⟩
        | some header =>
          cases c.throws with
          | false => simpa [hheader] using ⟨_, nextIs_singleton (e := .onParse none) rfl⟩
          | true =>
            simpa [hheader] using
              ⟨_, nextIs_pair (e := .onParse none) rfl (x := .sendStatus 400) Bool.false_ne_true⟩

/-- The callback wrapper has both its functions. -/
structure Watched (r : RequestHandler Unit Unit) : Prop where
  func : r.onFinishedRead.func = some ()
  fail : r.onFinishedRead.fail = some ()

/-- What a read of the body comes to is one next step. -/
theorem Watched.nextIs (h : r.Watched) {o : Outcome Unit Unit} {r' : RequestHandler Unit Unit}
    (hsame : r'.onFinishedRead = r.onFinishedRead)
    (ho : o = r'.fullfill ∨ o = (r', [.read]) ∨
      ∃ ec rest, o = ((r'.raise ec).1, (r'.raise ec).2 ++ rest) ∧
        (rest = [] ∨ rest = [.sendStatus 411] ∨ rest = [.endResponse])) :
    o.1.Watched ∧ ∃ e, e.ofBody ∧ NextIs e (o.2.map .ofRequest) := by
  have hfunc : r'.onFinishedRead.func = some () := by rw [hsame, h.func]
  have hfail : r'.onFinishedRead.fail = some () := by rw [hsame, h.fail]
  rcases ho with rfl | rfl | ⟨ec, rest, rfl, hrest⟩
  · refine ⟨⟨hfunc, hfail⟩, .complete (.continuation ()), rfl, ?_⟩
    rw [fullfill, CallbackWrapper.fullfill, hfunc]
    exact nextIs_singleton rfl
  · exact ⟨⟨hfunc, hfail⟩, .read, rfl, nextIs_singleton rfl⟩
  · rw [raise, CallbackWrapper.raise, hfail]
    refine ⟨⟨hfunc, rfl⟩, .complete (.errorHandler () (some ec)), rfl, ?_⟩
    rcases hrest with rfl | rfl | rfl
    · exact nextIs_singleton rfl
    · exact nextIs_pair rfl Bool.false_ne_true
    · exact nextIs_pair rfl Bool.false_ne_true

/-- **A read of the body** by user code. -/
theorem Watched.readBody (h : r.Watched) (max : Nat) :
    (r.readBody max).1.Watched ∧ ∃ e, e.ofBody ∧ NextIs e ((r.readBody max).2.map .ofRequest) := by
  obtain ⟨r', hsame, hcases⟩ := r.readBody_cases max
  refine h.nextIs hsame ?_
  rcases hcases with ⟨-, -, e⟩ | ⟨-, -, e⟩ | ⟨-, -, e⟩
  · exact Or.inl e
  · exact Or.inr (Or.inl e)
  · exact Or.inr (Or.inr ⟨_, _, e, Or.inr (Or.inl rfl)⟩)

/-- **A read of the connection for the body.** -/
theorem Watched.bodyReadHandler (h : r.Watched) (ec : Option ErrorCode) (amount : Bytes) :
    (r.bodyReadHandler ec amount).1.Watched ∧
      ∃ e, e.ofBody ∧ NextIs e ((r.bodyReadHandler ec amount).2.map .ofRequest) := by
  obtain ⟨r', hsame, hcases⟩ := r.bodyReadHandler_cases ec amount
  refine h.nextIs hsame ?_
  rcases hcases with ⟨-, -, e⟩ | ⟨-, -, e⟩ | ⟨ec', -, e⟩
  · exact Or.inl e
  · exact Or.inr (Or.inl e)
  · refine Or.inr (Or.inr ⟨ec', _, e, ?_⟩)
    split_ifs
    · exact Or.inr (Or.inr rfl)
    · exact Or.inl rfl

end RequestHandler

/-! ### Whole runs -/

namespace RequestReads

variable {cfg : Config} {s s' : RequestReads}

/-- What every step keeps. -/
structure Orderly (s : RequestReads) : Prop where
  watched : s.handler.Watched
  /-- Before the body is read, nothing more is read once `on_parse_` has been called. -/
  header : s.readCallback = .header → s.reads + s.notified ≤ 1
  reads : s.reads ≤ 1
  notified : s.notified ≤ 1
  handled : s.handled → s.notified = 1

/-- The first read. -/
theorem orderly_start : Orderly (initiateHeaderRead {}) :=
  ⟨⟨rfl, rfl⟩, fun _ => Nat.le_refl 1, Nat.le_refl 1, Nat.zero_le 1, nofun⟩

/-- A step of the read of the body keeps the order: it notifies nobody. -/
theorem Orderly.body (h : s.Orderly) {handler : RequestHandler Unit Unit}
    (hwatched : handler.Watched) (hcallback : s.readCallback = .body) (hreads : s.reads = 0)
    {e : ReadEffect} {effects : List ReadEffect} (hbody : e.ofBody) (he : NextIs e effects) :
    (s.after handler effects).Orderly := by
  have hnotified : (s.after handler effects).notified = s.notified := by
    rw [after, he.notifications, if_neg (ReadEffect.isNotification_of_ofBody e hbody), Nat.add_zero]
  refine ⟨hwatched, ?_, ?_, ?_, ?_⟩
  · intro hheader
    rw [after, hcallback] at hheader
    cases hheader
  · simp only [after, he.reads, hreads]
    split_ifs <;> omega
  · rw [hnotified]
    exact h.notified
  · intro hhandled
    rw [hnotified]
    have hnever : .onParse none ∉ effects := by
      intro hmem
      have hzero : effects.countP ReadEffect.isNotification = 0 := by
        rw [he.notifications, if_neg (ReadEffect.isNotification_of_ofBody e hbody)]
      exact List.countP_eq_zero.mp hzero _ hmem rfl
    refine h.handled ?_
    simpa [after, hnever] using hhandled

/-- A step of the read of the header keeps it, since that is the first to notify. -/
theorem Orderly.ofHeader (h : s.Orderly) {handler : RequestHandler Unit Unit}
    (hwatched : handler.Watched) (hreads : s.reads = 0) (hnotified : s.notified = 0)
    {e : ReadEffect} {effects : List ReadEffect} (he : NextIs e effects) :
    (s.after handler effects).Orderly := by
  have hone : (s.after handler effects).reads + (s.after handler effects).notified ≤ 1 := by
    simp only [after, he.reads, he.notifications, hreads, hnotified]
    split_ifs with hread hparse
    · rw [hread] at hparse
      cases hparse
    · omega
    · omega
    · omega
  refine ⟨hwatched, fun _ => hone, ?_, ?_, ?_⟩
  · omega
  · omega
  · intro hhandled
    have hmem : .onParse none ∈ effects := by
      rcases (Bool.or_eq_true _ _).mp hhandled with hbefore | hnow
      · have := h.handled hbefore
        omega
      · exact of_decide_eq_true hnow
    have hpos : 0 < effects.countP ReadEffect.isNotification :=
      List.countP_pos_iff.mpr ⟨_, hmem, rfl⟩
    have hcount : (s.after handler effects).notified =
        s.notified + effects.countP ReadEffect.isNotification := rfl
    omega

/-- **One step**: one next step is taken, and the order is kept. -/
theorem Orderly.act (h : s.Orderly) {a : RequestAction} {handler : RequestHandler Unit Unit}
    {effects : List ReadEffect} (hact : s.act cfg a = some (handler, effects)) :
    OneNext a effects ∧ ((s.before a).after handler effects).Orderly := by
  cases a with
  | completed c =>
    rw [RequestReads.act] at hact
    split_ifs at hact with hreads
    have hzero : (s.before (.completed c)).reads = 0 := Nat.sub_eq_zero_of_le h.reads
    have hbefore : (s.before (.completed c)).Orderly :=
      ⟨h.watched, fun hheader => (Nat.add_le_add_right (Nat.sub_le _ 1) _).trans (h.header hheader),
        (Nat.sub_le _ 1).trans h.reads, h.notified, h.handled⟩
    cases hcallback : s.readCallback with
    | header =>
      rw [hcallback] at hact
      obtain ⟨hwrapper, e, he⟩ := s.handler.headerReadHandler_nextIs cfg c
      rw [Option.some.inj hact] at hwrapper he
      have hwatched : handler.Watched :=
        ⟨(congrArg CallbackWrapper.func hwrapper).trans h.watched.func,
          (congrArg CallbackWrapper.fail hwrapper).trans h.watched.fail⟩
      have hnone : s.notified = 0 := by
        have := h.header hcallback
        omega
      exact ⟨⟨he.isNext, trivial⟩, hbefore.ofHeader hwatched hzero hnone he⟩
    | body =>
      rw [hcallback] at hact
      obtain ⟨hwatched, e, hbody, he⟩ := h.watched.bodyReadHandler c.ec c.amount
      obtain ⟨rfl, rfl⟩ := Prod.mk.inj (Option.some.inj hact)
      exact ⟨⟨he.isNext, trivial⟩, hbefore.body hwatched hcallback hzero hbody he⟩
  | readBody max =>
    rw [RequestReads.act] at hact
    split_ifs at hact with hready
    obtain ⟨hwatched, e, hbody, he⟩ := h.watched.readBody max
    obtain ⟨rfl, rfl⟩ := Prod.mk.inj (Option.some.inj hact)
    have hzero : s.reads = 0 := by
      have := h.header hready.2
      have := h.handled hready.1
      omega
    have hbefore : (s.before (.readBody max)).Orderly :=
      ⟨h.watched, nofun, h.reads, h.notified, h.handled⟩
    refine ⟨⟨he.isNext, ?_⟩, hbefore.body hwatched rfl hzero hbody he⟩
    exact (he.countP ReadEffect.isNext_of_ofBody).trans (if_pos hbody)

/-- **One next step**: in every run at most one read of the connection is outstanding, `on_parse_`
has been called at most once, and whatever completes next, or is read by the handler, one next step
follows. -/
theorem one_next_step (cfg : Config) (actions : List RequestAction) (s : RequestReads)
    (hrun : run (step cfg) (initiateHeaderRead {}) actions = some s) :
    s.reads ≤ 1 ∧ s.notified ≤ 1 ∧ ∀ a handler effects, s.act cfg a = some (handler, effects) →
      OneNext a effects := by
  have horderly : s.Orderly := by
    refine run_invariant (A := fun _ => True) ?_ (fun _ _ => trivial) orderly_start hrun
    intro s a s' _ h hstep
    obtain ⟨⟨handler, effects⟩, hact, rfl⟩ := Option.map_eq_some_iff.mp hstep
    exact (h.act hact).2
  exact ⟨horderly.reads, horderly.notified, fun a handler effects hact => (horderly.act hact).1⟩

/-- It is so after the whole header of a request, with which `on_parse_` has been called. -/
theorem one_next_step_get :
    let s : RequestReads := ((initiateHeaderRead {}).step {} (.completed
      { amount := bytes "GET / HTTP/1.1\r\n\r\n" })).getD {}
    s.handled ∧ s.reads ≤ 1 ∧ s.notified ≤ 1 ∧
      ∀ a handler effects, s.act {} a = some (handler, effects) → OneNext a effects :=
  ⟨by decide +kernel,
    one_next_step {} [.completed { amount := bytes "GET / HTTP/1.1\r\n\r\n" }] _ rfl⟩

end RequestReads

end Attender.Http
