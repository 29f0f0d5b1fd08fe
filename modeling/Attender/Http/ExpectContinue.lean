import Attender.Http.BodyDelivery
import Attender.Library.Runs

/-!
# Expect: 100-continue

`request_handler::accept_and_continue` between a client that may wait to be told
to go on and a handler that may not tell it. The client sends its body in any
pieces, and the connection reads it in any others. Every run ends. When nothing
more can happen the handler has been given the body, once, unless client and
handler wait for each other (`expect_continue`).
-/

namespace Attender.Http

open Attender.Library Attender.Utility

/-- How a handler takes the body of its request. -/
inductive Taking where
  /-- `accept_and_continue`, with `read_body` in the continuation, and at once if it says
  `false`. -/
  | accepting
  /-- `read_body` at once. -/
  | direct
  deriving DecidableEq

/-- A request whose header has been read, and its client. -/
structure Exchange where
  /-- What the client has not sent of the body. -/
  unsent : Bytes
  /-- What it has sent that the connection has not read. -/
  onTheWay : Bytes := []
  /-- `HTTP/1.1 100 Continue` is being written. -/
  writing : Bool := false
  /-- It has been written, and the client has not got it. -/
  interim : Bool := false
  /-- The client has got it. -/
  told : Bool := false
  /-- The body, once `read_body` has been called. -/
  body : Option BodyRun

/-- What can happen. -/
inductive ExchangeOp where
  /-- The client sends some of the body. -/
  | send (amount : Nat)
  /-- The write completes: the continuation is called. -/
  | written
  /-- The client gets what has been written. -/
  | hear
  /-- A read of the connection completes. -/
  | read (amount : Nat)

/-- What goes on about the body: who takes it, how the client is, and what the parser has left. -/
structure Request where
  taking : Taking
  /-- The client waits to be told, if it expects that. -/
  patient : Bool
  header : RequestHeader
  leftover : Bytes

namespace Request

variable (q : Request)

/-- `expects_continue`. -/
def expects : Bool :=
  RequestHandler.expectsContinue ({ header := q.header } : RequestHandler Unit Unit)

/-- The client waits. -/
def Waits : Prop := q.patient ∧ q.expects

instance : Decidable q.Waits := inferInstanceAs (Decidable (_ ∧ _))

/-- `read_body`, and `then` of what it returns. -/
def readBody : BodyRun := BodyRun.start q.header q.leftover

/-- The handler is called. `accept_and_continue` writes if the request expects that. -/
def start (unsent : Bytes) : Exchange :=
  if q.taking = .accepting ∧ q.expects then { unsent := unsent, writing := true, body := none }
  else { unsent := unsent, body := some q.readBody }

/-- One step. -/
def step (s : Exchange) : ExchangeOp → Option Exchange
  | .send amount =>
    if 0 < amount ∧ amount ≤ s.unsent.length ∧ (q.Waits → s.told) then
      some { s with
        unsent := s.unsent.drop amount, onTheWay := s.onTheWay ++ s.unsent.take amount }
    else none
  | .written =>
    if s.writing then some { s with writing := false, interim := true, body := some q.readBody }
    else none
  | .hear => if s.interim then some { s with interim := false, told := true } else none
  | .read amount =>
    match s.body with
    | some body =>
      if 0 < amount ∧ amount ≤ s.onTheWay.length ∧ body.reading then
        some { s with
          body := some (body.deliver (s.onTheWay.take amount))
          onTheWay := s.onTheWay.drop amount }
      else none
    | none => none

end Request

namespace Exchange

/-- What the handler has been given. -/
def delivered (s : Exchange) : List Bytes := (s.body.map BodyRun.delivered).getD []

/-- What is still to do. -/
def toDo (s : Exchange) : Nat :=
  2 * s.unsent.length + s.onTheWay.length + (if s.writing then 2 else 0) +
    if s.interim then 1 else 0

end Exchange

namespace Request

variable {q : Request} {s s' : Exchange} {op : ExchangeOp}

/-- Every step does something. -/
theorem toDo_step (hstep : q.step s op = some s') : s'.toDo < s.toDo := by
  cases op with
  | send amount =>
    rw [step] at hstep
    split_ifs at hstep with hsend
    cases hstep
    simp only [Exchange.toDo, List.length_drop, List.length_append, List.length_take]
    omega
  | written =>
    rw [step] at hstep
    split_ifs at hstep with hwriting
    cases hstep
    simp only [Exchange.toDo, hwriting, if_true, Bool.false_eq_true, if_false]
    split_ifs <;> omega
  | hear =>
    rw [step] at hstep
    split_ifs at hstep with hinterim
    cases hstep
    simp [Exchange.toDo, hinterim]
  | read amount =>
    cases hbody : s.body with
    | none =>
      rw [step, hbody] at hstep
      cases hstep
    | some body =>
      rw [step, hbody] at hstep
      dsimp only at hstep
      split_ifs at hstep with hread
      cases hstep
      simp only [Exchange.toDo, List.length_drop]
      omega

/-- How far the body is: `read_body` waits for more of it, or the handler has been given it. -/
inductive Reading (header : RequestHeader) (n : Nat) (b : BodyRun) : Prop where
  | more (hlength : b.received.length < n) (h : Waiting header b)
  | all (hlength : b.received.length = n) (hread : ¬ b.reading) (h : b.delivered = [b.received])

theorem reading_of_reached {header : RequestHeader} {n : Nat} {b : BodyRun}
    (h : Reached header n b) (hle : b.received.length ≤ n) : Reading header n b := by
  cases h with
  | short hlength h => exact .more hlength h
  | exact hlength hread h => exact .all hlength hread h
  | surplus hlength => exact absurd hlength (by omega)

/-- What holds after every run, of a body that the client has to send completely. -/
structure Inv (q : Request) (whole : Bytes) (s : Exchange) : Prop where
  /-- Nothing is lost, and the order is kept. -/
  conserved : (s.body.map BodyRun.received).getD q.leftover ++ s.onTheWay ++ s.unsent = whole
  writing : s.writing = true ↔ s.body = none
  reading : ∀ b, s.body = some b → Reading q.header whole.length b
  accepting : q.taking = .accepting → q.expects → s.writing ∨ s.interim ∨ s.told
  direct : q.taking = .direct → ¬ s.writing ∧ ¬ s.interim ∧ ¬ s.told
  waits : q.Waits → ¬ s.told → s.unsent = whole

variable {whole unsent : Bytes}

theorem reading_readBody (hheader : HasContentLength q.header whole.length)
    (hle : q.leftover.length ≤ whole.length) : Reading q.header whole.length q.readBody := by
  obtain ⟨hreached, hreceived⟩ := reached_start hheader q.leftover
  exact reading_of_reached hreached (hreceived.symm ▸ hle)

theorem inv_start (hheader : HasContentLength q.header (q.leftover ++ unsent).length)
    (hwaits : q.Waits → q.leftover = []) : Inv q (q.leftover ++ unsent) (q.start unsent) := by
  have hle : q.leftover.length ≤ (q.leftover ++ unsent).length := by
    rw [List.length_append]
    omega
  rw [start]
  split_ifs with haccepting
  · refine ⟨by simp, by simp, ?_, fun _ _ => Or.inl rfl, ?_, fun h _ => by simp [hwaits h]⟩
    · rintro b ⟨⟩
    · intro hdirect
      rw [haccepting.1] at hdirect
      cases hdirect
  · have hreceived : q.readBody.received = q.leftover := (reached_start hheader q.leftover).2
    refine ⟨by simp [hreceived], by simp, ?_, ?_, ?_, fun h _ => by simp [hwaits h]⟩
    · rintro b ⟨⟩
      exact reading_readBody hheader hle
    · exact fun hacc hexpects => absurd ⟨hacc, hexpects⟩ haccepting
    · exact fun _ => ⟨Bool.false_ne_true, Bool.false_ne_true, Bool.false_ne_true⟩

theorem inv_step (hheader : HasContentLength q.header whole.length) (h : Inv q whole s)
    (hstep : q.step s op = some s') : Inv q whole s' := by
  cases op with
  | send amount =>
    rw [step] at hstep
    split_ifs at hstep with hsend
    cases hstep
    refine ⟨?_, h.writing, h.reading, h.accepting, h.direct, ?_⟩
    · rw [← h.conserved]
      simp [List.append_assoc]
    · exact fun hwaits hnot => absurd (hsend.2.2 hwaits) hnot
  | written =>
    rw [step] at hstep
    split_ifs at hstep with hwriting
    cases hstep
    have hnone := h.writing.mp hwriting
    have hconserved := h.conserved
    rw [hnone, Option.map_none, Option.getD_none] at hconserved
    have hreceived : q.readBody.received = q.leftover := (reached_start hheader q.leftover).2
    have hle : q.leftover.length ≤ whole.length := by
      rw [← hconserved, List.length_append, List.length_append]
      omega
    refine ⟨?_, by simp, ?_, fun _ _ => Or.inr (Or.inl rfl), ?_, h.waits⟩
    · rw [Option.map_some, Option.getD_some, hreceived]
      exact hconserved
    · rintro b ⟨⟩
      exact reading_readBody hheader hle
    · exact fun hdirect => absurd hwriting (h.direct hdirect).1
  | hear =>
    rw [step] at hstep
    split_ifs at hstep with hinterim
    cases hstep
    refine ⟨h.conserved, h.writing, h.reading, fun _ _ => Or.inr (Or.inr rfl), ?_, ?_⟩
    · exact fun hdirect => absurd hinterim (h.direct hdirect).2.1
    · exact fun _ hnot => absurd rfl hnot
  | read amount =>
    cases hbody : s.body with
    | none =>
      rw [step, hbody] at hstep
      cases hstep
    | some body =>
      rw [step, hbody] at hstep
      dsimp only at hstep
      split_ifs at hstep with hread
      cases hstep
      have hconserved := h.conserved
      rw [hbody, Option.map_some, Option.getD_some] at hconserved
      cases h.reading body hbody with
      | all hlength hdone => exact absurd hread.2.2 hdone
      | more hlength hwaiting =>
        obtain ⟨hreached, hreceived⟩ :=
          reached_deliver hheader hwaiting (s.onTheWay.take amount)
        have hsame : (body.deliver (s.onTheWay.take amount)).received ++ s.onTheWay.drop amount ++
            s.unsent = whole := by
          rw [hreceived, List.append_assoc body.received, List.take_append_drop, hconserved]
        refine ⟨hsame, ?_, ?_, h.accepting, h.direct, h.waits⟩
        · have hnot : ¬ s.writing := fun hwriting => by
            rw [h.writing.mp hwriting] at hbody
            cases hbody
          exact iff_of_false hnot (Option.some_ne_none _)
        · rintro b ⟨⟩
          refine reading_of_reached hreached ?_
          rw [← hsame, List.length_append, List.length_append]
          omega

/-- The handler has been given nothing, or the body. -/
theorem Inv.delivered_cases (h : Inv q whole s) :
    s.delivered = [] ∨ s.delivered = [whole] ∧ s.unsent = [] := by
  cases hbody : s.body with
  | none => exact Or.inl (by rw [Exchange.delivered, hbody]; rfl)
  | some b =>
    have hdelivered : s.delivered = b.delivered := by rw [Exchange.delivered, hbody]; rfl
    rw [hdelivered]
    cases h.reading b hbody with
    | more hlength hwaiting => exact Or.inl hwaiting.delivered
    | all hlength hdone hall =>
      have hconserved := h.conserved
      rw [hbody, Option.map_some, Option.getD_some, List.append_assoc] at hconserved
      have hrest : s.onTheWay ++ s.unsent = [] := by
        have hsum := congrArg List.length hconserved
        rw [List.length_append] at hsum
        exact List.length_eq_zero_iff.mp (by omega)
      obtain ⟨hway, hunsent⟩ := List.append_eq_nil_iff.mp hrest
      rw [hway, hunsent, List.append_nil, List.append_nil] at hconserved
      exact Or.inr ⟨by rw [hall, hconserved], hunsent⟩

/-- **When nothing more can happen** the handler has been given the body, unless the client has not
sent it. -/
theorem Inv.delivered_of_halted (h : Inv q whole s) (hhalted : Halted q.step s)
    (hsent : s.unsent = []) : s.delivered = [whole] := by
  cases hbody : s.body with
  | none =>
    have hwritten := hhalted .written
    rw [step, if_pos (h.writing.mpr hbody)] at hwritten
    cases hwritten
  | some b =>
    have hconserved := h.conserved
    rw [hbody, Option.map_some, Option.getD_some, hsent, List.append_nil] at hconserved
    cases h.reading b hbody with
    | more hlength hwaiting =>
      -- more of the body is on the way, and can be read
      have hway : 0 < s.onTheWay.length := by
        have hsum := congrArg List.length hconserved
        rw [List.length_append] at hsum
        omega
      have hread := hhalted (.read 1)
      rw [step, hbody] at hread
      dsimp only at hread
      rw [if_pos ⟨Nat.one_pos, hway, hwaiting.reading⟩] at hread
      cases hread
    | all hlength hdone hall =>
      have hrest : s.onTheWay = [] := by
        have hsum := congrArg List.length hconserved
        rw [List.length_append] at hsum
        exact List.length_eq_zero_iff.mp (by omega)
      rw [hrest, List.append_nil] at hconserved
      rw [Exchange.delivered, hbody, ← hconserved]
      exact hall

/-- The client has sent its body then, unless it waits for a handler that does not tell it. -/
theorem Inv.unsent_of_halted (h : Inv q whole s) (hhalted : Halted q.step s) :
    s.unsent = [] ∨ (q.Waits ∧ q.taking = .direct ∧ s.unsent = whole) := by
  by_contra hnot
  rw [not_or] at hnot
  obtain ⟨hunsent, hfree⟩ := hnot
  have hsend := hhalted (.send 1)
  rw [step, if_pos] at hsend
  · cases hsend
  · refine ⟨Nat.one_pos, List.length_pos_iff.mpr hunsent, fun hwaits => ?_⟩
    cases htaking : q.taking with
    | direct =>
      have htold := (h.direct htaking).2.2
      exact absurd ⟨hwaits, htaking, h.waits hwaits htold⟩ hfree
    | accepting =>
      rcases h.accepting htaking hwaits.2 with hwriting | hinterim | htold
      · have hwritten := hhalted .written
        rw [step, if_pos hwriting] at hwritten
        cases hwritten
      · have hhear := hhalted .hear
        rw [step, if_pos hinterim] at hhear
        cases hhear
      · exact htold

end Request

/-- **A body that is expected to be asked for**: every run ends, the handler is never given anything
but the body and at most once, and when nothing more can happen it has been given it exactly unless
there is one and the client waits to be told while the handler waits for the body. -/
theorem expect_continue (q : Request) (unsent : Bytes)
    (hheader : HasContentLength q.header (q.leftover ++ unsent).length)
    (hwaits : q.Waits → q.leftover = []) (ops : List ExchangeOp) (s : Exchange)
    (hrun : run q.step (q.start unsent) ops = some s) :
    ops.length ≤ 2 * unsent.length + 2 ∧
      (s.delivered = [] ∨ s.delivered = [q.leftover ++ unsent]) ∧
      (Halted q.step s → (s.delivered = [q.leftover ++ unsent] ↔
        ¬ (q.Waits ∧ q.taking = .direct ∧ q.leftover ++ unsent ≠ []))) := by
  have hinv : Request.Inv q (q.leftover ++ unsent) s := run_invariant (A := fun _ => True)
    (fun _ _ _ _ h hstep => Request.inv_step hheader h hstep) (fun _ _ => trivial)
    (Request.inv_start hheader hwaits) hrun
  refine ⟨?_, hinv.delivered_cases.imp_right And.left, fun hhalted => ?_⟩
  · have hends := length_add_le_of_decreasing (A := fun _ => True) (I := fun _ => True)
      (fun _ _ _ _ _ hstep => ⟨trivial, Request.toDo_step hstep⟩) (fun _ _ => trivial) trivial hrun
    have hstart : (q.start unsent).toDo ≤ 2 * unsent.length + 2 := by
      rw [Request.start]
      split_ifs <;> simp [Exchange.toDo]
    omega
  · rcases hinv.unsent_of_halted hhalted with hsent | ⟨hwait, hdirect, hunsent⟩
    · refine iff_of_true (hinv.delivered_of_halted hhalted hsent) ?_
      rintro ⟨hwait, hdirect, hbody⟩
      have htold := (hinv.direct hdirect).2.2
      exact hbody ((hinv.waits hwait htold).symm.trans hsent)
    · constructor
      · intro hdelivered
        rintro ⟨-, -, hbody⟩
        rcases hinv.delivered_cases with hnone | ⟨-, hsent⟩
        · rw [hnone] at hdelivered
          cases hdelivered
        · exact hbody (hunsent.symm.trans hsent)
      · intro hfree
        have hbody : q.leftover ++ unsent = [] := by
          by_contra hne
          exact hfree ⟨hwait, hdirect, hne⟩
        exact hinv.delivered_of_halted hhalted (hunsent.trans hbody)

/-- A body of one byte that a patient client has announced, and a handler that asks for it. -/
def askedForByte : Request where
  taking := .accepting
  patient := true
  header :=
    { fields := AList.insert (bytes "Expect") (bytes "100-continue")
        (AList.insert (bytes "Content-Length") (bytes "1") ∅) }
  leftover := []

/-- The client is told, sends the byte, and it is read. -/
theorem expect_continue_asked :
    ∃ s, run askedForByte.step (askedForByte.start (bytes "a"))
        [.written, .hear, .send 1, .read 1] = some s ∧
      4 ≤ 2 * 1 + 2 ∧ (s.delivered = [] ∨ s.delivered = [bytes "a"]) ∧
      (Halted askedForByte.step s → (s.delivered = [bytes "a"] ↔
        ¬ (askedForByte.Waits ∧ askedForByte.taking = .direct ∧ bytes "a" ≠ []))) := by
  obtain ⟨s, hrun⟩ := Option.isSome_iff_exists.mp (by decide :
    (run askedForByte.step (askedForByte.start (bytes "a"))
      [.written, .hear, .send 1, .read 1]).isSome = true)
  have hlength : HasContentLength askedForByte.header 1 :=
    ⟨⟨bytes "1", by decide, by decide, by decide⟩, by decide⟩
  exact ⟨s, hrun, expect_continue askedForByte (bytes "a") hlength (fun _ => rfl) _ s hrun⟩

end Attender.Http
