import Attender.Http.ResponseHeader

/-!
# The response handler

`response_handler`: it puts a header together, and its `send` functions and
`end` write it on the connection with a continuation. Once the header has been
sent, a continuation runs at once. What the connection is asked to do is the
second result of the operations.
-/

namespace Attender.Http

open Attender.Library

/-- `conclusion_observer`. -/
structure ConclusionObserver where
  alive : Bool := true
  withinEndtime : Bool := false
  deriving DecidableEq

namespace ConclusionObserver

/-- `conclusion_observer::has_concluded`. -/
def hasConcluded (o : ConclusionObserver) : Bool := !o.alive || o.withinEndtime

/-- `conclusion_observer::conclude`. -/
def conclude (o : ConclusionObserver) : ConclusionObserver := { o with withinEndtime := true }

@[simp] theorem hasConcluded_conclude (o : ConclusionObserver) : o.conclude.hasConcluded := by
  simp [hasConcluded, conclude]

end ConclusionObserver

/-- What is sent behind a header: the overloads of `response_handler::send`. -/
inductive Body where
  | string (body : Bytes)
  | vector (body : Bytes)
  | stream (body : Bytes)
  deriving DecidableEq

namespace Body

/-- The bytes of a body. -/
def content : Body → Bytes
  | .string body => body
  | .vector body => body
  | .stream body => body

/-- The content type that `send` takes if none has been set. -/
def contentType : Body → Bytes
  | .string _ => bytes "text/plain"
  | .vector _ => bytes "application/octet-stream"
  | .stream _ => bytes "application/octet-stream"

end Body

/-- The continuations that `send_header` is given. -/
inductive HeaderContinuation where
  /-- That of `end`: the connection is removed. -/
  | remove
  /-- That of `write`: the body follows, or `end` after an error. -/
  | body (body : Body)
  /-- That of `write_header_for_chunked`: the chunks follow, or `end` after an error. -/
  | chunked
  deriving DecidableEq

/-- What a response handler asks of its connection. -/
inductive ResponseEffect where
  /-- `connection_->write(header_.to_string(), continuation)`. -/
  | write (header : ResponseHeader) (continuation : HeaderContinuation)
  /-- `continuation({}, 0)`, since the header has been sent before. -/
  | run (continuation : HeaderContinuation)
  deriving DecidableEq

/-- `response_handler`. -/
structure ResponseHandler where
  header : ResponseHeader := {}
  headerSent : Bool := false
  observer : Option ConclusionObserver := none
  deriving DecidableEq

namespace ResponseHandler

/-- A response handler, and what it asks of its connection. -/
abbrev Outcome := ResponseHandler × List ResponseEffect

variable (r : ResponseHandler)

/-- `response_handler::status`. -/
def status (code : Int) : ResponseHandler := { r with header := r.header.setCode code }

/-- `response_handler::set`. -/
def set (field value : Bytes) : ResponseHandler :=
  { r with header := r.header.setField field value }

/-- `response_handler::append`. -/
def append (field value : Bytes) : ResponseHandler :=
  { r with header := r.header.appendField field value }

/-- `response_handler::try_set`. -/
def trySet (field value : Bytes) : ResponseHandler :=
  if r.header.hasField field then r else r.set field value

/-- `response_handler::set_cookie`. -/
def setCookie (cookie : Cookie) : ResponseHandler := { r with header := r.header.setCookie cookie }

/-- `response_handler::observe_conclusion`. -/
def observeConclusion : ResponseHandler := { r with observer := some (r.observer.getD {}) }

/-- `response_handler::has_concluded`. -/
def hasConcluded : Bool := r.observer.any ConclusionObserver.hasConcluded || r.headerSent

/-- `if (observer_) observer_->conclude();`. -/
def conclude : ResponseHandler := { r with observer := r.observer.map ConclusionObserver.conclude }

/-- `response_handler::send_header`. -/
def sendHeader (continuation : HeaderContinuation) : Outcome :=
  let r := r.conclude
  if r.headerSent = false then ({ r with headerSent := true }, [.write r.header continuation])
  else (r, [.run continuation])

/-- `response_handler::end`. -/
def end_ : Outcome := r.conclude.sendHeader .remove

/-- `response_handler::send`. -/
def send (body : Body) : Outcome :=
  let size := body.content.length
  let r := (r.trySet (bytes "Content-Length") (bytes (toString size))).trySet
    (bytes "Content-Type") body.contentType
  let r :=
    if r.header.code = 204 ∧ size ≠ 0 then r.status 200
    else if r.header.code = 200 ∧ size = 0 then r.status 204
    else r
  r.sendHeader (.body body)

/-- `response_handler::send_status`. -/
def sendStatus (code : Int) : Outcome :=
  let r := r.status code
  if code ≠ 204 then r.send (.string r.header.message) else r.end_

/-- `response_handler::send_chunked`, of a producer with this encoding. -/
def sendChunked (encoding : Bytes) : Outcome :=
  let r := ((r.status 200).trySet (bytes "Content-Encoding") encoding).set
    (bytes "Transfer-Encoding") (bytes "chunked")
  r.observeConclusion.sendHeader .chunked

end ResponseHandler

/-- What user code does with a response handler. -/
inductive ResponseOp where
  | status (code : Int)
  | set (field value : Bytes)
  | append (field value : Bytes)
  | setCookie (cookie : Cookie)
  | observeConclusion
  | send (body : Body)
  | sendStatus (code : Int)
  | sendChunked (encoding : Bytes)
  | end_
  deriving DecidableEq

/-- The operations that start a response. -/
def ResponseOp.concludes : ResponseOp → Bool
  | .send _ | .sendStatus _ | .sendChunked _ | .end_ => true
  | .status _ | .set _ _ | .append _ _ | .setCookie _ | .observeConclusion => false

/-- What a response handler does when it is used. -/
def ResponseHandler.apply (r : ResponseHandler) : ResponseOp → Outcome
  | .status code => (r.status code, [])
  | .set field value => (r.set field value, [])
  | .append field value => (r.append field value, [])
  | .setCookie cookie => (r.setCookie cookie, [])
  | .observeConclusion => (r.observeConclusion, [])
  | .send body => r.send body
  | .sendStatus code => r.sendStatus code
  | .sendChunked encoding => r.sendChunked encoding
  | .end_ => r.end_

namespace ResponseHandler

/-! ### Conclusions -/

/-- `observer_->has_concluded()`, if there is an observer. -/
def concluded (r : ResponseHandler) : Bool := r.observer.any ConclusionObserver.hasConcluded

section Observer

variable (r : ResponseHandler)

@[simp] theorem observer_status (code : Int) : (r.status code).observer = r.observer := rfl

@[simp] theorem observer_set (field value : Bytes) :
    (r.set field value).observer = r.observer := rfl

@[simp] theorem observer_trySet (field value : Bytes) :
    (r.trySet field value).observer = r.observer := by
  rw [trySet]
  split_ifs
  · rfl
  · rfl

@[simp] theorem observer_sendHeader (k : HeaderContinuation) :
    (r.sendHeader k).1.observer = r.observer.map ConclusionObserver.conclude := by
  simp only [sendHeader]
  split_ifs
  · rfl
  · rfl

@[simp] theorem observer_send (body : Body) :
    (r.send body).1.observer = r.observer.map ConclusionObserver.conclude := by
  simp only [send]
  split_ifs
  · simp
  · simp
  · simp

@[simp] theorem observer_end : r.end_.1.observer = r.observer.map ConclusionObserver.conclude := by
  simp only [end_, observer_sendHeader, conclude, Option.map_map]
  rfl

@[simp] theorem observer_sendStatus (code : Int) :
    (r.sendStatus code).1.observer = r.observer.map ConclusionObserver.conclude := by
  simp only [sendStatus]
  split_ifs
  · simp
  · simp

end Observer

/-- An observer sees the operations that start a response, and these only. -/
theorem concluded_apply {r : ResponseHandler} (h : r.observer.isSome) (op : ResponseOp) :
    (r.apply op).1.observer.isSome ∧ (r.apply op).1.concluded = (r.concluded || op.concludes) := by
  obtain ⟨o, ho⟩ := Option.isSome_iff_exists.mp h
  cases op <;> simp [apply, concluded, ResponseOp.concludes, ho, append, setCookie,
    observeConclusion, sendChunked]

/-! ### The header -/

section Header

variable (r : ResponseHandler)

@[simp] theorem headerSent_trySet (field value : Bytes) :
    (r.trySet field value).headerSent = r.headerSent := by
  rw [trySet]
  split_ifs
  · rfl
  · rfl

/-- A header is written once. -/
theorem sendHeader_of_open {r : ResponseHandler} (h : r.headerSent = false)
    (k : HeaderContinuation) :
    ∃ r' header, r.sendHeader k = (r', [.write header k]) ∧ r'.headerSent = true := by
  refine ⟨{ r.conclude with headerSent := true }, r.header, ?_, rfl⟩
  simp [sendHeader, conclude, h]

theorem sendHeader_of_sent {r : ResponseHandler} (h : r.headerSent = true)
    (k : HeaderContinuation) : ∃ r', r.sendHeader k = (r', [.run k]) ∧ r'.headerSent = true := by
  refine ⟨r.conclude, ?_, h⟩
  simp [sendHeader, conclude, h]

/-- Whatever starts a response ends with `send_header`. -/
theorem apply_of_concludes {op : ResponseOp} (h : op.concludes) :
    ∃ (r' : ResponseHandler) (k : HeaderContinuation), r'.headerSent = r.headerSent ∧
      r.apply op = r'.sendHeader k := by
  have hsend : ∀ (r : ResponseHandler) (body : Body),
      ∃ (r' : ResponseHandler) (k : HeaderContinuation), r'.headerSent = r.headerSent ∧
        r.send body = r'.sendHeader k := by
    intro r body
    refine ⟨_, .body body, ?_, rfl⟩
    split_ifs
    · simp [status]
    · simp [status]
    · simp
  cases op with
  | send body => exact hsend r body
  | sendStatus code =>
    rw [apply, sendStatus]
    split_ifs
    · obtain ⟨r', k, hr, h⟩ := hsend (r.status code) (.string (r.status code).header.message)
      exact ⟨r', k, hr, h⟩
    · exact ⟨(r.status code).conclude, .remove, rfl, rfl⟩
  | sendChunked encoding => exact ⟨_, .chunked, by simp [observeConclusion, set, status], rfl⟩
  | end_ => exact ⟨r.conclude, .remove, rfl, rfl⟩
  | status code => cases h
  | set field value => cases h
  | append field value => cases h
  | setCookie cookie => cases h
  | observeConclusion => cases h

/-- The other operations ask nothing of the connection. -/
theorem apply_of_not_concludes {op : ResponseOp} (h : ¬ op.concludes) :
    ∃ r' : ResponseHandler, r'.headerSent = r.headerSent ∧ r.apply op = (r', []) := by
  cases op with
  | status code => exact ⟨r.status code, rfl, rfl⟩
  | set field value => exact ⟨r.set field value, rfl, rfl⟩
  | append field value => exact ⟨r.append field value, rfl, rfl⟩
  | setCookie cookie => exact ⟨r.setCookie cookie, rfl, rfl⟩
  | observeConclusion => exact ⟨r.observeConclusion, rfl, rfl⟩
  | send body => exact absurd rfl h
  | sendStatus code => exact absurd rfl h
  | sendChunked encoding => exact absurd rfl h
  | end_ => exact absurd rfl h

end Header

end ResponseHandler

end Attender.Http
