import Attender.Http.RequestHeader
import Attender.Http.RequestParser
import Attender.Library.Integers
import Attender.Utility.CallbackWrapper

/-!
# The request handler

`request_handler` and its reads of a body: what the parser has left in its
buffer goes into a sink first, and then each read of the connection, until the
bytes written are those of `Content-Length`.
-/

namespace Attender.Http

open Attender.Library Attender.Utility

/-- `http_read_sink`, with what the string or the stream behind it has been given. -/
structure HttpReadSink where
  writtenBytes : Nat := 0
  data : Bytes := []
  deriving DecidableEq

/-- `http_string_sink::write` and `http_stream_sink::write`, of the first `size` bytes at `data`. -/
def HttpReadSink.write (sink : HttpReadSink) (data : Bytes) (size : Nat) : HttpReadSink where
  writtenBytes := sink.writtenBytes + size
  data := sink.data ++ data.take size

/-- `request_handler`, with continuations in `κ` and error handlers in `φ`. -/
structure RequestHandler (κ φ : Type) where
  parser : RequestParser := {}
  header : RequestHeader := {}
  sink : HttpReadSink := {}
  onFinishedRead : CallbackWrapper κ φ := {}
  maxRead : Nat := 0

/-- What the request handler does outside of itself. -/
inductive RequestEffect (κ φ : Type) where
  /-- `connection_->read()`. -/
  | read
  /-- A function of the callback wrapper runs. -/
  | call (c : Called κ φ)
  /-- `send_status` of the response handler. -/
  | sendStatus (code : Int)
  /-- `end` of the response handler. -/
  | endResponse
  deriving DecidableEq

/-- What `request_header::request_header` takes over from the parser, before it parses the url. -/
def RequestHeaderIntermediate.toRequestHeader (h : RequestHeaderIntermediate) : RequestHeader where
  method := h.method
  url := h.url
  protocol := h.protocol
  version := h.version
  fields := h.fields
  cookies := h.cookies

/-- `request_header::request_header`; it throws where `parse_url` does. -/
def RequestHeaderIntermediate.requestHeader (h : RequestHeaderIntermediate) :
    Option RequestHeader :=
  h.toRequestHeader.parseUrl

namespace RequestHandler

variable {κ φ : Type}

/-- What the request handler comes to, and what it does on the way. -/
abbrev Outcome (κ φ : Type) := RequestHandler κ φ × List (RequestEffect κ φ)

/-- `request_handler::get_content_length`; it throws if there is no such field. -/
def getContentLength (r : RequestHandler κ φ) : Option Nat :=
  (r.header.getField (bytes "Content-Length")).map fun value => toSize (atoll value)

/-- `request_handler::get_header_field`. -/
def getHeaderField (r : RequestHandler κ φ) (key : Bytes) : Option Bytes := r.header.getField key

/-- `request_handler::get_cookie_value`. -/
def getCookieValue (r : RequestHandler κ φ) (name : Bytes) : Option Bytes := r.header.getCookie name

/-- `request_handler::expects_continue`. -/
def expectsContinue (r : RequestHandler κ φ) : Bool :=
  r.header.getField (bytes "Expect") = some (bytes "100-continue")

/-- `request_handler::hostname`, with `trust_proxy` of the settings of the server. -/
def hostname (r : RequestHandler κ φ) (trustProxy : Bool) : Bytes :=
  let xhost := if trustProxy then r.parser.getField (bytes "X-Forwarded-Host") else none
  (xhost.or (r.parser.getField (bytes "Host"))).getD []

/-- `on_finished_read_.fullfill()`. -/
def fullfill (r : RequestHandler κ φ) : Outcome κ φ :=
  ({ r with onFinishedRead := r.onFinishedRead.fullfill.1 }, r.onFinishedRead.fullfill.2.map .call)

/-- `on_finished_read_.error(ec)`. -/
def raise (r : RequestHandler κ φ) (ec : ErrorCode) : Outcome κ φ :=
  ({ r with onFinishedRead := (r.onFinishedRead.raise ec).1 },
    (r.onFinishedRead.raise ec).2.map .call)

/-- What is left to read, `max(Content-Length - written, 0)` in `int64_t`. -/
def remaining (contentLength : Nat) (sink : HttpReadSink) : Int :=
  max (toInt64 contentLength - toInt64 sink.writtenBytes) 0

/-- `request_handler::body_read_start` behind the test of the length. -/
def bodyReadOn (r : RequestHandler κ φ) (contentLength max : Nat) : Outcome κ φ :=
  if ¬ r.parser.isBufferEmpty then
    let buffered := r.parser.headerBuffer.length
    let fromHeaderBuffer := if max ≠ 0 then min max buffered else buffered
    let front := r.parser.readFront fromHeaderBuffer
    let r := { r with parser := front.2, sink := r.sink.write front.1 fromHeaderBuffer }
    if r.parser.isBufferEmpty ∧ 0 < sub64 contentLength fromHeaderBuffer ∧
        (max = 0 ∨ fromHeaderBuffer < max) then (r, [.read])
    else r.fullfill
  else if remaining contentLength r.sink = 0 then r.fullfill
  else (r, [.read])

/-- `request_handler::body_read_start`. -/
def bodyReadStart (r : RequestHandler κ φ) (max : Nat) : Outcome κ φ :=
  match r.getContentLength with
  | none => ((r.raise .invalidArgument).1, (r.raise .invalidArgument).2 ++ [.sendStatus 411])
  | some contentLength => r.bodyReadOn contentLength max

/-- `request_handler::read_body`. -/
def readBody (r : RequestHandler κ φ) (max : Nat) : Outcome κ φ :=
  { r with maxRead := max, sink := {} }.bodyReadStart max

/-- `request_handler::body_read_handler`, with the bytes of the read. `get_content_length` does
not throw here, since `body_read_start` has read it. -/
def bodyReadHandler (r : RequestHandler κ φ) (ec : Option ErrorCode) (amount : Bytes) :
    Outcome κ φ :=
  match ec with
  | some ec =>
    ((r.raise ec).1, (r.raise ec).2 ++ if ec ≠ .operationAborted then [.endResponse] else [])
  | none =>
    if r.maxRead ≠ 0 ∧ toInt64 r.maxRead - toInt64 r.sink.writtenBytes ≤ 0 then r.fullfill
    else
      let r := { r with sink := r.sink.write amount amount.length }
      if remaining (r.getContentLength.getD 0) r.sink = 0 then r.fullfill else (r, [.read])

section Start

variable {r : RequestHandler κ φ} {contentLength : Nat}

/-- When the parser has left nothing, the sink decides. -/
theorem bodyReadStart_of_empty (hlength : r.getContentLength = some contentLength)
    (hempty : r.parser.headerBuffer = []) (max : Nat) :
    r.bodyReadStart max =
      if remaining contentLength r.sink = 0 then r.fullfill else (r, [.read]) := by
  rw [bodyReadStart, hlength]
  simp [bodyReadOn, RequestParser.isBufferEmpty, hempty]

/-- A limit that is reached with what the parser has left is how much of it is taken. -/
theorem bodyReadStart_of_limit (hlength : r.getContentLength = some contentLength) {max : Nat}
    (hmax : max ≠ 0) (hlimit : max ≤ r.parser.headerBuffer.length) :
    r.bodyReadStart max =
      let front := r.parser.readFront max
      { r with parser := front.2, sink := r.sink.write front.1 max }.fullfill := by
  have hleft : ¬ r.parser.isBufferEmpty := by
    rw [RequestParser.isBufferEmpty, List.isEmpty_iff]
    intro hempty
    rw [hempty, List.length_nil] at hlimit
    omega
  have hdone : ¬ (max = 0 ∨ max < max) := by omega
  rw [bodyReadStart, hlength]
  dsimp only [bodyReadOn]
  rw [if_pos hleft, if_pos hmax, min_eq_left hlimit, if_neg fun h => hdone h.2.2]

/-- Without such a limit all of what the parser has left goes into the sink, and an unsigned
difference decides. -/
theorem bodyReadStart_of_leftover (hlength : r.getContentLength = some contentLength) {max : Nat}
    (hmax : max = 0 ∨ r.parser.headerBuffer.length < max) (hleft : r.parser.headerBuffer ≠ []) :
    r.bodyReadStart max =
      let buffered := r.parser.headerBuffer
      let r := { r with
        parser := { r.parser with headerBuffer := [] }
        sink := r.sink.write buffered buffered.length }
      if 0 < sub64 contentLength buffered.length then (r, [.read]) else r.fullfill := by
  have hall : (if max ≠ 0 then min max r.parser.headerBuffer.length
      else r.parser.headerBuffer.length) = r.parser.headerBuffer.length := by
    split_ifs with hpos
    · rw [min_eq_right (hmax.resolve_left hpos).le]
    · rfl
  rw [bodyReadStart, hlength]
  dsimp only [bodyReadOn]
  rw [hall]
  simp [RequestParser.isBufferEmpty, RequestParser.readFront, hleft, hmax]

/-- What the parser has left is taken to be all of a body of this length. -/
def LeftAll (contentLength : Nat) (leftover : Bytes) : Prop :=
  if leftover = [] then remaining contentLength {} = 0
  else sub64 contentLength leftover.length = 0

instance (contentLength : Nat) (leftover : Bytes) : Decidable (LeftAll contentLength leftover) :=
  inferInstanceAs (Decidable (if leftover = [] then _ else _))

/-- **The start of a read** that is not limited by what the parser has left: all of that goes into
the sink, and the read is over or asks for more. -/
theorem readBody_of_below (hlength : r.getContentLength = some contentLength) (max : Nat)
    (hmax : max = 0 ∨ r.parser.headerBuffer.length < max) :
    ∃ r' : RequestHandler κ φ, r'.header = r.header ∧ r'.maxRead = max ∧
      r'.sink = ⟨r.parser.headerBuffer.length, r.parser.headerBuffer⟩ ∧
      r'.onFinishedRead = r.onFinishedRead ∧
      r.readBody max =
        if LeftAll contentLength r.parser.headerBuffer then r'.fullfill else (r', [.read]) := by
  have hsame : ({ r with maxRead := max, sink := {} } : RequestHandler κ φ).getContentLength =
      some contentLength := hlength
  by_cases hempty : r.parser.headerBuffer = []
  · refine ⟨{ r with maxRead := max, sink := {} }, rfl, rfl, ?_, rfl, ?_⟩
    · rw [hempty]
      rfl
    · rw [readBody, bodyReadStart_of_empty hsame hempty]
      simp only [LeftAll, if_pos hempty]
  · refine ⟨{ r with
      maxRead := max
      parser := { r.parser with headerBuffer := [] }
      sink := ⟨r.parser.headerBuffer.length, r.parser.headerBuffer⟩ }, rfl, rfl, rfl, rfl, ?_⟩
    rw [readBody, bodyReadStart_of_leftover hsame hmax hempty]
    simp only [LeftAll, if_neg hempty, HttpReadSink.write, List.take_length, Nat.zero_add,
      List.nil_append, Nat.pos_iff_ne_zero, ite_not]

/-- **A read of the connection** below the limit: all of it goes into the sink, and the read of the
body is over or asks for more. -/
theorem bodyReadHandler_of_below (hlength : r.getContentLength = some contentLength)
    {received : Bytes} (hsink : r.sink = ⟨received.length, received⟩)
    (hlimit : r.maxRead ≠ 0 → 0 < toInt64 r.maxRead - toInt64 received.length) (amount : Bytes) :
    ∃ r' : RequestHandler κ φ, r'.header = r.header ∧ r'.maxRead = r.maxRead ∧
      r'.sink = ⟨(received ++ amount).length, received ++ amount⟩ ∧
      r'.onFinishedRead = r.onFinishedRead ∧
      r.bodyReadHandler none amount =
        if remaining contentLength r'.sink = 0 then r'.fullfill else (r', [.read]) := by
  have hwritten : r.sink.write amount amount.length =
      ⟨(received ++ amount).length, received ++ amount⟩ := by
    rw [hsink, HttpReadSink.write, List.take_length, List.length_append]
  have hsame : ({ r with sink := r.sink.write amount amount.length } :
      RequestHandler κ φ).getContentLength = some contentLength := hlength
  have hbelow : ¬ (r.maxRead ≠ 0 ∧ toInt64 r.maxRead - toInt64 r.sink.writtenBytes ≤ 0) := by
    rw [hsink]
    exact fun hreached => absurd hreached.2 (not_le.mpr (hlimit hreached.1))
  refine ⟨{ r with sink := r.sink.write amount amount.length }, rfl, rfl, hwritten, rfl, ?_⟩
  rw [bodyReadHandler, if_neg hbelow]
  simp only [hsame, Option.getD_some]

end Start

/-! ### What the reads ask for -/

/-- It asks for a read, or it runs functions of the callback wrapper alone. -/
def ReadsOn (o : Outcome κ φ) : Prop := o.2 = [.read] ∨ ∃ cs : List (Called κ φ), o.2 = cs.map .call

section ReadsOn

variable (r : RequestHandler κ φ)

theorem readsOn_read : ReadsOn (r, [.read]) := Or.inl rfl

theorem readsOn_fullfill : ReadsOn r.fullfill := Or.inr ⟨_, rfl⟩

/-- A successful read of the body reads on. -/
theorem readsOn_bodyReadHandler (amount : Bytes) : ReadsOn (r.bodyReadHandler none amount) := by
  rw [bodyReadHandler]
  dsimp only
  split_ifs
  · exact readsOn_fullfill _
  · exact readsOn_fullfill _
  · exact readsOn_read _

/-- So does the start of a body with a length. -/
theorem readsOn_bodyReadOn (contentLength max : Nat) :
    ReadsOn (r.bodyReadOn contentLength max) := by
  dsimp only [bodyReadOn]
  split_ifs
  · exact readsOn_fullfill _
  · exact readsOn_read _
  · exact readsOn_read _
  · exact readsOn_fullfill _
  · exact readsOn_read _
  · exact readsOn_fullfill _

theorem readsOn_bodyReadStart (h : r.getContentLength.isSome) (max : Nat) :
    ReadsOn (r.bodyReadStart max) := by
  obtain ⟨contentLength, hlength⟩ := Option.isSome_iff_exists.mp h
  rw [bodyReadStart, hlength]
  exact r.readsOn_bodyReadOn contentLength max

/-- A body without a length is answered with 411. -/
theorem bodyReadStart_of_none (h : r.getContentLength = none) (max : Nat) :
    r.bodyReadStart max =
      ((r.raise .invalidArgument).1, (r.raise .invalidArgument).2 ++ [.sendStatus 411]) := by
  rw [bodyReadStart, h]

end ReadsOn

end RequestHandler

end Attender.Http
