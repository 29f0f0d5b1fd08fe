import Attender.Http.ChunkedResponse
import Attender.Http.RequestHandler
import Attender.Http.ResponseHandler

/-!
# Connections

One connection of a server from the moment it has been accepted: the handshake
of TLS, the reads with their timer, the writes of its response, and its removal
from `connection_manager`. The operations complete in any order and with any
result. What a handler finds after the connection has been freed is taken to be
what was there before.
-/

namespace Attender.Http

open Attender.Library Attender.Utility

/-- The function behind `read_callback_inst_`. -/
inductive ReadCallback where
  /-- `request_handler::header_read_handler`. -/
  | header
  /-- `request_handler::body_read_handler`. -/
  | body
  deriving DecidableEq

/-- A write of the connection, by what its completion does. The writes of chunks are kept with the
producer. -/
inductive PendingWrite where
  /-- The header, and then the continuation given to `send_header`. -/
  | header (continuation : HeaderContinuation)
  /-- The body of `send`. -/
  | body
  /-- A piece of a stream, whether it has filled the buffer, and what is left of the stream. -/
  | stream (filled : Bool) (rest : Bytes)
  deriving DecidableEq

/-- An operation that starts a response. -/
abbrev Conclusion := { op : ResponseOp // op.concludes }

/-- What the server does with a request once its header has been read. -/
inductive Dispatch where
  /-- A handler runs that answers, or leaves the response to later code: one of the user, or that of
  a mount for an upload. -/
  | handler
  /-- The server answers: there is no route, the session is refused, the header cannot be built, or
  the handler of a mount does. -/
  | answer (op : Conclusion)
  /-- The handler of a mount for `HEAD` finds the file, and returns. -/
  | unanswered

/-- `http_connection_base` with its handlers, and its place in `connection_manager`. -/
structure Connection where
  /-- `async_handshake` has not completed. -/
  handshaking : Bool := false
  /-- The reads that have not completed. -/
  reads : Nat := 0
  readCallback : ReadCallback := .header
  /-- The waits of `read_timeout_timer_` that have not completed. -/
  waits : Nat := 0
  /-- The writes that have not completed, less those of chunks. -/
  writes : List PendingWrite := []
  request : RequestHandler Unit Unit := {}
  response : ResponseHandler := {}
  /-- The producer of `send_chunked`. -/
  chunked : Chunked := {}
  closed : Bool := false
  /-- User code has still to start the response. -/
  owed : Bool := false
  /-- It is one of `connections_`. -/
  registered : Bool := true
  /-- How often `connection_manager::remove` has been called for it. -/
  removals : Nat := 0

namespace Connection

/-! ### The connection -/

/-- `http_connection_base::stop`. -/
def stop (c : Connection) : Connection := { c with closed := true }

/-- `http_connection_base::read`. -/
def read (c : Connection) : Connection := { c with reads := c.reads + 1, waits := c.waits + 1 }

/-- `connection_manager::remove`; it throws if the connection was already freed. -/
def remove (c : Connection) : Connection :=
  let c := { c with removals := c.removals + 1 }
  if c.registered then { c with registered := false }.stop else c

/-- `http_connection_base::check_deadline`, and whether the deadline has passed. -/
def checkDeadline (c : Connection) (ec : Option ErrorCode) (passed : Bool) : Connection :=
  if ec = some .operationAborted then c
  else if c.closed then c
  else if ec.isSome then c.stop
  else if passed then c.stop
  else { c with waits := c.waits + 1 }

/-! ### The response -/

/-- The connection does what the response handler asks for, and runs its continuations with
`continue_`. -/
def perform (continue_ : Connection → HeaderContinuation → Connection) (c : Connection)
    (outcome : ResponseHandler.Outcome) : Connection :=
  outcome.2.foldl
    (fun c effect =>
      match effect with
      | .write _ continuation => { c with writes := c.writes ++ [.header continuation] }
      | .run continuation => continue_ c continuation)
    { c with response := outcome.1 }

/-- `res->end()`, which has no other continuation than the removal. -/
def endResponse (c : Connection) : Connection := c.perform (fun c _ => c.remove) c.response.end_

/-- `http_connection_base::write` of a stream. -/
def writeStream (cfg : Config) (c : Connection) (stream : Bytes) : Connection :=
  let piece := stream.take cfg.bufferSize
  if piece ≠ [] then
    { c with
      writes := c.writes ++
        [.stream (piece.length = cfg.bufferSize) (stream.drop cfg.bufferSize)] }
  else c.endResponse

/-- `http_connection_base::write` of a body. -/
def writeBody (cfg : Config) (c : Connection) : Body → Connection
  | .string _ => { c with writes := c.writes ++ [.body] }
  | .vector _ => { c with writes := c.writes ++ [.body] }
  | .stream stream => c.writeStream cfg stream

/-- `set_on_produce_cb` and `set_finish_callback` of the producer. -/
def attach (c : Connection) : Connection :=
  { c with chunked := (c.chunked.step .attach).getD c.chunked }

/-- The continuations of `send_header`. -/
def continueWith (cfg : Config) (ec : Option ErrorCode) (c : Connection) :
    HeaderContinuation → Connection
  | .remove => c.remove
  | .body body => if ec.isSome then c.endResponse else c.writeBody cfg body
  | .chunked => if ec.isSome then c.endResponse else c.attach

/-- The response handler is used. -/
def respond (cfg : Config) (c : Connection) (op : ResponseOp) : Connection :=
  c.perform (continueWith cfg none) (c.response.apply op)

/-- A write completes. -/
def onWritten (cfg : Config) (c : Connection) (ec : Option ErrorCode) : PendingWrite → Connection
  | .header continuation => c.continueWith cfg ec continuation
  | .body => c.endResponse
  | .stream filled rest => if ec.isNone ∧ filled then c.writeStream cfg rest else c.endResponse

/-- A step of the producer, or the completion of one of its chunks; the last of them ends the
response. -/
def produce (c : Connection) (chunked : Chunked) : Connection :=
  if c.chunked.ended < chunked.ended then { c with chunked := chunked }.endResponse
  else { c with chunked := chunked }

/-! ### The request -/

/-- `request_handler::initiate_header_read`. -/
def initiateHeaderRead (c : Connection) : Connection := { c with readCallback := .header }.read

/-- `http_basic_server::header_read_handler` after an error. -/
def headerReadError (cfg : Config) (c : Connection) (ec : ErrorCode) : Connection :=
  if ec.value = 2 then c.remove
  else if ec = .operationAborted then c.remove
  else if ec.value = ErrorCode.protocolError.value then c.respond cfg (.sendStatus 400)
  else c.remove

/-- `http_basic_server::header_read_handler` after the header. -/
def dispatch (cfg : Config) (c : Connection) : Dispatch → Connection
  | .handler => { c with owed := true }
  | .answer op => c.respond cfg op
  | .unanswered => c

/-- `request_handler::header_read_handler`. Without a dispatch `feed` threw `std::bad_alloc`. -/
def headerReadHandler (cfg : Config) (c : Connection) (ec : Option ErrorCode) (amount : Bytes)
    (d : Option Dispatch) : Connection :=
  match ec, d with
  | some ec, _ => c.headerReadError cfg ec
  | none, none => c.headerReadError cfg .notEnoughMemory
  | none, some d =>
    match feed cfg c.request.parser amount with
    | .waiting parser => { c with request := { c.request with parser := parser } }.read
    | .rejected _ => c.headerReadError cfg .protocolError
    | .done parser =>
      let request := { c.request with parser := parser, header := parser.header.toRequestHeader }
      { c with request := request }.dispatch cfg d

/-- The connection does what the request handler asks for. The functions of the callback wrapper are
user code. -/
def performEffect (cfg : Config) (c : Connection) : RequestEffect Unit Unit → Connection
  | .read => c.read
  | .call _ => c
  | .sendStatus code => c.respond cfg (.sendStatus code)
  | .endResponse => c.endResponse

/-- All that the request handler asks for. -/
def performRead (cfg : Config) (c : Connection) (outcome : RequestHandler.Outcome Unit Unit) :
    Connection :=
  outcome.2.foldl (performEffect cfg) { c with request := outcome.1 }

/-- `request_handler::read_body`. If it fails, the response is no longer for user code to start. -/
def readBody (cfg : Config) (c : Connection) (max : Nat) : Connection :=
  { c with readCallback := .body, owed := c.owed && c.request.getContentLength.isSome }.performRead
    cfg (c.request.readBody max)

/-- `request_handler::body_read_handler`, likewise. -/
def bodyReadHandler (cfg : Config) (c : Connection) (ec : Option ErrorCode) (amount : Bytes) :
    Connection :=
  { c with owed := c.owed && ec.isNone }.performRead cfg (c.request.bodyReadHandler ec amount)

/-- A read completes. -/
def onRead (cfg : Config) (c : Connection) (ec : Option ErrorCode) (amount : Bytes)
    (d : Option Dispatch) : Connection :=
  match c.readCallback with
  | .header => c.headerReadHandler cfg ec amount d
  | .body => c.bodyReadHandler cfg ec amount

/-- A connection that has been accepted, over TLS or plain. -/
def accept (secure : Bool) : Connection :=
  if secure then { handshaking := true } else initiateHeaderRead {}

end Connection

/-- What happens to a connection. -/
inductive ConnectionOp where
  /-- The handshake completes. -/
  | handshake (ec : Option ErrorCode)
  /-- A read completes, with its bytes and what the server does with a header they complete. -/
  | read (ec : Option ErrorCode) (amount : Bytes) (d : Option Dispatch)
  /-- A wait of the timer completes, and whether the deadline has passed. -/
  | waited (ec : Option ErrorCode) (passed : Bool)
  /-- User code uses the response handler. -/
  | respond (op : ResponseOp)
  /-- User code reads the body. -/
  | readBody (max : Nat)
  /-- One of the writes completes. -/
  | written (i : Nat) (ec : Option ErrorCode)
  /-- A step of the producer, or the completion of one of its chunks. -/
  | chunked (op : ChunkedOp)
  /-- A call of the compression fails, after it has emitted some bytes. -/
  | compressionFails (data : Bytes)

/-- One step of a connection. User code acts as long as it owes the response, and reads at most one
body. A producer that is still attached when the connection is freed is not followed any further. -/
def Connection.step (cfg : Config) (kind : ProducerKind) (c : Connection) :
    ConnectionOp → Option Connection
  | .handshake ec =>
    if c.handshaking then
      let c := { c with handshaking := false }
      match ec with
      | none => some c.initiateHeaderRead
      | some _ => some c -- `on_error_` alone
    else none
  | .read ec amount d =>
    if 0 < c.reads then some ({ c with reads := c.reads - 1 }.onRead cfg ec amount d) else none
  | .waited ec passed =>
    if 0 < c.waits then some ({ c with waits := c.waits - 1 }.checkDeadline ec passed) else none
  | .respond op => if c.owed then some ({ c with owed := !op.concludes }.respond cfg op) else none
  | .readBody max => if c.owed ∧ c.readCallback = .header then some (c.readBody cfg max) else none
  | .written i ec =>
    match c.writes[i]? with
    | none => none
    | some write => some ({ c with writes := c.writes.eraseIdx i }.onWritten cfg ec write)
  | .chunked op =>
    if op = .attach ∨ (¬ c.registered ∧ c.chunked.hasConsumerAttached) then none
    else (c.chunked.stepOf kind op).map c.produce
  | .compressionFails data =>
    if kind = .streaming ∨ (¬ c.registered ∧ c.chunked.hasConsumerAttached) then none
    else some { c with chunked := c.chunked.productionFailure data }

end Attender.Http
