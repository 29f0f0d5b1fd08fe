import Attender.Http.OneResponse
import Attender.Http.ThrowingHandler

/-!
# The handlers of a mount

What a handler of a mount does once its route has been found: it asks the
callback, uses the file system, and answers; the handlers of `PUT` and `POST`
answer when the body has been read. All of them start one response but for two
cases: `HEAD` of a file that is there, and a body that ends before what the
parser has read behind the header (`mount_answers_iff`).
-/

namespace Attender.Http

open Attender.Library Attender.Session Attender.Utility

/-! ### The file system -/

/-- The file system as a handler finds it, with places in `ν`. -/
structure FileSystem (ν : Type) where
  /-- Where a path leads. -/
  place : Bytes → ν
  /-- What the files hold. -/
  contents : ν → Option Bytes
  /-- What `tellg` says at the end of a `std::ifstream` of the path, if that is good. -/
  endOf : Bytes → Option Int
  /-- A `std::ofstream` of the path is good. -/
  openable : Bytes → Bool
  /-- What `boost::filesystem::remove_all` leaves of the files, and what it throws. -/
  removeAll : Bytes → (ν → Option Bytes) × Option Thrown

namespace FileSystem

variable {ν : Type} [DecidableEq ν]

/-- The file system with another file at the path. -/
def put (files : FileSystem ν) (path data : Bytes) : FileSystem ν :=
  { files with contents := Function.update files.contents (files.place path) (some data) }

theorem contents_put (files : FileSystem ν) (path data : Bytes) :
    (files.put path data).contents =
      Function.update files.contents (files.place path) (some data) := rfl

/-- What was there before does not matter. -/
@[simp] theorem put_put (files : FileSystem ν) (path data data' : Bytes) :
    (files.put path data).put path data' = files.put path data' := by
  simp [put]

end FileSystem

namespace ResponseHandler

/-- `response_handler::send` of a `std::istream`, whose `tellg` says `size` at its end. -/
def sendStream (r : ResponseHandler) (size : Int) (body : Bytes) : Outcome :=
  let r := (r.trySet (bytes "Content-Length") (toDecimal size)).trySet (bytes "Content-Type")
    (bytes "application/octet-stream")
  let r :=
    if r.header.code = 204 ∧ 0 < size then r.status 200
    else if r.header.code = 200 ∧ size = 0 then r.status 204
    else r
  r.sendHeader (.body (.stream body))

/-- With the size of what it holds it is sent as any other body. -/
theorem sendStream_length (r : ResponseHandler) (body : Bytes) :
    r.sendStream body.length body = r.send (.stream body) := by
  have hpos : (0 : Int) < body.length ↔ body.length ≠ 0 := by omega
  simp only [sendStream, send, Body.content, Body.contentType, hpos, Int.natCast_eq_zero]
  rfl

/-- `response_handler::send_file` of a file that is there. `type` has found the type `mime` for its
extension, or none. -/
def sendFile (r : ResponseHandler) (mime : Bytes) (size : Int) (body : Bytes) : Outcome :=
  (if mime ≠ [] then r.set (bytes "Content-Type") mime else r).sendStream size body

end ResponseHandler

/-! ### The handlers -/

/-- `request_router::mount`, with what it has been given. -/
structure Mount (σ : Type) where
  rootPath : Bytes
  pathTemplate : Bytes
  callback : Bytes → Call σ → UserRun σ Bool
  supportedMethods : List MountOption

/-- The continuations of the reads of a body. -/
inductive Upload where
  | put
  | post
  deriving DecidableEq

/-- What a continuation does. -/
def Upload.answer (r : ResponseHandler) : Upload → ResponseHandler.Outcome
  | .put => (r.status 204).end_
  | .post => r.sendStatus 204

/-- Both end the response. -/
theorem Upload.answer_eq (r : ResponseHandler) (k : Upload) : k.answer r = (r.status 204).end_ := by
  cases k with
  | put => rfl
  | post => rfl

/-- A request that a handler of a mount works on. -/
structure MountRun (σ ν : Type) where
  call : Call σ
  handler : RequestHandler Upload Unit
  files : FileSystem ν
  /-- The path that the `writer` has been opened with. -/
  writer : Option Bytes := none
  /-- A read of the connection is outstanding. -/
  reading : Bool := false

namespace MountRun

variable {ι σ ν : Type} [DecidableEq ν]

/-- The response handler is used. -/
def respond (s : MountRun σ ν) (outcome : ResponseHandler.Outcome) : MountRun σ ν :=
  { s with call := s.call.respond outcome }

/-- `res->send_status(code)`. -/
def sendStatus (s : MountRun σ ν) (code : Int) : MountRun σ ν :=
  s.respond (s.call.response.sendStatus code)

/-- What the request handler does outside of itself is done. The error handler does nothing. -/
def react (s : MountRun σ ν) : RequestEffect Upload Unit → MountRun σ ν
  | .read => { s with reading := true }
  | .call (.continuation k) => s.respond (k.answer s.call.response)
  | .call (.errorHandler _ _) => s
  | .sendStatus code => s.sendStatus code
  | .endResponse => s.respond s.call.response.end_

/-- The request handler is used. What its sink has been given is in the file, once the `writer` is
closed. -/
def perform (s : MountRun σ ν) (outcome : RequestHandler.Outcome Upload Unit) : MountRun σ ν :=
  let files := match s.writer with
    | some path => s.files.put path outcome.1.sink.data
    | none => s.files
  outcome.2.foldl react { s with handler := outcome.1, files := files }

/-- `then` of what `read_body` returns. -/
def setThen (s : MountRun σ ν) (k : Upload) : MountRun σ ν :=
  let w := s.handler.onFinishedRead.setThen k
  s.perform ({ s.handler with onFinishedRead := w.1 }, w.2.map .call)

/-- `except` of what `then` returns. -/
def setExcept (s : MountRun σ ν) : MountRun σ ν :=
  let w := s.handler.onFinishedRead.setExcept ()
  s.perform ({ s.handler with onFinishedRead := w.1 }, w.2.map .call)

/-- The handlers of `PUT` and `POST` with a valid path. -/
def upload (s : MountRun σ ν) (k : Upload) (path : Bytes) : MountRun σ ν :=
  if ¬ s.files.openable path then
    s.respond ((s.call.response.status 400).send (.string (path ++ bytes " not openable")))
  else
    -- the `std::ofstream` truncates the file, or creates it
    let s := { s with
      writer := some path
      files := s.files.put path []
      handler := { s.handler with header := s.call.request } }
    ((s.perform (s.handler.readBody 0)).setThen k).setExcept

/-- What a handler does in the file system, and what is thrown. -/
def access (mime : Bytes → Bytes) (option : MountOption) (s : MountRun σ ν) :
    FileAccess → MountRun σ ν × Option Thrown
  | .sendFile path =>
    match s.files.endOf path with
    | none => (s.sendStatus 404, none)
    | some size =>
      let body := (s.files.contents (s.files.place path)).getD []
      (s.respond (s.call.response.sendFile (mime path) size body), none)
  | .write path => (s.upload (if option = .PUT then .put else .post) path, none)
  | .removeAll path =>
    let s' := { s with files := { s.files with contents := (s.files.removeAll path).1 } }
    match (s.files.removeAll path).2 with
    | some e => (s', some e)
    | none => (s'.sendStatus 204, none)
  | .read path => (if s.files.endOf path = none then s.sendStatus 404 else s, none)

/-- The loop of `OPTIONS` over the methods. -/
def allowedMethods (methods : List MountOption) : Bytes :=
  (bytes ", ").intercalate (methods.map mountOptionToString)

/-- The handler of a mount once the callback has returned. -/
def proceed (mount : Mount σ) (mime : Bytes → Bytes) (option : MountOption) (s : MountRun σ ν)
    (accepted : Bool) : MountRun σ ν × Option Thrown :=
  match mountHandler mount.rootPath mount.pathTemplate mount.supportedMethods (fun _ => accepted)
    option s.call.request.path with
  | .refused => (if ¬ s.call.response.hasConcluded then s.sendStatus 403 else s, none)
  | .forbidden => (s.sendStatus 403, none)
  | .access a => s.access mime option a
  | .allow methods =>
    let response := s.call.response.set (bytes "Allow") (allowedMethods methods)
    (s.respond (response.sendStatus 200), none)

/-- What the dispatcher does with an exception. -/
def answerThrown (server : HttpBasicServer ι σ) : MountRun σ ν × Option Thrown → MountRun σ ν
  | (s, none) => s
  | (s, some e) => s.respond (s.call.response.answerThrown server.exposeException e)

/-- The callback of a mount, for a request. -/
def asked (mount : Mount σ) (call : Call σ) : UserRun σ Bool :=
  mount.callback (mountedPath mount.rootPath mount.pathTemplate call.request.path) call

/-- The handler that `request_router::mount` adds for a method, as the dispatcher runs it. -/
def handle (server : HttpBasicServer ι σ) (mount : Mount σ) (mime : Bytes → Bytes)
    (option : MountOption) (s : MountRun σ ν) : MountRun σ ν :=
  answerThrown server <|
    match s.call.run server.storage (asked mount s.call) with
    | (call, .error e) => ({ s with call := call }, some e)
    | (call, .ok accepted) => { s with call := call }.proceed mount mime option accepted

/-- A read of the connection completes. -/
def deliver (s : MountRun σ ν) (c : Option ErrorCode × Bytes) : MountRun σ ν :=
  if s.reading then { s with reading := false }.perform (s.handler.bodyReadHandler c.1 c.2) else s

/-- The reads of the connection complete, and none of them fails. -/
def deliverAll (s : MountRun σ ν) (cs : List Bytes) : MountRun σ ν :=
  (cs.map fun amount => (none, amount)).foldl deliver s

/-- How many responses have been started. -/
def started (s : MountRun σ ν) : Nat := s.call.effects.length

/-- A request whose route has been found, with what the parser has left. -/
def routed (call : Call σ) (parser : RequestParser) (files : FileSystem ν) : MountRun σ ν where
  call := call
  handler := { parser := parser }
  files := files

end MountRun

/-! ### One response -/

/-- A response that has been started is seen. -/
theorem ResponseHandler.hasConcluded_apply (r : ResponseHandler) (op : ResponseOp) :
    (r.apply op).1.hasConcluded = (r.hasConcluded || op.concludes) := by
  by_cases hop : op.concludes
  · obtain ⟨r', k, -, e⟩ := r.apply_of_concludes hop
    have hsent : (r'.sendHeader k).1.headerSent = true := by
      by_cases hsent : r'.headerSent = true
      · obtain ⟨r'', e, h⟩ := sendHeader_of_sent hsent k
        rw [e, h]
      · obtain ⟨r'', header, e, h⟩ := sendHeader_of_open (Bool.not_eq_true _ ▸ hsent) k
        rw [e, h]
    rw [e, hop, hasConcluded, hsent, Bool.or_true, Bool.or_true]
  · cases op with
    | status code => exact (Bool.or_false _).symm
    | set field value => exact (Bool.or_false _).symm
    | append field value => exact (Bool.or_false _).symm
    | setCookie cookie => exact (Bool.or_false _).symm
    | observeConclusion =>
      rw [apply, observeConclusion, hasConcluded, hasConcluded]
      cases hobserver : r.observer with
      | none => simp [ConclusionObserver.hasConcluded, ResponseOp.concludes]
      | some o => exact (Bool.or_false _).symm
    | send body => exact absurd rfl hop
    | sendStatus code => exact absurd rfl hop
    | sendChunked encoding => exact absurd rfl hop
    | end_ => exact absurd rfl hop

/-- **A run of user code**: the responses it starts are seen, and the target and the fields of the
request stay as they are. -/
theorem Call.run_kept {σ ρ : Type} (p : StorageParams σ) (call : Call σ) (code : UserRun σ ρ) :
    (call.run p code).1.response.hasConcluded =
        (call.response.hasConcluded || code.ops.any UserOp.concludes) ∧
      (call.run p code).1.request.path = call.request.path ∧
      (call.run p code).1.request.fields = call.request.fields := by
  rw [run]
  induction code.ops generalizing call with
  | nil => exact ⟨(Bool.or_false _).symm, rfl, rfl⟩
  | cons op ops ih =>
    obtain ⟨hconcluded, hpath, hfields⟩ := ih (call.apply p op)
    rw [List.foldl_cons, hconcluded, hpath, hfields, List.any_cons]
    cases op with
    | response op =>
      refine ⟨?_, rfl, rfl⟩
      rw [apply, respond, ResponseHandler.hasConcluded_apply, UserOp.concludes, Bool.or_assoc]
    | patchCookie key value => exact ⟨rfl, rfl, rfl⟩
    | session op => exact ⟨rfl, rfl, rfl⟩

/-! ### The upload -/

/-- The `Content-Length` of a header, as `get_content_length` reads it. -/
def contentLength (header : RequestHeader) : Option Nat :=
  (header.getField (bytes "Content-Length")).map fun value => toSize (atoll value)

/-- A body of this length is there with what the parser has left. -/
def ThereAtOnce (n : Nat) (leftover : Bytes) : Prop :=
  if leftover = [] then toInt64 n ≤ 0 else n = leftover.length

instance (n : Nat) (leftover : Bytes) : Decidable (ThereAtOnce n leftover) :=
  inferInstanceAs (Decidable (if leftover = [] then _ else _))

theorem leftAll_iff {n : Nat} {leftover : Bytes} (hn : n < 2 ^ 64)
    (hsmall : leftover.length < 2 ^ 63) :
    RequestHandler.LeftAll n leftover ↔ ThereAtOnce n leftover := by
  rw [RequestHandler.LeftAll, ThereAtOnce]
  split_ifs
  · rw [RequestHandler.remaining, show toInt64 0 = 0 from rfl]
    omega
  · rw [sub64]
    omega

theorem contentLength_lt {header : RequestHeader} {n : Nat} (h : contentLength header = some n) :
    n < 2 ^ 64 := by
  obtain ⟨value, -, rfl⟩ := Option.map_eq_some_iff.mp h
  rw [toSize]
  omega

namespace MountRun

section Upload

variable {σ ν : Type} [DecidableEq ν] {call : Call σ} {files : FileSystem ν} {k : Upload}
  {path received : Bytes} {n : Nat} {s : MountRun σ ν}

/-- A request that waits for more of its body. -/
structure Uploading (call : Call σ) (files : FileSystem ν) (k : Upload) (path received : Bytes)
    (s : MountRun σ ν) : Prop where
  header : s.handler.header = call.request
  maxRead : s.handler.maxRead = 0
  sink : s.handler.sink = ⟨received.length, received⟩
  callback : s.handler.onFinishedRead = { func := some k, fail := some () }
  writer : s.writer = some path
  reading : s.reading
  files : s.files = files.put path received
  call : s.call = call

/-- A request that reads no more of its body. -/
structure Uploaded (call : Call σ) (files : FileSystem ν) (path received : Bytes)
    (s : MountRun σ ν) : Prop where
  call : s.call = call
  reading : ¬ s.reading
  files : s.files = files.put path received

/-- The file has been opened. -/
def opened (call : Call σ) (parser : RequestParser) (files : FileSystem ν) (path : Bytes) :
    MountRun σ ν where
  call := call
  handler := { parser := parser, header := call.request }
  files := files.put path []
  writer := some path

theorem upload_eq (hopen : files.openable path) (parser : RequestParser) (k : Upload) :
    (routed call parser files).upload k path =
      (((opened call parser files path).perform
        ((opened call parser files path).handler.readBody 0)).setThen k).setExcept :=
  if_neg (not_not.mpr hopen)

theorem upload_eq_of_not_openable (hopen : ¬ files.openable path) (parser : RequestParser)
    (k : Upload) :
    (routed call parser files).upload k path = (routed call parser files).respond
      ((call.response.status 400).send (.string (path ++ bytes " not openable"))) :=
  if_pos hopen

/-- Without a length it is answered with 411, when the file is empty already. -/
theorem upload_of_none (hopen : files.openable path) (h : contentLength call.request = none)
    (parser : RequestParser) :
    Uploaded (call.respond (call.response.sendStatus 411)) files path []
      ((routed call parser files).upload k path) := by
  rw [upload_eq hopen, RequestHandler.readBody, RequestHandler.bodyReadStart_of_none]
  swap
  · exact h
  refine ⟨?_, ?_, ?_⟩ <;>
    simp [opened, perform, setThen, setExcept, RequestHandler.raise, CallbackWrapper.raise,
      CallbackWrapper.setThen, CallbackWrapper.setExcept, react, respond, sendStatus]

/-- A completion, before the continuation is set. -/
theorem uploaded_of_fullfill {r : RequestHandler Upload Unit} (hcallback : r.onFinishedRead = {})
    (hsink : r.sink.data = received) (parser : RequestParser) :
    Uploaded (call.respond (k.answer call.response)) files path received
      ((((opened call parser files path).perform r.fullfill).setThen k).setExcept) := by
  refine ⟨?_, ?_, ?_⟩ <;>
    simp [opened, perform, setThen, setExcept, RequestHandler.fullfill, CallbackWrapper.fullfill,
      CallbackWrapper.setThen, CallbackWrapper.setExcept, react, respond, hcallback, hsink]

/-- A read of the connection, before the functions are set. -/
theorem uploading_of_read {r : RequestHandler Upload Unit} (hheader : r.header = call.request)
    (hmax : r.maxRead = 0) (hsink : r.sink = ⟨received.length, received⟩)
    (hcallback : r.onFinishedRead = {}) (parser : RequestParser) :
    Uploading call files k path received
      ((((opened call parser files path).perform (r, [.read])).setThen k).setExcept) := by
  refine ⟨?_, ?_, ?_, ?_, ?_, ?_, ?_, ?_⟩ <;>
    simp [opened, perform, setThen, setExcept, CallbackWrapper.setThen, CallbackWrapper.setExcept,
      react, hheader, hmax, hsink, hcallback]

/-- **The start of an upload** with a length. -/
theorem upload_of_some (hopen : files.openable path) (h : contentLength call.request = some n)
    {parser : RequestParser} (hsmall : parser.headerBuffer.length < 2 ^ 63) :
    if ThereAtOnce n parser.headerBuffer then
      Uploaded (call.respond (k.answer call.response)) files path parser.headerBuffer
        ((routed call parser files).upload k path)
    else Uploading call files k path parser.headerBuffer
      ((routed call parser files).upload k path) := by
  obtain ⟨r, hheader, hmax, hsink, hcallback, e⟩ : ∃ r : RequestHandler Upload Unit,
      r.header = call.request ∧ r.maxRead = 0 ∧
        r.sink = ⟨parser.headerBuffer.length, parser.headerBuffer⟩ ∧ r.onFinishedRead = {} ∧
        (opened call parser files path).handler.readBody 0 =
          if RequestHandler.LeftAll n parser.headerBuffer then r.fullfill else (r, [.read]) :=
    RequestHandler.readBody_of_below (r := (opened call parser files path).handler) h 0 (Or.inl rfl)
  rw [upload_eq hopen, e]
  by_cases hthere : ThereAtOnce n parser.headerBuffer
  · rw [if_pos hthere, if_pos ((leftAll_iff (contentLength_lt h) hsmall).mpr hthere)]
    exact uploaded_of_fullfill hcallback (congrArg HttpReadSink.data hsink) parser
  · have hmore : ¬ RequestHandler.LeftAll n parser.headerBuffer := by
      rwa [leftAll_iff (contentLength_lt h) hsmall]
    rw [if_neg hthere, if_neg hmore]
    exact uploading_of_read hheader hmax hsink hcallback parser

/-- **A read of the connection** that brings bytes. -/
theorem Uploading.deliver (h : Uploading call files k path received s)
    (hlength : contentLength call.request = some n) {amount : Bytes}
    (hsmall : (received ++ amount).length < 2 ^ 63) :
    if toInt64 n ≤ (received ++ amount).length then
      Uploaded (call.respond (k.answer call.response)) files path (received ++ amount)
        (s.deliver (none, amount))
    else Uploading call files k path (received ++ amount) (s.deliver (none, amount)) := by
  have hsame : s.handler.getContentLength = some n := by
    rw [← hlength, ← h.header]
    rfl
  obtain ⟨r, hheader, hmax, hsink, hcallback, hread⟩ :=
    RequestHandler.bodyReadHandler_of_below hsame h.sink
      (fun hlimit => absurd h.maxRead hlimit) amount
  have hrem : RequestHandler.remaining n r.sink = 0 ↔ toInt64 n ≤ (received ++ amount).length := by
    rw [RequestHandler.remaining, hsink, toInt64_of_lt hsmall]
    omega
  rw [h.callback] at hcallback
  rw [MountRun.deliver, if_pos h.reading, hread, if_congr hrem rfl rfl]
  split_ifs with hthere
  · refine ⟨?_, ?_, ?_⟩ <;>
      simp [perform, RequestHandler.fullfill, CallbackWrapper.fullfill, react, respond, hcallback,
        h.call, h.files, h.writer, hsink]
  · refine ⟨hheader.trans h.header, hmax.trans h.maxRead, hsink, hcallback, h.writer, rfl, ?_,
      h.call⟩
    simp [perform, react, h.files, h.writer, hsink]

/-- A read that fails. -/
theorem Uploading.fail (h : Uploading call files k path received s) (ec : ErrorCode)
    (amount : Bytes) :
    Uploaded (if ec ≠ .operationAborted then call.respond call.response.end_ else call) files path
      received (s.deliver (some ec, amount)) := by
  rw [MountRun.deliver, if_pos h.reading, RequestHandler.bodyReadHandler]
  split_ifs <;> refine ⟨?_, ?_, ?_⟩ <;>
    simp [perform, RequestHandler.raise, CallbackWrapper.raise, react, respond, h.callback, h.call,
      h.files, h.writer, h.sink]

/-- No more is read then. -/
theorem foldl_deliver (h : ¬ s.reading) (reads : List (Option ErrorCode × Bytes)) :
    reads.foldl deliver s = s := by
  induction reads with
  | nil => rfl
  | cons c reads ih => rw [List.foldl_cons, MountRun.deliver, if_neg h, ih]

theorem deliverAll_of_not_reading (h : ¬ s.reading) (cs : List Bytes) : s.deliverAll cs = s :=
  foldl_deliver h _

/-- **The reads of the connection**: the body is answered with the read that completes it. -/
theorem Uploading.deliverAll (h : Uploading call files k path received s)
    (hlength : contentLength call.request = some n) (cs : List Bytes)
    (hall : toInt64 n ≤ (received ++ cs.flatten).length)
    (hsmall : (received ++ cs.flatten).length < 2 ^ 63)
    (hmore : received.length < toInt64 n ∨ cs ≠ []) :
    (s.deliverAll cs).call = call.respond (k.answer call.response) := by
  induction cs generalizing s received with
  | nil =>
    rw [List.flatten_nil, List.append_nil] at hall
    rcases hmore with hmore | hmore
    · omega
    · exact absurd rfl hmore
  | cons c cs ih =>
    rw [List.flatten_cons, ← List.append_assoc] at hall hsmall
    have hc : (received ++ c).length < 2 ^ 63 := by
      rw [List.length_append] at hsmall
      omega
    have hread := h.deliver hlength hc
    rw [show s.deliverAll (c :: cs) = (s.deliver (none, c)).deliverAll cs from rfl]
    split_ifs at hread with hthere
    · rw [deliverAll_of_not_reading hread.reading, hread.call]
    · exact ih hread hall hsmall (Or.inl (by omega))

end Upload

end MountRun

/-! ### The answers -/

namespace ResponseHandler

variable (r : ResponseHandler)

theorem length_end : r.end_.2.length = 1 := length_apply r .end_

theorem length_send (body : Body) : (r.send body).2.length = 1 := length_apply r (.send body)

theorem length_sendStatus (code : Int) : (r.sendStatus code).2.length = 1 :=
  length_apply r (.sendStatus code)

theorem length_sendHeader (k : HeaderContinuation) : (r.sendHeader k).2.length = 1 := by
  rw [sendHeader]
  split_ifs
  · rfl
  · rfl

theorem length_answerThrown (exposeException : Bool) (e : Thrown) :
    (r.answerThrown exposeException e).2.length = 1 := by
  obtain ⟨r', k, -, -, h⟩ := r.answerThrown_eq exposeException e
  rw [h, length_sendHeader]

end ResponseHandler

/-- What a request is answered with that no response has been started for. -/
structure Fresh {σ : Type} (call : Call σ) : Prop where
  effects : call.effects = []
  unanswered : call.response.hasConcluded = false

/-- A callback that starts no response if it accepts the request, and at most one if it refuses. -/
def Prudent {σ : Type} (user : UserRun σ Bool) : Prop :=
  (user.result = .ok true ∧ user.starts = 0) ∨ (user.result = .ok false ∧ user.starts ≤ 1)

/-- The body of an upload arrives completely, in what the parser has left and the reads `cs`. -/
def Arrives (header : RequestHeader) (leftover : Bytes) (cs : List Bytes) : Prop :=
  ∀ n, contentLength header = some n →
    toInt64 n ≤ (leftover ++ cs.flatten).length ∧ (leftover ++ cs.flatten).length < 2 ^ 63

/-- The parser has left more than the body. -/
def Surplus (header : RequestHeader) (leftover : Bytes) : Prop :=
  leftover ≠ [] ∧ ∃ n, contentLength header = some n ∧ toInt64 n < leftover.length

namespace MountRun

variable {ι σ ν : Type}

theorem length_respond (s : MountRun σ ν) {outcome : ResponseHandler.Outcome}
    (h : outcome.2.length = 1) :
    (s.respond outcome).started = s.started + 1 := by
  rw [started, respond, Call.respond, started, List.length_append, h]

variable [DecidableEq ν]

/-- An upload whose file is openable is answered once, unless no read completes after too much has
been left. -/
theorem upload_answers_of_openable {call : Call σ} {files : FileSystem ν} {path : Bytes}
    (hcall : call.effects.length = 0) (hopen : files.openable path) (k : Upload)
    (parser : RequestParser) (cs : List Bytes)
    (harrives : Arrives call.request parser.headerBuffer cs) :
    (((routed call parser files).upload k path).deliverAll cs).started = 1 ↔
      ¬ (Surplus call.request parser.headerBuffer ∧ cs = []) := by
  have hone : ∀ {outcome : ResponseHandler.Outcome}, outcome.2.length = 1 →
      (call.respond outcome).effects.length = 1 := by
    intro outcome h
    rw [Call.respond, List.length_append, h, hcall]
  have hanswer : (call.respond (k.answer call.response)).effects.length = 1 := by
    rw [k.answer_eq]
    exact hone (ResponseHandler.length_end _)
  cases hlength : contentLength call.request with
  | none =>
    have hupload := upload_of_none (k := k) hopen hlength parser
    rw [deliverAll_of_not_reading hupload.reading, started, hupload.call]
    refine iff_of_true (hone (ResponseHandler.length_sendStatus _ 411)) ?_
    rintro ⟨⟨-, n, hn, -⟩, -⟩
    rw [hlength] at hn
    cases hn
  | some n =>
    obtain ⟨hall, hsmall⟩ := harrives n hlength
    have hleft : parser.headerBuffer.length < 2 ^ 63 := by
      rw [List.length_append] at hsmall
      omega
    have hn := contentLength_lt hlength
    have hupload := upload_of_some (k := k) hopen hlength hleft
    have hsurplus : Surplus call.request parser.headerBuffer ↔
        ¬ ThereAtOnce n parser.headerBuffer ∧ toInt64 n ≤ parser.headerBuffer.length := by
      simp only [Surplus, hlength, Option.some.injEq, exists_eq_left', ThereAtOnce]
      split_ifs with hempty
      · simp [hempty]
      · have heq : toInt64 n = parser.headerBuffer.length ↔ n = parser.headerBuffer.length := by
          rw [toInt64]
          split_ifs <;> omega
        rw [and_iff_right hempty, ← heq]
        omega
    split_ifs at hupload with hthere
    · rw [deliverAll_of_not_reading hupload.reading, started, hupload.call]
      exact iff_of_true hanswer fun h => (hsurplus.mp h.1).1 hthere
    · by_cases hstall : toInt64 n ≤ parser.headerBuffer.length ∧ cs = []
      · have hstill : ((routed call parser files).upload k path).deliverAll cs =
            (routed call parser files).upload k path := by
          rw [hstall.2]
          rfl
        rw [hstill, started, hupload.call, hcall]
        exact iff_of_false Nat.zero_ne_one (not_not.mpr ⟨hsurplus.mpr ⟨hthere, hstall.1⟩, hstall.2⟩)
      · rw [started, hupload.deliverAll hlength cs hall hsmall]
        · exact iff_of_true hanswer fun h => hstall ⟨(hsurplus.mp h.1).2, h.2⟩
        · rw [← not_le]
          exact not_and_or.mp hstall

/-- A response that no read follows. -/
theorem respond_answers {call : Call σ} (hcall : call.effects.length = 0) (parser : RequestParser)
    (files : FileSystem ν) (cs : List Bytes) {outcome : ResponseHandler.Outcome}
    (h : outcome.2.length = 1) :
    (((routed call parser files).respond outcome).deliverAll cs).started = 1 := by
  rw [deliverAll_of_not_reading Bool.false_ne_true, length_respond _ h]
  exact congrArg (· + 1) hcall

/-- **An upload**, whether or not the file is openable. -/
theorem upload_answers_iff {call : Call σ} (hcall : call.effects.length = 0)
    (files : FileSystem ν) (path : Bytes) (k : Upload) (parser : RequestParser) (cs : List Bytes)
    (harrives : Arrives call.request parser.headerBuffer cs) :
    (((routed call parser files).upload k path).deliverAll cs).started = 1 ↔
      ¬ (files.openable path ∧ Surplus call.request parser.headerBuffer ∧ cs = []) := by
  by_cases hopen : files.openable path
  · rw [upload_answers_of_openable hcall hopen k parser cs harrives, and_iff_right hopen]
  · rw [upload_eq_of_not_openable hopen]
    exact iff_of_true (respond_answers hcall parser files cs (ResponseHandler.length_send _ _))
      fun h => hopen h.1

/-- A handler that validates the path, once the callback has accepted the request. -/
theorem proceed_of_validated {mount : Mount σ} {option : MountOption} {s : MountRun σ ν}
    {a : FileAccess}
    (h : mountHandler mount.rootPath mount.pathTemplate mount.supportedMethods (fun _ => true)
      option s.call.request.path = validated s.call.request.path a) (mime : Bytes → Bytes) :
    s.proceed mount mime option true =
      if validatePath s.call.request.path then s.access mime option a
      else (s.sendStatus 403, none) := by
  rw [proceed, h, validated]
  by_cases hvalid : validatePath s.call.request.path
  · rw [if_neg (not_not.mpr hvalid), if_pos hvalid]
  · rw [if_pos hvalid, if_neg hvalid]

/-- The handlers of `PUT` and `POST`. -/
theorem proceed_upload (server : HttpBasicServer ι σ) (mount : Mount σ) (mime : Bytes → Bytes)
    {option : MountOption} (hoption : option = .PUT ∨ option = .POST) (call : Call σ)
    (parser : RequestParser) (files : FileSystem ν) :
    ∃ k, answerThrown server ((routed call parser files).proceed mount mime option true) =
      if validatePath call.request.path then
        (routed call parser files).upload k
          (mountedPath mount.rootPath mount.pathTemplate call.request.path)
      else (routed call parser files).sendStatus 403 := by
  rcases hoption with rfl | rfl
  · refine ⟨.put, ?_⟩
    rw [proceed_of_validated (a := .write _) rfl]
    exact apply_ite (answerThrown server) _ _ _
  · refine ⟨.post, ?_⟩
    rw [proceed_of_validated (a := .write _) rfl]
    exact apply_ite (answerThrown server) _ _ _

/-- **A request that is accepted**, with no response so far. -/
theorem accepted_answers_iff (server : HttpBasicServer ι σ) (mount : Mount σ)
    (mime : Bytes → Bytes) (option : MountOption) {call : Call σ} (parser : RequestParser)
    (files : FileSystem ν) (cs : List Bytes) (hcall : call.effects.length = 0)
    (harrives : option = .PUT ∨ option = .POST → Arrives call.request parser.headerBuffer cs) :
    ((answerThrown server
        ((routed call parser files).proceed mount mime option true)).deliverAll cs).started = 1 ↔
      (validatePath call.request.path →
        let path := mountedPath mount.rootPath mount.pathTemplate call.request.path
        ¬ (option = .HEAD ∧ (files.endOf path).isSome) ∧
          ¬ ((option = .PUT ∨ option = .POST) ∧ files.openable path ∧
            Surplus call.request parser.headerBuffer ∧ cs = [])) := by
  set path := mountedPath mount.rootPath mount.pathTemplate call.request.path with hpath
  have hone := fun files' : FileSystem ν =>
    @respond_answers σ ν _ call hcall parser files' cs
  have hforbidden := hone files (ResponseHandler.length_sendStatus call.response 403)
  by_cases hupload : option = .PUT ∨ option = .POST
  · obtain ⟨k, hproceed⟩ := proceed_upload server mount mime hupload call parser files
    have hhead : option ≠ .HEAD := by
      rintro rfl
      simp at hupload
    rw [hproceed]
    split_ifs with hvalid
    · simpa [hvalid, hupload, hhead] using
        upload_answers_iff hcall files path k parser cs (harrives hupload)
    · exact iff_of_true hforbidden fun h => absurd h hvalid
  cases option with
  | OPTIONS =>
    exact iff_of_true (hone files (ResponseHandler.length_sendStatus _ 200)) fun _ => by simp
  | GET =>
    rw [proceed_of_validated (a := .sendFile path) rfl]
    refine iff_of_true ?_ fun _ => by simp
    split_ifs
    · rw [access]
      cases hend : (routed call parser files).files.endOf path with
      | none => exact hone files (ResponseHandler.length_sendStatus _ 404)
      | some size => exact hone files (ResponseHandler.length_sendHeader _ _)
    · exact hforbidden
  | DELETE =>
    rw [proceed_of_validated (a := .removeAll path) rfl]
    refine iff_of_true ?_ fun _ => by simp
    split_ifs
    · rw [access]
      dsimp only
      cases hthrown : ((routed call parser files).files.removeAll path).2 with
      | none => exact hone _ (ResponseHandler.length_sendStatus _ 204)
      | some e => exact hone _ (ResponseHandler.length_answerThrown _ _ e)
    · exact hforbidden
  | HEAD =>
    rw [proceed_of_validated (a := .read path) rfl]
    split_ifs with hvalid
    · have hvalid' : validatePath call.request.path := hvalid
      cases hend : files.endOf path with
      | none =>
        refine iff_of_true ?_ fun _ => by simp [hend]
        rw [access, show (routed call parser files).files.endOf path = none from hend, if_pos rfl]
        exact hone files (ResponseHandler.length_sendStatus _ 404)
      | some size =>
        refine iff_of_false ?_ fun h => (h hvalid').1 ⟨rfl, by rw [hend]; rfl⟩
        have hsame : access mime .HEAD (routed call parser files) (.read path) =
            (routed call parser files, none) := by
          simp [access, routed, hend]
        rw [hsame, answerThrown, deliverAll_of_not_reading Bool.false_ne_true]
        intro hanswered
        rw [show (routed call parser files).started = 0 from hcall] at hanswered
        cases hanswered
    · exact iff_of_true hforbidden fun h => absurd h hvalid
  | PUT => exact absurd (Or.inl rfl) hupload
  | POST => exact absurd (Or.inr rfl) hupload

/-- **The handlers of a mount answer**: for every method, callback and file system, a request is
answered with one response, unless it is a `HEAD` of a file that can be read, or its body ends
before what the parser has left and no read completes. -/
theorem mount_answers_iff (server : HttpBasicServer ι σ) (mount : Mount σ) (mime : Bytes → Bytes)
    (option : MountOption) (call : Call σ) (parser : RequestParser) (files : FileSystem ν)
    (cs : List Bytes) (hcall : Fresh call) (hcallback : Prudent (asked mount call))
    (harrives : option = .PUT ∨ option = .POST → Arrives call.request parser.headerBuffer cs) :
    (((routed call parser files).handle server mount mime option).deliverAll cs).started = 1 ↔
      ((asked mount call).result = .ok true → validatePath call.request.path →
        let path := mountedPath mount.rootPath mount.pathTemplate call.request.path
        ¬ (option = .HEAD ∧ (files.endOf path).isSome) ∧
          ¬ ((option = .PUT ∨ option = .POST) ∧ files.openable path ∧
            Surplus call.request parser.headerBuffer ∧ cs = [])) := by
  obtain ⟨hconcluded, hpath, hfields⟩ := call.run_kept server.storage (asked mount call)
  have hlength := effects_run (p := server.storage) call (asked mount call)
  rw [hcall.effects, List.length_nil, Nat.zero_add] at hlength
  rw [hcall.unanswered, Bool.false_or] at hconcluded
  set left := (call.run server.storage (asked mount call)).1 with hleft
  have hrun : call.run server.storage (asked mount call) = (left, (asked mount call).result) := rfl
  rcases hcallback with ⟨hresult, hquiet⟩ | ⟨hresult, honce⟩
  · have hhandle : (routed call parser files).handle server mount mime option =
        answerThrown server ((routed left parser files).proceed mount mime option true) := by
      simp only [handle, routed, hrun, hresult]
    have hsame : contentLength left.request = contentLength call.request := by
      rw [contentLength, RequestHeader.getField, hfields]
      rfl
    have haccepted := accepted_answers_iff server mount mime option parser files cs
      (hlength.trans hquiet) (by rw [Arrives, hsame]; exact harrives)
    rw [hhandle, haccepted, hpath, Surplus, hsame]
    exact ⟨fun h _ => h, fun h => h hresult⟩
  · have hhandle : (routed call parser files).handle server mount mime option =
        if ¬ left.response.hasConcluded then (routed left parser files).sendStatus 403
        else routed left parser files := by
      simp only [handle, routed, hrun, hresult]
      rfl
    refine iff_of_true ?_ fun haccepted => by rw [hresult] at haccepted; cases haccepted
    rw [hhandle, hconcluded]
    by_cases hnone : (asked mount call).starts = 0
    · have hany : (asked mount call).ops.any UserOp.concludes = false :=
        List.any_eq_false.mpr (List.countP_eq_zero.mp hnone)
      rw [if_pos (by rw [hany]; exact Bool.false_ne_true)]
      exact respond_answers (hlength.trans hnone) parser files cs
        (ResponseHandler.length_sendStatus _ 403)
    · have hany : (asked mount call).ops.any UserOp.concludes = true :=
        List.any_eq_true.mpr (List.countP_pos_iff.mp (Nat.pos_of_ne_zero hnone))
      rw [if_neg (not_not.mpr hany), deliverAll_of_not_reading Bool.false_ne_true]
      exact hlength.trans (by omega)

/-- A server, of which nothing but the mount matters. -/
def plainServer : HttpBasicServer Unit Unit where
  storage := { generateId := fun _ => [], session := fun _ => () }
  findRoute := fun _ => .missing .noMatch

/-- A mount whose callback accepts all requests. -/
def openMount : Mount Unit where
  rootPath := bytes "/srv/www"
  pathTemplate := bytes "/files"
  callback := fun _ _ => { result := .ok true }
  supportedMethods := [.GET, .HEAD, .PUT]

/-- A file system in which every path leads to one file. -/
def oneFile (data : Bytes) : FileSystem Unit where
  place := fun _ => ()
  contents := fun _ => some data
  endOf := fun _ => some data.length
  openable := fun _ => true
  removeAll := fun _ => (fun _ => none, none)

/-- A request for `/files/a`, with this length of its body, if there is one. -/
def filesRequest (length : Option String) : Call Unit where
  request :=
    { path := bytes "/files/a"
      fields := match length with
        | some length => AList.insert (bytes "Content-Length") (bytes length) ∅
        | none => ∅ }
  sessions := {}

/-- A `PUT` of two bytes is answered, one of which is read behind the header. -/
theorem mount_answers_put :
    (((routed (filesRequest (some "2")) { headerBuffer := bytes "a" } (oneFile [])).handle
      plainServer openMount (fun _ => []) .PUT).deliverAll [bytes "b"]).started = 1 :=
  (mount_answers_iff plainServer openMount (fun _ => []) .PUT (filesRequest (some "2"))
    { headerBuffer := bytes "a" } (oneFile []) [bytes "b"] ⟨rfl, rfl⟩ (Or.inl ⟨rfl, rfl⟩)
    (by
      intro _ n hn
      obtain rfl : 2 = n := by simpa using (show contentLength _ = some 2 by decide).symm.trans hn
      decide)).mpr fun _ _ => ⟨by decide, by simp⟩

/-- A `HEAD` of a file that is there is not answered. -/
theorem mount_head_unanswered :
    ¬ ∀ (server : HttpBasicServer Unit Unit) (mount : Mount Unit) (mime : Bytes → Bytes)
      (option : MountOption) (call : Call Unit) (parser : RequestParser) (files : FileSystem Unit)
      (cs : List Bytes), Fresh call → Prudent (asked mount call) →
      (option = .PUT ∨ option = .POST → Arrives call.request parser.headerBuffer cs) →
      (((routed call parser files).handle server mount mime option).deliverAll cs).started = 1 := by
  intro hclaim
  have h := hclaim plainServer openMount (fun _ => []) .HEAD (filesRequest none) {} (oneFile []) []
    ⟨rfl, rfl⟩ (Or.inl ⟨rfl, rfl⟩) (by simp)
  exact absurd h (by decide)

end MountRun

end Attender.Http
