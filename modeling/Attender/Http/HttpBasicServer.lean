import Attender.Http.Mounting
import Attender.Http.ResponseHandler
import Attender.Session.SessionManager
import Attender.Utility.CallbackWrapper

/-!
# The server

What `http_basic_server` does with a request once its header has been read: it
finds a route, asks the session control, and runs the handler of the route. The
handlers, the authorizer and the conditioner are user code. What they do may
depend on all that they are given, and it may be another thing for each request.
-/

namespace Attender.Http

open Attender.Library Attender.Session Attender.Utility

/-! ### User code -/

/-- What user code works on while a request is handled. -/
structure Call (σ : Type) where
  /-- `header_` of the request handler. -/
  request : RequestHeader
  response : ResponseHandler := {}
  sessions : SessionManager σ
  /-- What the response handler has asked of the connection. -/
  effects : List ResponseEffect := []

/-- What user code does. -/
inductive UserOp (σ : Type) where
  | response (op : ResponseOp)
  /-- `request_handler::patch_cookie`. -/
  | patchCookie (key value : Bytes)
  | session (op : SessionOp σ)

/-- The operations that start a response. -/
def UserOp.concludes {σ : Type} : UserOp σ → Bool
  | .response op => op.concludes
  | .patchCookie _ _ | .session _ => false

/-- An exception: a `std::exception` with its text, or any other. -/
inductive Thrown where
  | exception (what : Bytes)
  | other
  deriving DecidableEq

/-- A run of user code: what it does, and then what it returns or throws. -/
structure UserRun (σ ρ : Type) where
  ops : List (UserOp σ) := []
  result : Except Thrown ρ

namespace Call

variable {σ ρ : Type}

/-- What the response handler does is left in the call. -/
def respond (call : Call σ) (outcome : ResponseHandler.Outcome) : Call σ :=
  { call with response := outcome.1, effects := call.effects ++ outcome.2 }

/-- The call after one operation of user code. -/
def apply (p : StorageParams σ) (call : Call σ) : UserOp σ → Call σ
  | .response op => call.respond (call.response.apply op)
  | .patchCookie key value => { call with request := call.request.patchCookie key value }
  | .session op => { call with sessions := call.sessions.apply p op }

/-- The call after a run of user code, and what that returns or throws. -/
def run (p : StorageParams σ) (call : Call σ) (user : UserRun σ ρ) : Call σ × Except Thrown ρ :=
  (user.ops.foldl (apply p) call, user.result)

/-- `observer->has_concluded()`. -/
def hasConcluded (call : Call σ) : Bool := call.response.concluded

/-- `res->status(code).end()`. -/
def endWith (call : Call σ) (code : Int) : Call σ := call.respond (call.response.status code).end_

/-- `res->send_status(code)`. -/
def sendStatus (call : Call σ) (code : Int) : Call σ := call.respond (call.response.sendStatus code)

end Call

/-- How the dispatcher answers what a handler throws. -/
def ResponseHandler.answerThrown (exposeException : Bool) (r : ResponseHandler) :
    Thrown → ResponseHandler.Outcome
  | .exception what =>
    if exposeException then (r.status 500).send (.string what) else (r.status 500).end_
  | .other => r.sendStatus 500

/-- `authorization_result`. -/
inductive AuthorizationResult where
  | allowedContinue
  | denied
  | negotiate
  | allowedButStop
  | badRequest
  /-- A value that is none of the enumerators. -/
  | unknown
  deriving DecidableEq

/-- The user code that a request may reach. -/
structure UserCode (ι σ : Type) where
  /-- `authorization_conditioner`, if there is one. -/
  conditioner : Option (Call σ → UserRun σ Unit) := none
  /-- `authorizer->try_perform_authorization`. -/
  tryPerformAuthorization : Call σ → UserRun σ AuthorizationResult
  /-- `authorizer->negotiate_authorization_method`. -/
  negotiateAuthorizationMethod : Call σ → UserRun σ Unit
  /-- The callback of a route, which for a mount runs the handler of the mount. -/
  callback : ι → Call σ → UserRun σ Unit
  /-- `on_missing_handler_`, if there is one. -/
  onMissing : Option (Call σ → UserRun σ Unit) := none

/-! ### The session control -/

/-- `SessionControl`, less the sessions and the user code. -/
structure SessionControl where
  idCookieKey : Bytes
  allowOptionsUnauthorized : Bool := false
  cookieBase : Cookie := {}
  disableAutomaticAuthentication : Bool := false
  authenticationPath : Bytes := []

/-- What `request_router::find_route` finds: a route, or how well the best one matches. -/
inductive RouteMatch (ι : Type) where
  | route (r : ι)
  | missing (bestMatch : MatchResult)

/-- `http_basic_server`, for routes in `ι` and sessions in `σ`. -/
structure HttpBasicServer (ι σ : Type) where
  storage : StorageParams σ
  /-- `sessionControl_`, if it has been installed. -/
  sessionControl : Option SessionControl := none
  /-- `router_.find_route`. -/
  findRoute : RequestHeader → RouteMatch ι
  /-- `settings_.expose_exception`. -/
  exposeException : Bool := false

namespace HttpBasicServer

variable {ι σ : Type} (server : HttpBasicServer ι σ)

/-- The cookie of a new session. -/
def sessionCookie (control : SessionControl) (id : Bytes) : Cookie :=
  ((control.cookieBase.setName control.idCookieKey).setValue id).setPath (bytes "/")

/-- The lambda `make_session` of `authenticate_session`. -/
def makeSession (control : SessionControl) (call : Call σ) : Call σ :=
  let made := call.sessions.makeSession server.storage
  { call with
    sessions := made.1
    response := call.response.setCookie (sessionCookie control made.2)
    request := call.request.patchCookie control.idCookieKey made.2 }

/-- The start of `authenticate_session`: the conditioner runs, then the conclusion is observed. -/
def condition (user : UserCode ι σ) (call : Call σ) : Call σ × Except Thrown Unit :=
  match user.conditioner with
  | none => ({ call with response := call.response.observeConclusion }, .ok ())
  | some conditioner =>
    match call.run server.storage (conditioner call) with
    | (call, .error e) => (call, .error e)
    | (call, .ok ()) => ({ call with response := call.response.observeConclusion }, .ok ())

/-- The `switch` of `authenticate_session`. -/
def conclude (control : SessionControl) (user : UserCode ι σ) (call : Call σ) :
    AuthorizationResult → Call σ × Except Thrown Bool
  | .denied => (if ¬ call.hasConcluded then call.endWith 401 else call, .ok false)
  | .negotiate =>
    match call.run server.storage (user.negotiateAuthorizationMethod call) with
    | (call, .error e) => (call, .error e)
    | (call, .ok ()) => (call, .ok false)
  | .allowedContinue => (server.makeSession control call, .ok true)
  | .allowedButStop =>
    let call := server.makeSession control call
    (if ¬ call.hasConcluded then call.endWith 204 else call, .ok false)
  | .badRequest => (if ¬ call.hasConcluded then call.endWith 400 else call, .ok false)
  | .unknown => (call.respond call.response.end_, .ok false)

/-- `http_basic_server::authenticate_session`. -/
def authenticateSession (control : SessionControl) (user : UserCode ι σ) (call : Call σ) :
    Call σ × Except Thrown Bool :=
  match server.condition user call with
  | (call, .error e) => (call, .error e)
  | (call, .ok ()) =>
    match call.run server.storage (user.tryPerformAuthorization call) with
    | (call, .error e) => (call, .error e)
    | (call, .ok result) =>
      if call.hasConcluded then (call, .ok false) else server.conclude control user call result

/-- `http_basic_server::handle_session`. -/
def handleSession (user : UserCode ι σ) (call : Call σ) : Call σ × Except Thrown Bool :=
  match server.sessionControl with
  | none => (call, .ok true)
  | some control =>
    if call.sessions.loadSession control.idCookieKey call.request = .live then (call, .ok true)
    else if control.allowOptionsUnauthorized ∧ call.request.method = bytes "OPTIONS" then
      (call, .ok true)
    else if control.disableAutomaticAuthentication then
      if call.request.path ≠ control.authenticationPath then (call.endWith 401, .ok false)
      else (call, .ok true)
    else server.authenticateSession control user call

/-! ### The dispatcher -/

/-- How a request has been handled. -/
structure Answer (ι σ : Type) where
  call : Call σ
  /-- The route whose callback has been run, with what it was given. -/
  handled : Option (ι × Call σ) := none
  /-- What is thrown to the request handler. -/
  thrown : Option Thrown := none

/-- The callback of a route runs, and what it throws is answered. -/
def runCallback (user : UserCode ι σ) (route : ι) (call : Call σ) : Answer ι σ where
  handled := some (route, call)
  call :=
    match call.run server.storage (user.callback route call) with
    | (call, .ok ()) => call
    | (call, .error e) => call.respond (call.response.answerThrown server.exposeException e)

/-- `http_basic_server::header_read_handler`, of a header that has been read without an error. -/
def headerReadHandler (user : UserCode ι σ) (call : Call σ) : Answer ι σ :=
  match server.findRoute call.request with
  | .route route =>
    match server.handleSession user call with
    | (call, .error e) => { call := call, thrown := some e }
    | (call, .ok true) => server.runCallback user route call
    | (call, .ok false) => { call := call }
  | .missing bestMatch =>
    if bestMatch = .pathMatch then { call := call.sendStatus 405 }
    else
      match user.onMissing with
      | some onMissing =>
        match call.run server.storage (onMissing call) with
        | (call, .ok ()) => { call := call }
        | (call, .error e) => { call := call, thrown := some e }
      | none => { call := call.sendStatus 404 }

/-- `request_handler::header_read_handler` once the header is there: an exception is answered with
400, unless it is none of the standard library. -/
def onHeader (user : UserCode ι σ) (call : Call σ) : Answer ι σ :=
  let answer := server.headerReadHandler user call
  match answer.thrown with
  | some (.exception _) => { answer with call := answer.call.sendStatus 400, thrown := none }
  | _ => answer

end HttpBasicServer

end Attender.Http
