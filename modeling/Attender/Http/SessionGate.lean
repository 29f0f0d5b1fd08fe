import Attender.Http.HttpBasicServer
import Attender.Library.Runs

/-!
# The session gate

A server takes requests, and between them sessions are made, saved, terminated
and cleared. With session control installed, the handler of a route runs only
for a request that has been admitted: by a live session, by one of the two
exceptions of the configuration, or by its authorizer (`session_gate`).
-/

namespace Attender.Http

open Attender.Library Attender.Session

/-- A run of the handler of a route. -/
structure Handled (ι σ : Type) where
  /-- The request as it arrived. -/
  arrived : Call σ
  /-- The user code of the time. -/
  user : UserCode ι σ
  route : ι
  /-- What the handler was given. -/
  given : Call σ

/-- A server between two requests. -/
structure ServerState (ι σ : Type) where
  sessions : SessionManager σ := {}
  /-- The handlers that have been run. -/
  handled : List (Handled ι σ) := []

/-- What happens to a server. -/
inductive ServerEvent (ι σ : Type) where
  | request (request : RequestHeader) (user : UserCode ι σ)
  | session (op : SessionOp σ)

namespace HttpBasicServer

variable {ι σ : Type} (server : HttpBasicServer ι σ)

/-- One step of a server. -/
def step (s : ServerState ι σ) : ServerEvent ι σ → Option (ServerState ι σ)
  | .request request user =>
    let arrived : Call σ := { request := request, sessions := s.sessions }
    let answer := server.onHeader user arrived
    let handled :=
      answer.handled.map fun h => { arrived := arrived, user := user, route := h.1, given := h.2 }
    some { sessions := answer.call.sessions, handled := s.handled ++ handled.toList }
  | .session op => some { s with sessions := s.sessions.apply server.storage op }

/-- Why the handler of a route may be run. -/
inductive Admitted (control : SessionControl) (h : Handled ι σ) : Prop where
  /-- The id cookie is that of a session. -/
  | live (id : Bytes) (hcookie : h.arrived.request.getCookie control.idCookieKey = some id)
      (hlive : LiveIn h.given.sessions.history id)
  | options (hallowed : control.allowOptionsUnauthorized)
      (hmethod : h.arrived.request.method = bytes "OPTIONS")
  | authenticationPath (hdisabled : control.disableAutomaticAuthentication)
      (hpath : h.arrived.request.path = control.authenticationPath)
  /-- The authorizer has allowed it and left the response open, and there is a session now. -/
  | authorized (asked allowed : Call σ) (id : Bytes)
      (hasked : server.condition h.user h.arrived = (asked, .ok ()))
      (hresult : asked.run server.storage (h.user.tryPerformAuthorization asked) =
        (allowed, .ok .allowedContinue))
      (hopen : ∀ op ∈ (h.user.tryPerformAuthorization asked).ops, ¬ op.concludes)
      (hfresh : .created id ∉ allowed.sessions.history)
      (hcreated : h.given.sessions.history = allowed.sessions.history ++ [.created id])
      (hstored : id ∈ h.given.sessions.storage.sessions)
      (hcookie : h.given.response.header.cookies =
        allowed.response.header.cookies ++ [sessionCookie control id])
      (hpatched : h.given.request.getCookie control.idCookieKey = some id)

variable {server} {control : SessionControl} {user : UserCode ι σ} {call given : Call σ}

/-! ### The sessions -/

section Sessions

variable {p : StorageParams σ} {ρ : Type}

/-- User code can use the sessions through their manager alone. -/
theorem inv_apply (h : call.sessions.Inv p) (op : UserOp σ) : (call.apply p op).sessions.Inv p := by
  cases op with
  | response op => exact h
  | patchCookie key value => exact h
  | session op => exact h.apply op

theorem inv_run (h : call.sessions.Inv p) (code : UserRun σ ρ) :
    (call.run p code).1.sessions.Inv p := by
  rw [Call.run]
  induction code.ops generalizing call with
  | nil => exact h
  | cons op ops ih => exact ih (inv_apply h op)

theorem inv_condition (h : call.sessions.Inv server.storage) (user : UserCode ι σ) :
    (server.condition user call).1.sessions.Inv server.storage := by
  unfold condition
  split
  · exact h
  · next conditioner _ =>
    have hrun := inv_run h (conditioner call)
    split
    · next hthrown => rwa [hthrown] at hrun
    · next hreturned => rwa [hreturned] at hrun

theorem inv_makeSession (h : call.sessions.Inv server.storage) (control : SessionControl) :
    (server.makeSession control call).sessions.Inv server.storage :=
  h.makeSession

theorem inv_conclude (h : call.sessions.Inv server.storage) (control : SessionControl)
    (user : UserCode ι σ) (result : AuthorizationResult) :
    (server.conclude control user call result).1.sessions.Inv server.storage := by
  cases result with
  | denied =>
    rw [conclude]
    split_ifs
    · exact h
    · exact h
  | negotiate =>
    have hrun := inv_run h (user.negotiateAuthorizationMethod call)
    rw [conclude]
    split
    · next hthrown => rwa [hthrown] at hrun
    · next hreturned => rwa [hreturned] at hrun
  | allowedContinue => exact inv_makeSession h control
  | allowedButStop =>
    rw [conclude]
    dsimp only
    split_ifs
    · exact inv_makeSession h control
    · exact inv_makeSession h control
  | badRequest =>
    rw [conclude]
    split_ifs
    · exact h
    · exact h
  | unknown => exact h

theorem inv_authenticateSession (h : call.sessions.Inv server.storage) (control : SessionControl)
    (user : UserCode ι σ) :
    (server.authenticateSession control user call).1.sessions.Inv server.storage := by
  have hcondition := inv_condition h user
  unfold authenticateSession
  split
  · next hthrown => rwa [hthrown] at hcondition
  · next asked hasked =>
    rw [hasked] at hcondition
    have hrun := inv_run hcondition (user.tryPerformAuthorization asked)
    split
    · next hthrown => rwa [hthrown] at hrun
    · next hreturned =>
      rw [hreturned] at hrun
      split_ifs
      · exact hrun
      · exact inv_conclude hrun control user _

theorem inv_handleSession (h : call.sessions.Inv server.storage) (user : UserCode ι σ) :
    (server.handleSession user call).1.sessions.Inv server.storage := by
  unfold handleSession
  split
  · exact h
  · split_ifs
    · exact h
    · exact h
    · exact h
    · exact h
    · exact inv_authenticateSession h _ user

theorem inv_runCallback (h : call.sessions.Inv server.storage) (user : UserCode ι σ) (route : ι) :
    (server.runCallback user route call).call.sessions.Inv server.storage := by
  have hrun := inv_run h (user.callback route call)
  unfold runCallback
  dsimp only
  split
  · next hreturned => rwa [hreturned] at hrun
  · next hthrown => rwa [hthrown] at hrun

theorem inv_headerReadHandler (h : call.sessions.Inv server.storage) (user : UserCode ι σ) :
    (server.headerReadHandler user call).call.sessions.Inv server.storage := by
  have hsession := inv_handleSession h user
  unfold headerReadHandler
  split
  · split
    · next hthrown => rwa [hthrown] at hsession
    · next hadmitted =>
      rw [hadmitted] at hsession
      exact inv_runCallback hsession user _
    · next hrefused => rwa [hrefused] at hsession
  · split_ifs
    · exact h
    · split
      · next onMissing _ =>
        have hrun := inv_run h (onMissing call)
        split
        · next hreturned => rwa [hreturned] at hrun
        · next hthrown => rwa [hthrown] at hrun
      · exact h

theorem inv_onHeader (h : call.sessions.Inv server.storage) (user : UserCode ι σ) :
    (server.onHeader user call).call.sessions.Inv server.storage := by
  have hread := inv_headerReadHandler h user
  unfold onHeader
  dsimp only
  split
  · exact hread
  · exact hread

end Sessions

/-! ### One request -/

section Conclusions

variable {p : StorageParams σ} {ρ : Type}

/-- An observed run has concluded the response if it, or something before it, has started it. -/
theorem hasConcluded_run (h : call.response.observer.isSome) (code : UserRun σ ρ) :
    (call.run p code).1.hasConcluded = (call.hasConcluded || code.ops.any UserOp.concludes) := by
  rw [Call.run]
  induction code.ops generalizing call with
  | nil => simp
  | cons op ops ih =>
    have hop : (call.apply p op).response.observer.isSome ∧
        (call.apply p op).hasConcluded = (call.hasConcluded || op.concludes) := by
      cases op with
      | response op => exact ResponseHandler.concluded_apply h op
      | patchCookie key value => exact ⟨h, (Bool.or_false _).symm⟩
      | session op => exact ⟨h, (Bool.or_false _).symm⟩
    rw [List.foldl_cons, ih hop.1, hop.2, List.any_cons, Bool.or_assoc]

/-- The conclusion is observed when the authorizer runs. -/
theorem observed_condition {asked : Call σ} (h : server.condition user call = (asked, .ok ())) :
    asked.response.observer.isSome := by
  unfold condition at h
  split at h
  · cases h
    rfl
  · split at h
    · cases h
    · cases h
      rfl

end Conclusions

/-- The handler that a request runs is that of `run_callback`, and the session gate has let it
through. -/
theorem handled_onHeader {route : ι}
    (h : (server.onHeader user call).handled = some (route, given)) :
    server.handleSession user call = (given, .ok true) := by
  have hread : (server.headerReadHandler user call).handled = some (route, given) := by
    unfold onHeader at h
    dsimp only at h
    split at h
    · exact h
    · exact h
  unfold headerReadHandler at hread
  split at hread
  · split at hread
    · cases hread
    · next hadmitted =>
      rw [runCallback, Option.some.injEq, Prod.mk.injEq] at hread
      rw [hadmitted, hread.2]
    · cases hread
  · split_ifs at hread
    split at hread
    · split at hread
      · cases hread
      · cases hread
    · cases hread

/-- **What the authorizer lets through**: it has allowed the request, left the response open, and a
session with a new id has been made. -/
theorem authenticateSession_eq_true
    (h : server.authenticateSession control user call = (given, .ok true)) :
    ∃ asked allowed, server.condition user call = (asked, .ok ()) ∧
      asked.run server.storage (user.tryPerformAuthorization asked) =
        (allowed, .ok .allowedContinue) ∧
        ¬ allowed.hasConcluded ∧ given = server.makeSession control allowed := by
  unfold authenticateSession at h
  split at h
  · cases h
  · next asked hasked =>
    split at h
    · cases h
    · next allowed result hresult =>
      split_ifs at h with hconcluded
      · cases h
      · cases result with
        | allowedContinue =>
          rw [conclude, Prod.mk.injEq] at h
          exact ⟨asked, allowed, hasked, hresult, hconcluded, h.1.symm⟩
        | negotiate =>
          rw [conclude] at h
          split at h
          · cases h
          · cases h
        | denied => cases h
        | allowedButStop => cases h
        | badRequest => cases h
        | unknown => cases h

/-- One request runs the handler of a route only if it has been admitted. -/
theorem admitted_of_handleSession (hgenerator : Function.Injective server.storage.generateId)
    (hcontrol : server.sessionControl = some control) (hinv : call.sessions.Inv server.storage)
    (route : ι) (h : server.handleSession user call = (given, .ok true)) :
    server.Admitted control { arrived := call, user := user, route := route, given := given } := by
  rw [handleSession, hcontrol] at h
  dsimp only at h
  split_ifs at h with hlive hoptions hdisabled hpath
  · rw [Prod.mk.injEq] at h
    obtain ⟨rfl, -⟩ := h
    obtain ⟨id, hcookie, hlive⟩ := (hinv.loadSession_eq_live_iff _ _).mp hlive
    exact .live id hcookie hlive
  · exact .options hoptions.1 hoptions.2
  · cases h
  · exact .authenticationPath hdisabled (not_not.mp hpath)
  · obtain ⟨asked, allowed, hasked, hresult, hconcluded, rfl⟩ := authenticateSession_eq_true h
    have hallowed : allowed.sessions.Inv server.storage := by
      have hrun := inv_run (inv_condition hinv user) (user.tryPerformAuthorization asked)
      rw [hasked] at hrun
      rwa [hresult] at hrun
    have hopen := hasConcluded_run (observed_condition hasked) (user.tryPerformAuthorization asked)
      (p := server.storage)
    rw [hresult] at hopen
    rw [hopen, Bool.or_eq_true, not_or, List.any_eq_true] at hconcluded
    refine .authorized asked allowed (allowed.sessions.makeSession server.storage).2 hasked hresult
      (fun op hop hconcludes => hconcluded.2 ⟨op, hop, hconcludes⟩)
      (hallowed.makeSession_fresh hgenerator) rfl (SessionManager.makeSession_mem _ _) rfl ?_
    exact RequestHeader.getCookie_patchCookie _ _ _

/-! ### Whole runs -/

/-- What holds after every run. -/
structure Guarded (server : HttpBasicServer ι σ) (control : SessionControl)
    (s : ServerState ι σ) : Prop where
  sessions : s.sessions.Inv server.storage
  handled : ∀ h ∈ s.handled, server.Admitted control h

theorem guarded_step (hgenerator : Function.Injective server.storage.generateId)
    (hcontrol : server.sessionControl = some control) {s s' : ServerState ι σ} {e : ServerEvent ι σ}
    (h : server.Guarded control s) (hstep : server.step s e = some s') :
    server.Guarded control s' := by
  cases e with
  | request request user =>
    cases hstep
    refine ⟨inv_onHeader h.sessions user, ?_⟩
    intro handled hhandled
    rcases List.mem_append.mp hhandled with hhandled | hhandled
    · exact h.handled handled hhandled
    · rw [Option.mem_toList, Option.map_eq_some_iff] at hhandled
      obtain ⟨⟨route, given⟩, hrun, rfl⟩ := hhandled
      exact admitted_of_handleSession hgenerator hcontrol h.sessions route (handled_onHeader hrun)
  | session op =>
    cases hstep
    exact ⟨h.sessions.apply op, h.handled⟩

/-- **The session gate**: in every run the handlers have been run only for requests that had been
admitted. -/
theorem session_gate (server : HttpBasicServer ι σ)
    (hgenerator : Function.Injective server.storage.generateId) (control : SessionControl)
    (hcontrol : server.sessionControl = some control) (events : List (ServerEvent ι σ))
    (s : ServerState ι σ) (hrun : run server.step {} events = some s) :
    ∀ h ∈ s.handled, server.Admitted control h := by
  have hguarded : server.Guarded control s := by
    refine run_invariant (A := fun _ => True) (I := server.Guarded control) ?_
      (fun _ _ => trivial) ?_ hrun
    · intro s e s' _ h hstep
      exact guarded_step hgenerator hcontrol h hstep
    · exact ⟨SessionManager.inv_init, fun h hh => absurd hh List.not_mem_nil⟩
  exact hguarded.handled

/-- A server with one route, whose authorizer allows what comes first and denies the rest. -/
def loginServer : HttpBasicServer Unit Bytes where
  storage := { generateId := fun n => List.replicate (n + 1) 120, session := fun id => id }
  sessionControl := some { idCookieKey := bytes "sid" }
  findRoute := fun _ => .route ()

/-- User code whose authorizer always comes to this result. -/
def loginCode (result : AuthorizationResult) : UserCode Unit Bytes where
  tryPerformAuthorization := fun _ => { result := .ok result }
  negotiateAuthorizationMethod := fun _ => { result := .ok () }
  callback := fun _ _ => { ops := [.response (.sendStatus 200)], result := .ok () }

/-- A login, a request with the cookie of that session, and the same request when the session has
been terminated. -/
def loginEvents : List (ServerEvent Unit Bytes) :=
  let plain : RequestHeader := { method := bytes "GET", path := bytes "/" }
  let withCookie := plain.patchCookie (bytes "sid") (bytes "x")
  [.request plain (loginCode .allowedContinue),
    .request withCookie (loginCode .denied),
    .session (.terminateSession (bytes "x")),
    .request withCookie (loginCode .denied)]

/-- The first two of these requests run the handler. -/
theorem session_gate_login :
    ∃ s, run loginServer.step {} loginEvents = some s ∧ s.handled.length = 2 ∧
    ∀ h ∈ s.handled, loginServer.Admitted { idCookieKey := bytes "sid" } h := by
  refine ⟨_, rfl, rfl, session_gate loginServer ?_ _ rfl loginEvents _ rfl⟩
  intro n m h
  exact Nat.succ_injective (List.replicate_left_injective _ h)

end HttpBasicServer

end Attender.Http
