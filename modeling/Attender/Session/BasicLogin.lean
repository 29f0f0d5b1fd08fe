import Attender.Http.SessionLife
import Attender.Session.BasicAuthorizer

/-!
# Logins

A client shows a name and a password in the field `Authorization`, and the basic
authorizer asks user code about exactly these. When no other code makes sessions,
a request gets to a handler only in the name of somebody: the session it is
handled in was made by one login, with a password that user code had accepted
(`login_provenance`).
-/

namespace Attender.Session

open Attender.Encoding Attender.Http Attender.Library HttpBasicServer

variable {ι σ ρ : Type}

/-! ### Credentials -/

/-- The field `Authorization` of the request has this name and this password. -/
def Shows (request : RequestHeader) (name pw : Bytes) : Prop :=
  ∃ input, request.getField (bytes "Authorization") = some (bytes "Basic " ++ input) ∧
    base64Decode input = .ok (name ++ 58 :: pw) ∧ 58 ∉ name

/-- A field shows one name and one password. -/
theorem Shows.unique {request : RequestHeader} {name name' pw pw' : Bytes}
    (h : Shows request name pw) (h' : Shows request name' pw') : name = name' ∧ pw = pw' := by
  obtain ⟨input, hfield, hdecode, hname⟩ := h
  obtain ⟨input', hfield', hdecode', hname'⟩ := h'
  rw [hfield, Option.some.injEq] at hfield'
  obtain rfl := List.append_cancel_left hfield'
  rw [hdecode, Except.ok.injEq] at hdecode'
  have hcut : cut 58 (name ++ 58 :: pw) = some (name, pw) := cut_eq_some_iff.mpr ⟨rfl, hname⟩
  rw [hdecode', cut_eq_some_iff.mpr ⟨rfl, hname'⟩, Option.some.injEq, Prod.mk.injEq] at hcut
  exact ⟨hcut.1.symm, hcut.2.symm⟩

namespace BasicAuthorizer

variable {acceptAuthentication : Bytes → Bytes → Bool} {call : Call σ}

/-- What an authorizer comes to when it lets a request wait. -/
def denied : UserRun σ AuthorizationResult where
  ops := [.response (.status 401), .response .end_]
  result := .ok .denied

/-- **What the authorizer does**: it asks for credentials, refuses a field, or asks user code about
the name and the password that the request shows. -/
theorem tryPerformAuthorization_cases (acceptAuthentication : Bytes → Bytes → Bool)
    (call : Call σ) :
    (tryPerformAuthorization acceptAuthentication call = { result := .ok .negotiate } ∧
        ∀ name pw, ¬ Shows call.request name pw) ∨
      (∃ text, tryPerformAuthorization acceptAuthentication call = refuse text ∧
        ∀ name pw, ¬ Shows call.request name pw) ∨
      ∃ name pw, Shows call.request name pw ∧
        tryPerformAuthorization acceptAuthentication call =
          if acceptAuthentication name pw then { result := .ok .allowedContinue } else denied := by
  have hshown : ∀ {name pw}, Shows call.request name pw → ∃ input,
      call.request.getField (bytes "Authorization") = some (bytes "Basic " ++ input) ∧
        cut SP (bytes "Basic " ++ input) = some (bytes "Basic", input) ∧ input ≠ [] ∧
          base64Decode input = .ok (name ++ 58 :: pw) ∧ 58 ∉ name := by
    rintro name pw ⟨input, hfield, hdecode, hname⟩
    refine ⟨input, hfield, cut_eq_some_iff.mpr ⟨rfl, by decide⟩, ?_, hdecode, hname⟩
    rintro rfl
    rw [base64Decode, if_pos rfl, Except.ok.injEq] at hdecode
    exact List.append_ne_nil_of_right_ne_nil name (List.cons_ne_nil 58 pw) hdecode.symm
  unfold tryPerformAuthorization
  split
  · next hnone =>
    refine Or.inl ⟨rfl, fun name pw h => ?_⟩
    obtain ⟨input, hfield, -⟩ := hshown h
    rw [hnone] at hfield
    cases hfield
  · next auth hauth =>
    split
    · next hcut =>
      refine Or.inr (Or.inl ⟨_, rfl, fun name pw h => ?_⟩)
      obtain ⟨input, hfield, hcut', -⟩ := hshown h
      rw [hauth, Option.some.injEq] at hfield
      rw [hfield, hcut'] at hcut
      cases hcut
    · next type value hcut =>
      have hvalue : ∀ {name pw}, Shows call.request name pw →
          type = bytes "Basic" ∧ value ≠ [] ∧ base64Decode value = .ok (name ++ 58 :: pw) ∧
            58 ∉ name := by
        intro name pw h
        obtain ⟨input, hfield, hcut', hrest⟩ := hshown h
        rw [hauth, Option.some.injEq] at hfield
        rw [hfield, hcut', Option.some.injEq, Prod.mk.injEq] at hcut
        obtain ⟨rfl, rfl⟩ := hcut
        exact ⟨rfl, hrest⟩
      split_ifs with hempty htype
      · exact Or.inr (Or.inl ⟨_, rfl, fun name pw h => (hvalue h).2.1 hempty⟩)
      · exact Or.inl ⟨rfl, fun name pw h => htype (hvalue h).1⟩
      · split
        · next hdecode =>
          refine Or.inr (Or.inl ⟨_, rfl, fun name pw h => ?_⟩)
          rw [(hvalue h).2.2.1] at hdecode
          cases hdecode
        · next out hdecode =>
          split
          · next hcolon =>
            refine Or.inr (Or.inl ⟨_, rfl, fun name pw h => ?_⟩)
            obtain ⟨-, -, hdecode', hname⟩ := hvalue h
            rw [hdecode, Except.ok.injEq] at hdecode'
            rw [hdecode', cut_eq_some_iff.mpr ⟨rfl, hname⟩] at hcolon
            cases hcolon
          · next user pw hcolon =>
            obtain ⟨rfl, huser⟩ := cut_eq_some_iff.mp hcolon
            obtain ⟨rfl, -⟩ := cut_eq_some_iff.mp hcut
            rw [not_not] at htype
            subst htype
            exact Or.inr (Or.inr ⟨user, pw, ⟨value, hauth, hdecode, huser⟩, rfl⟩)

theorem allowedContinue_iff :
    (tryPerformAuthorization acceptAuthentication call).result = .ok .allowedContinue ↔
      ∃ name pw, Shows call.request name pw ∧ acceptAuthentication name pw := by
  rcases tryPerformAuthorization_cases acceptAuthentication call with
    ⟨h, hnone⟩ | ⟨text, h, hnone⟩ | ⟨name, pw, hshows, h⟩
  · rw [h]
    refine iff_of_false (by simp) ?_
    rintro ⟨name, pw, hshows, -⟩
    exact hnone name pw hshows
  · rw [h]
    refine iff_of_false (by simp [refuse]) ?_
    rintro ⟨name, pw, hshows, -⟩
    exact hnone name pw hshows
  · rw [h]
    split_ifs with haccept
    · exact iff_of_true rfl ⟨name, pw, hshows, haccept⟩
    · refine iff_of_false (by simp [denied]) ?_
      rintro ⟨name', pw', hshows', haccept'⟩
      obtain ⟨rfl, rfl⟩ := hshows.unique hshows'
      exact haccept haccept'

end BasicAuthorizer

/-! ### Who makes sessions -/

/-- A run of user code that makes no session. -/
def MakesNone (code : UserRun σ ρ) : Prop := UserOp.session .makeSession ∉ code.ops

/-- User code with a basic authorizer, which leaves the making of sessions to the server. -/
structure UsesBasic (realm : Bytes) (accept : Bytes → Bytes → Bool) (user : UserCode ι σ) :
    Prop where
  tryPerform : user.tryPerformAuthorization = BasicAuthorizer.tryPerformAuthorization accept
  negotiate : user.negotiateAuthorizationMethod =
    fun _ => BasicAuthorizer.negotiateAuthorizationMethod realm
  conditioner : ∀ conditioner ∈ user.conditioner, ∀ call, MakesNone (conditioner call)
  callback : ∀ route call, MakesNone (user.callback route call)
  onMissing : ∀ onMissing ∈ user.onMissing, ∀ call, MakesNone (onMissing call)

namespace BasicAuthorizer

theorem makesNone_negotiateAuthorizationMethod (realm : Bytes) :
    MakesNone (negotiateAuthorizationMethod realm : UserRun σ Unit) := by
  simp [MakesNone, negotiateAuthorizationMethod]

theorem makesNone_tryPerformAuthorization (accept : Bytes → Bytes → Bool) (call : Call σ) :
    MakesNone (tryPerformAuthorization accept call) := by
  rcases tryPerformAuthorization_cases accept call with ⟨h, -⟩ | ⟨text, h, -⟩ | ⟨name, pw, -, h⟩
  · simp [h, MakesNone]
  · simp [h, MakesNone, refuse]
  · rw [h]
    split_ifs
    · simp [MakesNone]
    · simp [MakesNone, denied]

theorem result_ne_allowedButStop {accept : Bytes → Bytes → Bool} {call : Call σ} :
    (tryPerformAuthorization accept call).result ≠ .ok .allowedButStop := by
  rcases tryPerformAuthorization_cases accept call with ⟨h, -⟩ | ⟨text, h, -⟩ | ⟨name, pw, -, h⟩
  · simp [h]
  · simp [h, refuse]
  · rw [h]
    split_ifs
    · simp
    · simp [denied]

end BasicAuthorizer

section MadeSessions

variable {p : StorageParams σ} {id : Bytes}

/-- Without `make_session` the same ids have been given out. -/
theorem created_run (p : StorageParams σ) (id : Bytes) {code : UserRun σ ρ}
    (hcode : MakesNone code) (call : Call σ) :
    .created id ∈ (call.run p code).1.sessions.history ↔ .created id ∈ call.sessions.history := by
  obtain ⟨ops, result⟩ := code
  simp only [MakesNone] at hcode
  rw [Call.run]
  induction ops generalizing call with
  | nil => exact Iff.rfl
  | cons op ops ih =>
    rw [List.mem_cons, not_or] at hcode
    refine (ih _ hcode.2).trans ?_
    cases op with
    | response op => exact Iff.rfl
    | patchCookie key value => exact Iff.rfl
    | session op =>
      show _ ∈ (call.sessions.apply p op).history ↔ _
      rw [SessionManager.history_apply, List.mem_append]
      refine or_iff_left ?_
      cases op with
      | makeSession => exact absurd rfl hcode.1
      | terminateSession id => simp [SessionManager.added]
      | saveSession id session => simp [SessionManager.added]
      | clear => simp [SessionManager.added]

/-- Of the request user code changes only the cookies. -/
theorem shows_run (code : UserRun σ ρ) (call : Call σ) (name pw : Bytes) :
    Shows (call.run p code).1.request name pw ↔ Shows call.request name pw := by
  rw [Call.run]
  induction code.ops generalizing call with
  | nil => exact Iff.rfl
  | cons op ops ih =>
    refine (ih _).trans ?_
    cases op with
    | response op => exact Iff.rfl
    | patchCookie key value => exact Iff.rfl
    | session op => exact Iff.rfl

end MadeSessions

end Attender.Session

namespace Attender.Http.HttpBasicServer

open Attender.Library Attender.Session

variable {ι σ : Type} {server : HttpBasicServer ι σ} {control : SessionControl}
  {user : UserCode ι σ} {call given : Call σ} {realm : Bytes} {accept : Bytes → Bytes → Bool}
  {id : Bytes}

/-! ### One request -/

/-- The conditioner makes no session, and it does not change what the request shows. -/
theorem condition_basic (huser : UsesBasic realm accept user) {asked : Call σ}
    {result : Except Thrown Unit} (h : server.condition user call = (asked, result)) :
    (∀ id, .created id ∈ asked.sessions.history ↔ .created id ∈ call.sessions.history) ∧
      ∀ name pw, Shows asked.request name pw ↔ Shows call.request name pw := by
  unfold condition at h
  split at h
  · cases h
    exact ⟨fun _ => Iff.rfl, fun _ _ => Iff.rfl⟩
  · next conditioner hconditioner =>
    have hmade := fun id => created_run server.storage id
      (huser.conditioner conditioner hconditioner call) call
    have hshows := shows_run (p := server.storage) (conditioner call) call
    split at h
    · next hrun =>
      cases h
      rw [hrun] at hmade hshows
      exact ⟨hmade, hshows⟩
    · next hrun =>
      cases h
      rw [hrun] at hmade hshows
      exact ⟨hmade, hshows⟩

/-- What is no leave to go on makes no session. -/
theorem created_conclude (server : HttpBasicServer ι σ) (control : SessionControl) (call : Call σ)
    (id : Bytes)
    (huser : UsesBasic realm accept user) {result : AuthorizationResult}
    (hcontinue : result ≠ .allowedContinue) (hstop : result ≠ .allowedButStop) :
    .created id ∈ (server.conclude control user call result).1.sessions.history ↔
      .created id ∈ call.sessions.history := by
  cases result with
  | allowedContinue => exact absurd rfl hcontinue
  | allowedButStop => exact absurd rfl hstop
  | denied =>
    rw [conclude]
    split_ifs
    · exact Iff.rfl
    · exact Iff.rfl
  | negotiate =>
    have hrun := created_run server.storage id
      (BasicAuthorizer.makesNone_negotiateAuthorizationMethod realm) call
    rw [conclude, huser.negotiate]
    split
    · next hthrown => rwa [hthrown] at hrun
    · next hreturned => rwa [hreturned] at hrun
  | badRequest =>
    rw [conclude]
    split_ifs
    · exact Iff.rfl
    · exact Iff.rfl
  | unknown => exact Iff.rfl

/-- **Where ids come from**: the gate gives out an id only to a request that shows a password which
user code accepts, and it lets this request through with the id in its cookie. -/
theorem created_authenticateSession (huser : UsesBasic realm accept user)
    {result : Except Thrown Bool}
    (h : server.authenticateSession control user call = (given, result))
    (hid : .created id ∈ given.sessions.history) :
    .created id ∈ call.sessions.history ∨
      (result = .ok true ∧ given.request.getCookie control.idCookieKey = some id) := by
  unfold authenticateSession at h
  split at h
  · next hasked =>
    cases h
    exact Or.inl (((condition_basic huser hasked).1 id).mp hid)
  · next asked hasked =>
    obtain ⟨hmade, -⟩ := condition_basic huser hasked
    have htried := created_run server.storage id
      (BasicAuthorizer.makesNone_tryPerformAuthorization accept asked) asked
    rw [← hmade id]
    rw [huser.tryPerform] at h
    split at h
    · next hthrown =>
      cases h
      rw [hthrown] at htried
      exact Or.inl (htried.mp hid)
    · next tried answer hreturned =>
      rw [hreturned] at htried
      rw [← htried]
      split_ifs at h with hconcluded
      · cases h
        exact Or.inl hid
      · by_cases hcontinue : answer = .allowedContinue
        · subst hcontinue
          rw [conclude, Prod.mk.injEq] at h
          obtain ⟨rfl, rfl⟩ := h
          rcases List.mem_append.mp hid with hid | hid
          · exact Or.inl hid
          · rw [List.mem_singleton, SessionEvent.created.injEq] at hid
            rw [hid]
            exact Or.inr ⟨rfl, RequestHeader.getCookie_patchCookie _ _ _⟩
        · have hstop : answer ≠ .allowedButStop := by
            rintro rfl
            exact BasicAuthorizer.result_ne_allowedButStop (congrArg Prod.snd hreturned)
          have hconclude := (created_conclude server control tried id huser hcontinue hstop).mp
          rw [h] at hconclude
          exact Or.inl (hconclude hid)

/-- What the session control gives out. -/
theorem created_handleSession (huser : UsesBasic realm accept user)
    (hcontrol : server.sessionControl = some control) {result : Except Thrown Bool}
    (h : server.handleSession user call = (given, result))
    (hid : .created id ∈ given.sessions.history) :
    .created id ∈ call.sessions.history ∨
      (result = .ok true ∧ given.request.getCookie control.idCookieKey = some id ∧
        ∃ name pw, Shows call.request name pw ∧ accept name pw) := by
  rw [handleSession, hcontrol] at h
  dsimp only at h
  split_ifs at h
  · cases h
    exact Or.inl hid
  · cases h
    exact Or.inl hid
  · cases h
    exact Or.inl hid
  · cases h
    exact Or.inl hid
  · refine (created_authenticateSession huser h hid).imp_right ?_
    rintro ⟨rfl, hcookie⟩
    obtain ⟨asked, allowed, hasked, hallowed, -⟩ := authenticateSession_eq_true h
    have hresult := congrArg Prod.snd hallowed
    rw [huser.tryPerform] at hresult
    obtain ⟨name, pw, hshown, haccept⟩ := BasicAuthorizer.allowedContinue_iff.mp hresult
    exact ⟨rfl, hcookie, name, pw,
      ((condition_basic huser hasked).2 name pw).mp hshown, haccept⟩

theorem onHeader_of_handled {route : ι}
    (h : (server.onHeader user call).handled = some (route, given)) :
    server.onHeader user call = server.runCallback user route given := by
  have hread : ∀ {answer : Answer ι σ}, server.headerReadHandler user call = answer →
      answer.handled = some (route, given) → answer = server.runCallback user route given := by
    intro answer hanswer hhandled
    unfold headerReadHandler at hanswer
    split at hanswer
    · split at hanswer
      · subst hanswer
        cases hhandled
      · subst hanswer
        rw [runCallback, Option.some.injEq, Prod.mk.injEq] at hhandled
        rw [hhandled.1, hhandled.2]
      · subst hanswer
        cases hhandled
    · split_ifs at hanswer
      · subst hanswer
        cases hhandled
      · split at hanswer
        · split at hanswer
          · subst hanswer
            cases hhandled
          · subst hanswer
            cases hhandled
        · subst hanswer
          cases hhandled
  unfold onHeader at h ⊢
  dsimp only at h ⊢
  split
  · next hthrown =>
    rw [hthrown] at h
    rw [hread rfl h] at hthrown
    cases hthrown
  · next hnot =>
    split at h
    · next what hthrown => exact absurd hthrown (hnot what)
    · exact hread rfl h

/-- What a request gives out, it gives out to its handler. -/
theorem created_onHeader (huser : UsesBasic realm accept user)
    (hcontrol : server.sessionControl = some control)
    (hid : .created id ∈ (server.onHeader user call).call.sessions.history) :
    .created id ∈ call.sessions.history ∨
      ∃ route given, (server.onHeader user call).handled = some (route, given) ∧
        .created id ∈ given.sessions.history ∧
          given.request.getCookie control.idCookieKey = some id ∧
            ∃ name pw, Shows call.request name pw ∧ accept name pw := by
  have hcallback : ∀ (route : ι) (given : Call σ),
      (.created id ∈ (server.runCallback user route given).call.sessions.history ↔
        .created id ∈ given.sessions.history) := by
    intro route given
    have hrun := created_run server.storage id (huser.callback route given) given
    unfold runCallback
    dsimp only
    split
    · next hreturned => rwa [hreturned] at hrun
    · next hthrown => rwa [hthrown] at hrun
  cases hhandled : (server.onHeader user call).handled with
  | some handled =>
    obtain ⟨route, given⟩ := handled
    rw [onHeader_of_handled hhandled, hcallback] at hid
    refine (created_handleSession huser hcontrol (handled_onHeader hhandled) hid).imp_right ?_
    rintro ⟨-, hcookie, hshown⟩
    exact ⟨route, given, rfl, hid, hcookie, hshown⟩
  | none =>
    refine Or.inl ?_
    have hread : .created id ∈ (server.headerReadHandler user call).call.sessions.history ∧
        (server.headerReadHandler user call).handled = none := by
      unfold onHeader at hid hhandled
      dsimp only at hid hhandled
      split at hid
      · next hthrown =>
        rw [hthrown] at hhandled
        exact ⟨hid, hhandled⟩
      · next hnot =>
        split at hhandled
        · next what hthrown => exact absurd hthrown (hnot what)
        · exact ⟨hid, hhandled⟩
    obtain ⟨hid, hhandled⟩ := hread
    unfold headerReadHandler at hid hhandled
    split at hid
    · next route hroute =>
      rw [hroute] at hhandled
      dsimp only at hhandled
      split at hid
      · next hthrown =>
        exact (created_handleSession huser hcontrol hthrown hid).resolve_right (by simp)
      · next hadmitted =>
        rw [hadmitted] at hhandled
        cases hhandled
      · next hrefused =>
        exact (created_handleSession huser hcontrol hrefused hid).resolve_right (by simp)
    · split_ifs at hid
      · exact hid
      · split at hid
        · next onMissing honMissing =>
          have hrun := created_run server.storage id
            (huser.onMissing onMissing honMissing call) call
          split at hid
          · next hreturned =>
            rw [hreturned] at hrun
            exact hrun.mp hid
          · next hthrown =>
            rw [hthrown] at hrun
            exact hrun.mp hid
        · exact hid

/-! ### Whole runs -/

/-- The exceptions of the configuration, which let a request through without a session. -/
def Exempt (control : SessionControl) (h : Handled ι σ) : Prop :=
  (control.allowOptionsUnauthorized ∧ h.arrived.request.method = bytes "OPTIONS") ∨
    (control.disableAutomaticAuthentication ∧
      h.arrived.request.path = control.authenticationPath)

/-- A login: a request that shows a password which user code accepts, and that is given the id of a
new session. -/
structure IsLogin (control : SessionControl) (id : Bytes) (h : Handled ι σ) : Prop where
  shown : ∃ realm accept name pw, UsesBasic realm accept h.user ∧
    Shows h.arrived.request name pw ∧ accept name pw
  cookie : h.given.request.getCookie control.idCookieKey = some id
  fresh : .created id ∉ h.arrived.sessions.history
  created : .created id ∈ h.given.sessions.history

/-- What happens to a server on which only the session control makes sessions. -/
def IsBasic : ServerEvent ι σ → Prop
  | .request _ user => ∃ realm accept, UsesBasic realm accept user
  | .session op => op ≠ .makeSession

/-- What holds of the logins after every run. -/
structure LoginInv (server : HttpBasicServer ι σ) (control : SessionControl)
    (s : ServerState ι σ) : Prop where
  sessions : s.sessions.Inv server.storage
  /-- An id that has been given out was given out by a login. -/
  made : ∀ id, .created id ∈ s.sessions.history → ∃ login ∈ s.handled, IsLogin control id login
  /-- And what a login has been given is in the history. -/
  known : ∀ id, ∀ login ∈ s.handled, IsLogin control id login → .created id ∈ s.sessions.history
  unique : ∀ id, ∀ login ∈ s.handled, ∀ login' ∈ s.handled, IsLogin control id login →
    IsLogin control id login' → login' = login
  named : ∀ before h after, s.handled = before ++ h :: after → Exempt control h ∨
    ∃ id, h.given.request.getCookie control.idCookieKey = some id ∧
      ∃ login ∈ before ++ [h], IsLogin control id login

/-- A request whose handler is run is exempt, holds an id that was there, or is a login. -/
theorem exempt_or_named (hcontrol : server.sessionControl = some control)
    (hgenerator : Function.Injective server.storage.generateId)
    (hinv : call.sessions.Inv server.storage) (huser : UsesBasic realm accept user) {route : ι}
    (h : (server.onHeader user call).handled = some (route, given)) :
    let handled := { arrived := call, user := user, route := route, given := given }
    Exempt control handled ∨
      ∃ id, given.request.getCookie control.idCookieKey = some id ∧
        (.created id ∈ call.sessions.history ∨ IsLogin control id handled) := by
  intro handled
  have hsession := handled_onHeader h
  rw [handleSession, hcontrol] at hsession
  dsimp only at hsession
  split_ifs at hsession with hlive hoptions hdisabled hpath
  · cases hsession
    obtain ⟨id, hcookie, before, since, hhistory, -⟩ := (hinv.loadSession_eq_live_iff _ _).mp hlive
    refine Or.inr ⟨id, hcookie, Or.inl ?_⟩
    rw [hhistory]
    exact List.mem_append_right _ List.mem_cons_self
  · exact Or.inl (Or.inl hoptions)
  · cases hsession
  · exact Or.inl (Or.inr ⟨hdisabled, not_not.mp hpath⟩)
  · obtain ⟨asked, allowed, hasked, hallowed, -, rfl⟩ := authenticateSession_eq_true hsession
    have hreaches : SessionManager.Reaches server.storage call.sessions allowed.sessions := by
      have hcondition := reaches_condition server user call
      rw [hasked] at hcondition
      exact hcondition.trans (reaches_of_run hallowed)
    have hresult := congrArg Prod.snd hallowed
    rw [huser.tryPerform] at hresult
    obtain ⟨name, pw, hshown, haccept⟩ := BasicAuthorizer.allowedContinue_iff.mp hresult
    refine Or.inr ⟨(allowed.sessions.makeSession server.storage).2,
      RequestHeader.getCookie_patchCookie _ _ _, Or.inr ⟨?_, ?_, ?_, ?_⟩⟩
    · exact ⟨realm, accept, name, pw, huser,
        ((condition_basic huser hasked).2 name pw).mp hshown, haccept⟩
    · exact RequestHeader.getCookie_patchCookie _ _ _
    · intro hmem
      exact (hreaches.inv hinv).makeSession_fresh hgenerator (hreaches.mem_history hmem)
    · exact List.mem_append_right _ (List.mem_singleton.mpr rfl)

namespace LoginInv

variable {s s' : ServerState ι σ}

theorem of_unhandled (h : LoginInv server control s) (hsessions : s'.sessions.Inv server.storage)
    (hhandled : s'.handled = s.handled)
    (hhistory : ∀ id, .created id ∈ s'.sessions.history ↔ .created id ∈ s.sessions.history) :
    LoginInv server control s' where
  sessions := hsessions
  made id hid := by
    rw [hhandled]
    exact h.made id ((hhistory id).mp hid)
  known id login hlogin hid := by
    rw [hhandled] at hlogin
    exact (hhistory id).mpr (h.known id login hlogin hid)
  unique := by
    rw [hhandled]
    exact h.unique
  named := by
    rw [hhandled]
    exact h.named

theorem of_handled (h : LoginInv server control s) (hsessions : s'.sessions.Inv server.storage)
    {run : Handled ι σ} (hhandled : s'.handled = s.handled ++ [run])
    (harrived : run.arrived.sessions = s.sessions)
    (hkept : ∀ id, .created id ∈ s.sessions.history → .created id ∈ s'.sessions.history)
    (hgiven : ∀ id, .created id ∈ run.given.sessions.history → .created id ∈ s'.sessions.history)
    (hmade : ∀ id, .created id ∈ s'.sessions.history →
      .created id ∈ s.sessions.history ∨ IsLogin control id run)
    (hnamed : Exempt control run ∨ ∃ id, run.given.request.getCookie control.idCookieKey = some id ∧
      (.created id ∈ s.sessions.history ∨ IsLogin control id run)) :
    LoginInv server control s' where
  sessions := hsessions
  made id hid := by
    rw [hhandled]
    rcases hmade id hid with hid | hlogin
    · obtain ⟨login, hmem, hlogin⟩ := h.made id hid
      exact ⟨login, List.mem_append_left _ hmem, hlogin⟩
    · exact ⟨run, List.mem_append_right _ (List.mem_singleton.mpr rfl), hlogin⟩
  known id login hmem hlogin := by
    rw [hhandled, List.mem_append, List.mem_singleton] at hmem
    rcases hmem with hmem | rfl
    · exact hkept id (h.known id login hmem hlogin)
    · exact hgiven id hlogin.created
  unique id login hmem login' hmem' hlogin hlogin' := by
    -- The id of the new login is in no history that was there before it.
    have hold : ∀ login ∈ s.handled, IsLogin control id login → ¬ IsLogin control id run := by
      intro login hmem hlogin hrun
      refine hrun.fresh ?_
      rw [harrived]
      exact h.known id login hmem hlogin
    rw [hhandled, List.mem_append, List.mem_singleton] at hmem hmem'
    rcases hmem with hmem | rfl
    · rcases hmem' with hmem' | rfl
      · exact h.unique id login hmem login' hmem' hlogin hlogin'
      · exact absurd hlogin' (hold login hmem hlogin)
    · rcases hmem' with hmem' | rfl
      · exact absurd hlogin (hold login' hmem' hlogin')
      · rfl
  named before handled after hsplit := by
    rw [hhandled] at hsplit
    rcases List.eq_nil_or_concat after with rfl | ⟨after, last, rfl⟩
    · obtain ⟨rfl, hrun⟩ := List.append_inj' hsplit rfl
      obtain rfl := (List.cons.inj hrun).1
      refine hnamed.imp_right ?_
      rintro ⟨id, hcookie, hid | hlogin⟩
      · obtain ⟨login, hmem, hlogin⟩ := h.made id hid
        exact ⟨id, hcookie, login, List.mem_append_left _ hmem, hlogin⟩
      · exact ⟨id, hcookie, run, List.mem_append_right _ (List.mem_singleton.mpr rfl), hlogin⟩
    · rw [List.concat_eq_append, ← List.cons_append, ← List.append_assoc] at hsplit
      exact h.named before handled after (List.append_inj' hsplit rfl).1

theorem init : LoginInv server control {} where
  sessions := SessionManager.inv_init
  made _ hid := absurd hid List.not_mem_nil
  known _ _ hmem := absurd hmem List.not_mem_nil
  unique _ _ hmem := absurd hmem List.not_mem_nil
  named _ _ _ hsplit := absurd hsplit.symm (by simp)

/-- **One step** keeps what holds of the logins. -/
theorem step (hcontrol : server.sessionControl = some control)
    (hgenerator : Function.Injective server.storage.generateId) (h : LoginInv server control s)
    {e : ServerEvent ι σ} (he : IsBasic e) (hstep : server.step s e = some s') :
    LoginInv server control s' := by
  have hsessions : s'.sessions.Inv server.storage := (reaches_step hstep).inv h.sessions
  have hkept : ∀ id, .created id ∈ s.sessions.history → .created id ∈ s'.sessions.history :=
    fun id => (reaches_step hstep).mem_history
  cases e with
  | request request user =>
    obtain ⟨realm, accept, huser⟩ := he
    let arrived : Call σ := { request := request, sessions := s.sessions }
    have hmade : ∀ id, .created id ∈ (server.onHeader user arrived).call.sessions.history →
        .created id ∈ s.sessions.history ∨
          ∃ route given, (server.onHeader user arrived).handled = some (route, given) ∧
            .created id ∈ given.sessions.history ∧
              given.request.getCookie control.idCookieKey = some id ∧
                ∃ name pw, Shows request name pw ∧ accept name pw :=
      fun _ => created_onHeader huser hcontrol
    cases hanswer : (server.onHeader user arrived).handled with
    | none =>
      have hhandled : s'.handled = s.handled := by
        cases hstep
        show s.handled ++ ((server.onHeader user arrived).handled.map _).toList = _
        rw [hanswer]
        exact List.append_nil _
      refine h.of_unhandled hsessions hhandled (fun id => ⟨fun hid => ?_, hkept id⟩)
      cases hstep
      refine (hmade id hid).resolve_right ?_
      rintro ⟨route, given, hhandled, -⟩
      rw [hanswer] at hhandled
      cases hhandled
    | some handled =>
      obtain ⟨route, given⟩ := handled
      have hhandled : s'.handled =
          s.handled ++ [{ arrived := arrived, user := user, route := route, given := given }] := by
        cases hstep
        show s.handled ++ ((server.onHeader user arrived).handled.map _).toList = _
        rw [hanswer]
        rfl
      refine h.of_handled hsessions hhandled rfl hkept (fun id hid => ?_) (fun id hid => ?_)
        (exempt_or_named hcontrol hgenerator h.sessions huser hanswer)
      · cases hstep
        show _ ∈ (server.onHeader user arrived).call.sessions.history
        rw [onHeader_of_handled hanswer]
        exact (reaches_runCallback server user route given).mem_history hid
      · by_cases hold : .created id ∈ s.sessions.history
        · exact Or.inl hold
        · cases hstep
          refine (hmade id hid).imp_right ?_
          rintro ⟨route', given', hhandled', hid', hcookie, name, pw, hshown, haccept⟩
          rw [hanswer, Option.some.injEq, Prod.mk.injEq] at hhandled'
          obtain ⟨-, rfl⟩ := hhandled'
          exact ⟨⟨realm, accept, name, pw, huser, hshown, haccept⟩, hcookie, hold, hid'⟩
  | session op =>
    cases hstep
    refine h.of_unhandled hsessions rfl (fun id => ?_)
    show _ ∈ (s.sessions.apply server.storage op).history ↔ _
    rw [SessionManager.history_apply, List.mem_append]
    refine or_iff_left ?_
    cases op with
    | makeSession => exact absurd rfl he
    | terminateSession id => simp [SessionManager.added]
    | saveSession id session => simp [SessionManager.added]
    | clear => simp [SessionManager.added]

end LoginInv

/-- **Every request acts for somebody**: when only the session control makes sessions, a handler is
run for an exempt request, or with the id of a session that one login has been given, now or before,
for a password that user code had accepted. -/
theorem login_provenance (server : HttpBasicServer ι σ)
    (hgenerator : Function.Injective server.storage.generateId) (control : SessionControl)
    (hcontrol : server.sessionControl = some control) (events : List (ServerEvent ι σ))
    (hevents : ∀ e ∈ events, IsBasic e) (s : ServerState ι σ)
    (hrun : run server.step {} events = some s) (before : List (Handled ι σ)) (h : Handled ι σ)
    (after : List (Handled ι σ)) (hh : s.handled = before ++ h :: after) :
    Exempt control h ∨
      ∃ id, h.given.request.getCookie control.idCookieKey = some id ∧
        ∃ login ∈ before ++ [h], IsLogin control id login ∧
          ∀ login' ∈ s.handled, IsLogin control id login' → login' = login := by
  have hinv : LoginInv server control s :=
    run_invariant (A := IsBasic) (I := LoginInv server control)
      (fun _ _ _ he h hstep => h.step hcontrol hgenerator he hstep) hevents .init hrun
  refine (hinv.named before h after hh).imp_right ?_
  rintro ⟨id, hcookie, login, hmem, hlogin⟩
  have hmem' : login ∈ s.handled := by
    rw [hh, List.append_cons]
    exact List.mem_append_left _ hmem
  exact ⟨id, hcookie, login, hmem, hlogin,
    fun login' hlogin'' hlogin' => hinv.unique id login hmem' login' hlogin'' hlogin hlogin'⟩

/-- User code that knows one user. -/
def passwordCode : UserCode Unit Bytes where
  tryPerformAuthorization := BasicAuthorizer.tryPerformAuthorization
    fun name pw => name = bytes "u" ∧ pw = bytes "p"
  negotiateAuthorizationMethod := fun _ => BasicAuthorizer.negotiateAuthorizationMethod (bytes "r")
  callback := fun _ _ => { ops := [.response (.sendStatus 200)], result := .ok () }

theorem usesBasic_passwordCode :
    UsesBasic (bytes "r") (fun name pw => name = bytes "u" ∧ pw = bytes "p") passwordCode where
  tryPerform := rfl
  negotiate := rfl
  conditioner := by simp [passwordCode]
  callback := by simp [passwordCode, MakesNone]
  onMissing := by simp [passwordCode]

/-- A request with credentials, and one with the cookie of the session. -/
def passwordEvents : List (ServerEvent Unit Bytes) :=
  let plain : RequestHeader := { method := bytes "GET", path := bytes "/" }
  [.request { plain with fields := AList.singleton (bytes "Authorization") (bytes "Basic dTpw") }
      passwordCode,
    .request (plain.patchCookie (bytes "sid") (bytes "x")) passwordCode]

/-- Both run the handler, the second one in the name of the first one. -/
theorem login_provenance_password :
    ∃ s first second, run loginServer.step {} passwordEvents = some s ∧
      s.handled = [first, second] ∧
        ∃ id login, second.given.request.getCookie (bytes "sid") = some id ∧
          login ∈ [first, second] ∧ IsLogin { idCookieKey := bytes "sid" } id login := by
  have hevents : ∀ e ∈ passwordEvents, IsBasic e := by
    simp only [passwordEvents, List.forall_mem_cons, List.not_mem_nil, false_imp_iff, implies_true,
      and_true]
    exact ⟨⟨_, _, usesBasic_passwordCode⟩, ⟨_, _, usesBasic_passwordCode⟩⟩
  have hgenerator : Function.Injective loginServer.storage.generateId := fun n m h =>
    Nat.succ_injective (List.replicate_left_injective _ h)
  refine ⟨_, _, _, rfl, rfl, ?_⟩
  rcases login_provenance loginServer hgenerator _ rfl passwordEvents hevents _ rfl [_] _ [] rfl
    with hexempt | ⟨id, hcookie, login, hmem, hlogin, -⟩
  · exact absurd hexempt (by simp [Exempt])
  · exact ⟨id, login, hcookie, hmem, hlogin⟩

end Attender.Http.HttpBasicServer
