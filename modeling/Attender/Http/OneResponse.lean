import Attender.Http.SessionGate

/-!
# One response for a refused request

How many responses the session control starts. The conclusion is observed from
the moment the conditioner has returned, so a response that the conditioner has
started is not seen unless something has observed it already, and the authorizer
is asked in any case.
-/

namespace Attender.Http

open Attender.Library Attender.Session

/-! ### What user code starts -/

/-- How many responses a run of user code starts. -/
def UserRun.starts {σ ρ : Type} (code : UserRun σ ρ) : Nat := code.ops.countP UserOp.concludes

/-- A run of user code ends with an exception. -/
def UserRun.Throws {σ ρ : Type} (code : UserRun σ ρ) : Prop := ∃ e, code.result = .error e

/-- The operations that make an observer: `send_chunked` does before it starts its response. -/
def UserOp.observes {σ : Type} : UserOp σ → Bool
  | .response .observeConclusion | .response (.sendChunked _) => true
  | _ => false

/-- Some operation starts a response that is observed. -/
def observedStart {σ : Type} : Bool → List (UserOp σ) → Bool
  | _, [] => false
  | observed, op :: ops =>
    (op.concludes && (observed || op.observes)) || observedStart (observed || op.observes) ops

/-- The conditioner and the authorizer start at most one response each time, and the negotiation
starts one. -/
structure StartsAtMostOne {ι σ : Type} (user : UserCode ι σ) : Prop where
  conditioner : ∀ conditioner, user.conditioner = some conditioner →
    ∀ call, (conditioner call).starts ≤ 1
  tryPerformAuthorization : ∀ call, (user.tryPerformAuthorization call).starts ≤ 1
  negotiateAuthorizationMethod : ∀ call, (user.negotiateAuthorizationMethod call).starts = 1

section Runs

variable {σ ρ : Type} {p : StorageParams σ}

/-- What starts a response asks one thing of the connection, and nothing else does. -/
theorem length_apply (r : ResponseHandler) (op : ResponseOp) :
    (r.apply op).2.length = if op.concludes then 1 else 0 := by
  by_cases hop : op.concludes
  · obtain ⟨r', k, -, e⟩ := r.apply_of_concludes hop
    rw [e, if_pos hop]
    cases hsent : r'.headerSent with
    | false =>
      obtain ⟨_, _, e, -⟩ := ResponseHandler.sendHeader_of_open hsent k
      rw [e]
      rfl
    | true =>
      obtain ⟨_, e, -⟩ := ResponseHandler.sendHeader_of_sent hsent k
      rw [e]
      rfl
  · obtain ⟨r', -, e⟩ := r.apply_of_not_concludes hop
    rw [e, if_neg hop]
    rfl

theorem effects_apply (call : Call σ) (op : UserOp σ) :
    (call.apply p op).effects.length = call.effects.length + if op.concludes then 1 else 0 := by
  cases op with
  | response op => rw [Call.apply, Call.respond, List.length_append, length_apply, UserOp.concludes]
  | patchCookie key value => rfl
  | session op => rfl

theorem effects_endWith (call : Call σ) (code : Int) :
    (call.endWith code).effects.length = call.effects.length + 1 := by
  have hend := length_apply (call.response.status code) .end_
  rw [Call.endWith, Call.respond, List.length_append]
  exact congrArg (call.effects.length + ·) hend

theorem effects_run (call : Call σ) (code : UserRun σ ρ) :
    (call.run p code).1.effects.length = call.effects.length + code.starts := by
  rw [Call.run, UserRun.starts]
  induction code.ops generalizing call with
  | nil => rfl
  | cons op ops ih =>
    rw [List.foldl_cons, ih, effects_apply, List.countP_cons]
    omega

/-- An operation is observed from the first one on that makes an observer. -/
theorem observed_apply (call : Call σ) (op : UserOp σ) :
    (call.apply p op).response.observer.isSome =
        (call.response.observer.isSome || op.observes) ∧
      (call.apply p op).hasConcluded =
        (call.hasConcluded ||
          (op.concludes && (call.response.observer.isSome || op.observes))) := by
  cases op with
  | response op =>
    cases hobserver : call.response.observer with
    | some o =>
      have hsome : call.response.observer.isSome := by rw [hobserver, Option.isSome_some]
      obtain ⟨hobserved, hconcluded⟩ := ResponseHandler.concluded_apply hsome op
      rw [Option.isSome_some, Bool.true_or, Bool.and_true]
      exact ⟨hobserved, hconcluded⟩
    | none =>
      have hfresh : ({} : ConclusionObserver).hasConcluded = false := rfl
      cases op <;>
        simp [Call.apply, Call.respond, Call.hasConcluded, ResponseHandler.apply,
          ResponseHandler.concluded, UserOp.observes, UserOp.concludes, ResponseOp.concludes,
          hobserver, hfresh, ResponseHandler.append, ResponseHandler.setCookie,
          ResponseHandler.observeConclusion, ResponseHandler.sendChunked]
  | patchCookie key value =>
    simp [Call.apply, Call.hasConcluded, UserOp.observes, UserOp.concludes]
  | session op => simp [Call.apply, Call.hasConcluded, UserOp.observes, UserOp.concludes]

theorem hasConcluded_ops (call : Call σ) (ops : List (UserOp σ)) :
    (ops.foldl (Call.apply p) call).hasConcluded =
      (call.hasConcluded || observedStart call.response.observer.isSome ops) := by
  induction ops generalizing call with
  | nil => rw [List.foldl_nil, observedStart, Bool.or_false]
  | cons op ops ih =>
    obtain ⟨hobserver, hconcluded⟩ := observed_apply (p := p) call op
    rw [List.foldl_cons, ih, hobserver, hconcluded, observedStart, Bool.or_assoc]

theorem exists_of_observedStart {observed : Bool} {ops : List (UserOp σ)}
    (h : observedStart observed ops) : ∃ op ∈ ops, op.concludes := by
  induction ops generalizing observed with
  | nil => cases h
  | cons op ops ih =>
    rw [observedStart, Bool.or_eq_true, Bool.and_eq_true] at h
    rcases h with ⟨hop, -⟩ | h
    · exact ⟨op, List.mem_cons_self .., hop⟩
    · obtain ⟨op', hmem, hop'⟩ := ih h
      exact ⟨op', List.mem_cons_of_mem op hmem, hop'⟩

/-- An observed response has been started. -/
theorem starts_of_observedStart {code : UserRun σ ρ} {observed : Bool}
    (h : observedStart observed code.ops) : 0 < code.starts := by
  rw [UserRun.starts, List.countP_pos_iff]
  exact exists_of_observedStart h

end Runs

namespace HttpBasicServer

variable {ι σ : Type} (server : HttpBasicServer ι σ)

/-! ### The session control -/

/-- The request reaches `authenticate_session`. -/
structure Authenticates (control : SessionControl) (call : Call σ) : Prop where
  installed : server.sessionControl = some control
  notLive : call.sessions.loadSession control.idCookieKey call.request ≠ .live
  notOptions : ¬ (control.allowOptionsUnauthorized ∧ call.request.method = bytes "OPTIONS")
  automatic : ¬ control.disableAutomaticAuthentication

/-- If `handle_session` returns `true` no response has been started, and if it returns `false` one
has. -/
def OneResponse (user : UserCode ι σ) (call : Call σ) : Prop :=
  ∀ b, (server.handleSession user call).2 = .ok b →
    (server.handleSession user call).1.effects.length = call.effects.length + if b then 0 else 1

/-- Nothing answers beside the conditioner: it starts no response, or an observed one and then the
authorizer starts none; or some of the user code throws. -/
def ConditionerAlone (user : UserCode ι σ) (conditioner : Call σ → UserRun σ Unit)
    (call : Call σ) : Prop :=
  let conditioned := conditioner call
  let asked := (server.condition user call).1
  let tried := user.tryPerformAuthorization asked
  let negotiating := (asked.run server.storage tried).1
  conditioned.starts = 0 ∨ (observedStart false conditioned.ops ∧ tried.starts = 0) ∨
    conditioned.Throws ∨ tried.Throws ∨
      (tried.result = .ok .negotiate ∧ tried.starts = 0 ∧
        (user.negotiateAuthorizationMethod negotiating).Throws)

variable {server} {control : SessionControl} {user : UserCode ι σ} {call after : Call σ}

/-- **The `switch`** starts one response if it refuses the request. -/
theorem effects_conclude (huser : StartsAtMostOne user) (hopen : call.hasConcluded = false)
    {result : AuthorizationResult} {b : Bool}
    (h : server.conclude control user call result = (after, .ok b)) :
    after.effects.length = call.effects.length + if b then 0 else 1 := by
  have hmade : (server.makeSession control call).hasConcluded = false := hopen
  cases result with
  | denied =>
    rw [conclude, if_pos (by simp [hopen])] at h
    cases h
    exact effects_endWith call 401
  | negotiate =>
    have hrun := effects_run (p := server.storage) call (user.negotiateAuthorizationMethod call)
    rw [huser.negotiateAuthorizationMethod] at hrun
    rw [conclude] at h
    split at h
    · cases h
    · next hreturned =>
      cases h
      rw [hreturned] at hrun
      exact hrun
  | allowedContinue =>
    cases h
    rfl
  | allowedButStop =>
    simp only [conclude, hmade, Bool.false_eq_true, not_false_iff, if_true] at h
    cases h
    exact effects_endWith (server.makeSession control call) 204
  | badRequest =>
    rw [conclude, if_pos (by simp [hopen])] at h
    cases h
    exact effects_endWith call 400
  | unknown =>
    cases h
    exact effects_apply (p := server.storage) call (.response .end_)

/-- The `switch` returns, unless the negotiation throws. -/
theorem conclude_returns (server : HttpBasicServer ι σ) (control : SessionControl)
    {result : AuthorizationResult}
    (h : result = .negotiate → ¬ (user.negotiateAuthorizationMethod call).Throws) :
    ∃ after b, server.conclude control user call result = (after, .ok b) := by
  cases result with
  | denied => exact ⟨_, _, rfl⟩
  | negotiate =>
    cases hresult : (user.negotiateAuthorizationMethod call).result with
    | error e => exact absurd ⟨e, hresult⟩ (h rfl)
    | ok u =>
      refine ⟨(call.run server.storage (user.negotiateAuthorizationMethod call)).1, false, ?_⟩
      simp only [conclude, Call.run, hresult]
  | allowedContinue => exact ⟨_, _, rfl⟩
  | allowedButStop => exact ⟨_, _, rfl⟩
  | badRequest => exact ⟨_, _, rfl⟩
  | unknown => exact ⟨_, _, rfl⟩

theorem conclude_throws {e : Thrown}
    (h : (user.negotiateAuthorizationMethod call).result = .error e) :
    server.conclude control user call .negotiate =
      ((call.run server.storage (user.negotiateAuthorizationMethod call)).1, .error e) := by
  simp only [conclude, Call.run, h]

/-- **What is started once the authorizer is asked**: if something has been observed by then, or the
authorizer starts a response, nothing more; and else one response unless the request goes on. -/
theorem authenticateSession_cases {asked : Call σ}
    (hasked : server.condition user call = (asked, .ok ())) {result : AuthorizationResult}
    (hresult : (user.tryPerformAuthorization asked).result = .ok result) :
    let tried := user.tryPerformAuthorization asked
    ((asked.hasConcluded ∨ 0 < tried.starts) ∧ ∃ after,
        server.authenticateSession control user call = (after, .ok false) ∧
          after.effects.length = asked.effects.length + tried.starts) ∨
      (asked.hasConcluded = false ∧ tried.starts = 0 ∧
        server.authenticateSession control user call =
          server.conclude control user (asked.run server.storage tried).1 result ∧
        (asked.run server.storage tried).1.hasConcluded = false ∧
        (asked.run server.storage tried).1.effects.length = asked.effects.length) := by
  have hconcluded := hasConcluded_run (p := server.storage) (observed_condition hasked)
    (user.tryPerformAuthorization asked)
  have heffects := effects_run (p := server.storage) asked (user.tryPerformAuthorization asked)
  have hauth : server.authenticateSession control user call =
      if (asked.run server.storage (user.tryPerformAuthorization asked)).1.hasConcluded then
        ((asked.run server.storage (user.tryPerformAuthorization asked)).1, .ok false)
      else server.conclude control user
        (asked.run server.storage (user.tryPerformAuthorization asked)).1 result := by
    simp only [authenticateSession, hasked, Call.run, hresult]
  have hany : (user.tryPerformAuthorization asked).ops.any UserOp.concludes ↔
      0 < (user.tryPerformAuthorization asked).starts := by
    rw [UserRun.starts, List.countP_pos_iff, List.any_eq_true]
  rw [hauth, hconcluded]
  dsimp only
  by_cases hdone : asked.hasConcluded ∨ 0 < (user.tryPerformAuthorization asked).starts
  · refine Or.inl ⟨hdone, _, if_pos ?_, heffects⟩
    rw [Bool.or_eq_true, hany]
    exact hdone
  · rw [not_or, Bool.not_eq_true] at hdone
    have hnone : (user.tryPerformAuthorization asked).ops.any UserOp.concludes = false := by
      rw [← Bool.not_eq_true, hany]
      exact hdone.2
    refine Or.inr ⟨hdone.1, by omega, if_neg ?_, ?_, by omega⟩
    · rw [hdone.1, hnone]
      decide
    · rw [hconcluded, hdone.1, hnone]
      rfl

/-- Observing the conclusion concludes nothing. -/
theorem hasConcluded_observeConclusion (call : Call σ) :
    Call.hasConcluded { call with response := call.response.observeConclusion } =
      call.hasConcluded := by
  rw [Call.hasConcluded, Call.hasConcluded, ResponseHandler.concluded, ResponseHandler.concluded,
    ResponseHandler.observeConclusion]
  cases call.response.observer <;> rfl

/-- **What the conditioner leaves**: the responses it has started, of which those that are observed
have been concluded. -/
theorem condition_of_some (server : HttpBasicServer ι σ) {conditioner : Call σ → UserRun σ Unit}
    (hconditioner : user.conditioner = some conditioner) (hfresh : call.response.observer = none)
    (hresult : (conditioner call).result = .ok ()) :
    ∃ asked, server.condition user call = (asked, .ok ()) ∧
      asked.effects.length = call.effects.length + (conditioner call).starts ∧
        asked.hasConcluded = observedStart false (conditioner call).ops := by
  have heffects := effects_run (p := server.storage) call (conditioner call)
  have hconcluded := hasConcluded_ops (p := server.storage) call (conditioner call).ops
  have hnone : call.hasConcluded = false := by
    rw [Call.hasConcluded, ResponseHandler.concluded, hfresh]
    rfl
  rw [hnone, hfresh, Bool.false_or, Option.isSome_none] at hconcluded
  refine ⟨{ (call.run server.storage (conditioner call)).1 with
    response := (call.run server.storage (conditioner call)).1.response.observeConclusion },
    ?_, heffects, (hasConcluded_observeConclusion _).trans hconcluded⟩
  simp only [condition, hconditioner, Call.run, hresult]

theorem handleSession_of_authenticates (h : server.Authenticates control call) :
    server.handleSession user call = server.authenticateSession control user call := by
  simp only [handleSession, h.installed]
  rw [if_neg h.notLive, if_neg h.notOptions, if_neg h.automatic]

/-- What one response comes to, where `handle_session` returns. -/
theorem oneResponse_iff_of_eq {b : Bool} (h : server.handleSession user call = (after, .ok b)) :
    server.OneResponse user call ↔
      after.effects.length = call.effects.length + if b then 0 else 1 := by
  rw [OneResponse, h]
  constructor
  · intro hall
    exact hall b rfl
  · intro hone b' hb
    cases hb
    exact hone

theorem oneResponse_of_error {e : Thrown} (h : server.handleSession user call = (after, .error e)) :
    server.OneResponse user call := by
  intro b hb
  rw [h] at hb
  cases hb

/-- A request that does not reach `authenticate_session` goes on, or is refused with one
response. -/
theorem oneResponse_of_not_authenticates (h : ∀ control, ¬ server.Authenticates control call) :
    server.OneResponse user call := by
  cases hcontrol : server.sessionControl with
  | none =>
    refine (oneResponse_iff_of_eq (b := true) ?_).mpr rfl
    simp only [handleSession, hcontrol]
  | some control =>
    by_cases hlive : call.sessions.loadSession control.idCookieKey call.request = .live
    · refine (oneResponse_iff_of_eq (b := true) ?_).mpr rfl
      simp only [handleSession, hcontrol, if_pos hlive]
    by_cases hoptions : control.allowOptionsUnauthorized ∧ call.request.method = bytes "OPTIONS"
    · refine (oneResponse_iff_of_eq (b := true) ?_).mpr rfl
      simp only [handleSession, hcontrol, if_neg hlive, if_pos hoptions]
    by_cases hdisabled : control.disableAutomaticAuthentication = true
    · by_cases hpath : call.request.path ≠ control.authenticationPath
      · refine (oneResponse_iff_of_eq (b := false) ?_).mpr (effects_endWith call 401)
        simp only [handleSession, hcontrol, if_neg hlive, if_neg hoptions, if_pos hdisabled,
          if_pos hpath]
      · refine (oneResponse_iff_of_eq (b := true) ?_).mpr rfl
        simp only [handleSession, hcontrol, if_neg hlive, if_neg hoptions, if_pos hdisabled,
          if_neg hpath]
    · exact absurd ⟨hcontrol, hlive, hoptions, hdisabled⟩ (h control)

/-- Once the authorizer is asked, and it returns, there is one response exactly if the conditioner
has started none, or if it has been observed and the authorizer starts none. -/
theorem oneResponse_of_returns (huser : StartsAtMostOne user)
    (hauth : server.Authenticates control call) {asked : Call σ}
    (hasked : server.condition user call = (asked, .ok ())) {n : Nat} (hn : n ≤ 1)
    (heffects : asked.effects.length = call.effects.length + n)
    (hobserved : asked.hasConcluded → n ≠ 0) {result : AuthorizationResult}
    (hresult : (user.tryPerformAuthorization asked).result = .ok result)
    (hreturns : asked.hasConcluded = false → (user.tryPerformAuthorization asked).starts = 0 →
      result = .negotiate → ¬ (user.negotiateAuthorizationMethod
        (asked.run server.storage (user.tryPerformAuthorization asked)).1).Throws) :
    server.OneResponse user call ↔
      n = 0 ∨ (asked.hasConcluded ∧ (user.tryPerformAuthorization asked).starts = 0) := by
  have htried := huser.tryPerformAuthorization asked
  have hsession : server.handleSession user call = server.authenticateSession control user call :=
    handleSession_of_authenticates hauth
  rcases authenticateSession_cases hasked hresult with
    ⟨hdone, after, e, hafter⟩ | ⟨hopen, hnone, e, hopen', hsame⟩
  · -- nothing more is started, and the request is refused
    rw [oneResponse_iff_of_eq (hsession.trans e), hafter, heffects, if_neg Bool.false_ne_true]
    constructor
    · intro h
      rcases hdone with hdone | hdone
      · have hstarted := hobserved hdone
        exact Or.inr ⟨hdone, by omega⟩
      · exact Or.inl (by omega)
    · rintro (h | ⟨h, hzero⟩)
      · have hstarts := hdone.resolve_left fun hc => hobserved hc h
        omega
      · have hstarted := hobserved h
        omega
  · -- the `switch` starts one response, unless the request goes on
    obtain ⟨after, b, hconclude⟩ := conclude_returns server control (hreturns hopen hnone)
    have hafter := effects_conclude huser hopen' hconclude
    rw [oneResponse_iff_of_eq (hsession.trans (e.trans hconclude)), hafter, hsame, heffects]
    constructor
    · intro h
      exact Or.inl (by omega)
    · rintro (h | ⟨h, -⟩)
      · omega
      · rw [hopen] at h
        cases h

/-- So it is whether or not the authorizer returns: when user code throws, nothing is returned. -/
theorem oneResponse_of_asked (huser : StartsAtMostOne user)
    (hauth : server.Authenticates control call) {asked : Call σ}
    (hasked : server.condition user call = (asked, .ok ())) {n : Nat} (hn : n ≤ 1)
    (heffects : asked.effects.length = call.effects.length + n)
    (hobserved : asked.hasConcluded → n ≠ 0) :
    let tried := user.tryPerformAuthorization asked
    server.OneResponse user call ↔
      n = 0 ∨ (asked.hasConcluded ∧ tried.starts = 0) ∨ tried.Throws ∨
        (tried.result = .ok .negotiate ∧ tried.starts = 0 ∧
          (user.negotiateAuthorizationMethod (asked.run server.storage tried).1).Throws) := by
  dsimp only
  have hsession : server.handleSession user call = server.authenticateSession control user call :=
    handleSession_of_authenticates hauth
  cases hresult : (user.tryPerformAuthorization asked).result with
  | error e =>
    have hthrown : server.authenticateSession control user call =
        ((asked.run server.storage (user.tryPerformAuthorization asked)).1, .error e) := by
      simp only [authenticateSession, hasked, Call.run, hresult]
    exact iff_of_true (oneResponse_of_error (hsession.trans hthrown))
      (Or.inr (Or.inr (Or.inl ⟨e, hresult⟩)))
  | ok result =>
    by_cases hnegotiates : asked.hasConcluded = false ∧ result = .negotiate ∧
        (user.tryPerformAuthorization asked).starts = 0 ∧ (user.negotiateAuthorizationMethod
          (asked.run server.storage (user.tryPerformAuthorization asked)).1).Throws
    · obtain ⟨hopen, rfl, hnone, hthrows⟩ := hnegotiates
      rcases authenticateSession_cases hasked hresult with ⟨hdone, -⟩ | ⟨-, -, e, -⟩
      · rw [hopen, hnone] at hdone
        simp at hdone
      · obtain ⟨e', he'⟩ := hthrows
        exact iff_of_true (oneResponse_of_error (hsession.trans (e.trans (conclude_throws he'))))
          (Or.inr (Or.inr (Or.inr ⟨rfl, hnone, e', he'⟩)))
    · have hreturns := oneResponse_of_returns huser hauth hasked hn heffects hobserved hresult
        fun hopen hnone hnegotiate hthrows =>
          hnegotiates ⟨hopen, hnegotiate, hnone, hthrows⟩
      rw [hreturns]
      constructor
      · rintro (h | h)
        · exact Or.inl h
        · exact Or.inr (Or.inl h)
      · rintro (h | h | ⟨e, h⟩ | ⟨h, hnone, hthrows⟩)
        · exact Or.inl h
        · exact Or.inr h
        · rw [hresult] at h
          cases h
        · -- the conditioner's response has been observed, so there is no negotiation
          rw [Except.ok.injEq] at h
          have hconcluded : asked.hasConcluded := by
            rw [← Bool.not_eq_false]
            intro hopen
            exact hnegotiates ⟨hopen, h, hnone, hthrows⟩
          exact Or.inr ⟨hconcluded, hnone⟩

/-- Without a conditioner nothing has been started when the authorizer is asked. -/
theorem oneResponse_of_no_conditioner (huser : StartsAtMostOne user)
    (hauth : server.Authenticates control call) (hconditioner : user.conditioner = none)
    (hfresh : call.response.observer = none) : server.OneResponse user call := by
  have hasked : server.condition user call =
      ({ call with response := call.response.observeConclusion }, .ok ()) := by
    simp only [condition, hconditioner]
  have hopen : Call.hasConcluded { call with response := call.response.observeConclusion } =
      false := by
    rw [hasConcluded_observeConclusion, Call.hasConcluded, ResponseHandler.concluded, hfresh]
    rfl
  exact (oneResponse_of_asked huser hauth hasked (Nat.zero_le 1) rfl
    (by rw [hopen]; exact fun h => absurd h Bool.false_ne_true)).mpr (Or.inl rfl)

/-- With one, there is one response exactly if nothing answers beside it. -/
theorem oneResponse_of_conditioner (huser : StartsAtMostOne user)
    (hauth : server.Authenticates control call) {conditioner : Call σ → UserRun σ Unit}
    (hconditioner : user.conditioner = some conditioner)
    (hfresh : call.response.observer = none) :
    server.OneResponse user call ↔ server.ConditionerAlone user conditioner call := by
  cases hconditioned : (conditioner call).result with
  | error e =>
    have hthrown : server.authenticateSession control user call =
        ((call.run server.storage (conditioner call)).1, .error e) := by
      simp only [authenticateSession, condition, hconditioner, Call.run, hconditioned]
    exact iff_of_true
      (oneResponse_of_error ((handleSession_of_authenticates hauth).trans hthrown))
      (Or.inr (Or.inr (Or.inl ⟨e, hconditioned⟩)))
  | ok u =>
    obtain ⟨asked, hasked, heffects, hobserved⟩ :=
      condition_of_some server hconditioner hfresh hconditioned
    have hstarted : asked.hasConcluded → (conditioner call).starts ≠ 0 := by
      rw [hobserved]
      intro h
      exact Nat.pos_iff_ne_zero.mp (starts_of_observedStart h)
    have hiff := oneResponse_of_asked huser hauth hasked
      (huser.conditioner conditioner hconditioner call) heffects hstarted
    dsimp only at hiff
    rw [hiff, ConditionerAlone, hasked, hobserved]
    dsimp only
    constructor
    · rintro (h | h | h | h)
      · exact Or.inl h
      · exact Or.inr (Or.inl h)
      · exact Or.inr (Or.inr (Or.inr (Or.inl h)))
      · exact Or.inr (Or.inr (Or.inr (Or.inr h)))
    · rintro (h | h | ⟨e, h⟩ | h | h)
      · exact Or.inl h
      · exact Or.inr (Or.inl h)
      · rw [hconditioned] at h
        cases h
      · exact Or.inr (Or.inr (Or.inl h))
      · exact Or.inr (Or.inr (Or.inr h))

/-! ### One response -/

/-- **When there is one response for a refused request**: exactly if, for a request that reaches
`authenticate_session`, nothing answers beside the conditioner. -/
theorem one_response_iff (server : HttpBasicServer ι σ) (user : UserCode ι σ)
    (huser : StartsAtMostOne user) (request : RequestHeader) (sessions : SessionManager σ) :
    server.OneResponse user { request := request, sessions := sessions } ↔
      ∀ control conditioner,
        server.Authenticates control { request := request, sessions := sessions } →
        user.conditioner = some conditioner →
        server.ConditionerAlone user conditioner { request := request, sessions := sessions } := by
  generalize hcall : ({ request := request, sessions := sessions } : Call σ) = call
  have hfresh : call.response.observer = none := by rw [← hcall]
  by_cases hauth : ∃ control, server.Authenticates control call
  swap
  · rw [not_exists] at hauth
    exact iff_of_true (oneResponse_of_not_authenticates hauth)
      fun control _ h => absurd h (hauth control)
  obtain ⟨control, hauth⟩ := hauth
  have honly : (∀ control conditioner, server.Authenticates control call →
      user.conditioner = some conditioner → server.ConditionerAlone user conditioner call) ↔
        ∀ conditioner, user.conditioner = some conditioner →
          server.ConditionerAlone user conditioner call := by
    constructor
    · intro h conditioner
      exact h control conditioner hauth
    · intro h _ conditioner _
      exact h conditioner
  rw [honly]
  cases hconditioner : user.conditioner with
  | none =>
    exact iff_of_true (oneResponse_of_no_conditioner huser hauth hconditioner hfresh) nofun
  | some conditioner =>
    simp only [Option.some.injEq, forall_eq']
    exact oneResponse_of_conditioner huser hauth hconditioner hfresh

/-- User code whose conditioner ends the response, and whose authorizer then comes to this
result. -/
def endingCode (result : AuthorizationResult) : UserCode Unit Bytes where
  conditioner := some fun _ => { ops := [.response .end_], result := .ok () }
  tryPerformAuthorization := fun _ => { result := .ok result }
  negotiateAuthorizationMethod := fun _ =>
    { ops := [.response (.sendStatus 401)], result := .ok () }
  callback := fun _ _ => { result := .ok () }

theorem endingCode_startsAtMostOne (result : AuthorizationResult) :
    StartsAtMostOne (endingCode result) where
  conditioner := by
    intro conditioner h call
    cases h
    exact Nat.le_refl 1
  tryPerformAuthorization := fun _ => Nat.zero_le 1
  negotiateAuthorizationMethod := fun _ => rfl

/-- An authorizer that denies such a request has it ended a second time. -/
theorem one_response_iff_ending :
    StartsAtMostOne (endingCode .denied) ∧
      (loginServer.OneResponse (endingCode .denied)
          { request := { method := bytes "GET", path := bytes "/" }, sessions := {} } ↔
        ∀ control conditioner,
          loginServer.Authenticates control
            { request := { method := bytes "GET", path := bytes "/" }, sessions := {} } →
          (endingCode .denied).conditioner = some conditioner →
          loginServer.ConditionerAlone (endingCode .denied) conditioner
            { request := { method := bytes "GET", path := bytes "/" }, sessions := {} }) :=
  ⟨endingCode_startsAtMostOne .denied,
    one_response_iff loginServer (endingCode .denied) (endingCode_startsAtMostOne .denied)
      { method := bytes "GET", path := bytes "/" } {}⟩

/-- Not every refused request has one response. -/
theorem not_one_response_ending :
    ¬ ∀ (server : HttpBasicServer Unit Bytes) (user : UserCode Unit Bytes), StartsAtMostOne user →
      ∀ (request : RequestHeader) (sessions : SessionManager Bytes),
        server.OneResponse user { request := request, sessions := sessions } := by
  intro h
  have hone := h loginServer (endingCode .denied) (endingCode_startsAtMostOne .denied)
    { method := bytes "GET", path := bytes "/" } {} false rfl
  have htwo : (loginServer.handleSession (endingCode .denied)
      { request := { method := bytes "GET", path := bytes "/" },
        sessions := {} }).1.effects.length = 2 := rfl
  rw [htwo] at hone
  cases hone

end HttpBasicServer

end Attender.Http
