import Attender.Http.SessionGate

/-!
# The life of a session

Whatever a request does to the sessions is a sequence of uses of their manager,
also when user code throws. So the history of the storage only grows, and with a
generator that does not repeat itself a session has one life: from when it is
made it is found until it is terminated or all sessions are cleared, and after
that it is never found again (`session_life`).
-/

namespace Attender.Session

open Attender.Library Attender.Http

variable {σ : Type} {p : StorageParams σ} {m m' m'' : SessionManager σ}

namespace SessionManager

/-- A manager after some uses of it. -/
def Reaches (p : StorageParams σ) (m m' : SessionManager σ) : Prop :=
  ∃ ops : List (SessionOp σ), ops.foldl (SessionManager.apply p) m = m'

theorem Reaches.refl (m : SessionManager σ) : Reaches p m m := ⟨[], rfl⟩

theorem Reaches.trans (h : Reaches p m m') (h' : Reaches p m' m'') : Reaches p m m'' := by
  obtain ⟨ops, rfl⟩ := h
  obtain ⟨ops', rfl⟩ := h'
  exact ⟨ops ++ ops', List.foldl_append⟩

theorem Reaches.op (op : SessionOp σ) : Reaches p m (m.apply p op) := ⟨[op], rfl⟩

theorem Reaches.inv (h : Reaches p m m') (hm : Inv p m) : Inv p m' := by
  obtain ⟨ops, rfl⟩ := h
  induction ops generalizing m with
  | nil => exact hm
  | cons op ops ih => exact ih (hm.apply op)

/-- What one use adds to the history. -/
def added (p : StorageParams σ) (m : SessionManager σ) : SessionOp σ → List SessionEvent
  | .makeSession => [.created (p.generateId m.storage.generated)]
  | .terminateSession id => [.deleted id]
  | .saveSession _ _ => []
  | .clear => [.cleared]

theorem history_apply (op : SessionOp σ) : (m.apply p op).history = m.history ++ added p m op := by
  cases op with
  | makeSession => rfl
  | terminateSession id => rfl
  | saveSession id session => exact (List.append_nil _).symm
  | clear => rfl

/-- Nothing is taken out of the history. -/
theorem Reaches.mem_history (h : Reaches p m m') {e : SessionEvent} (he : e ∈ m.history) :
    e ∈ m'.history := by
  obtain ⟨ops, rfl⟩ := h
  induction ops generalizing m with
  | nil => exact he
  | cons op ops ih =>
    refine ih ?_
    rw [history_apply]
    exact List.mem_append_left _ he

end SessionManager

/-- Without a new creation an id stays alive until it is deleted or all ids are cleared. -/
theorem liveIn_append_iff {history events : List SessionEvent} {id : Bytes}
    (hnew : .created id ∉ events) :
    LiveIn (history ++ events) id ↔
      LiveIn history id ∧ .deleted id ∉ events ∧ .cleared ∉ events := by
  induction events using List.reverseRecOn with
  | nil => simp
  | append_singleton events e ih =>
    rw [List.mem_append, List.mem_singleton, not_or] at hnew
    rw [← List.append_assoc, liveIn_concat, ih hnew.1, or_iff_right (Ne.symm hnew.2)]
    simp only [List.mem_append, List.mem_singleton, not_or]
    constructor
    · rintro ⟨⟨hlive, hdeleted, hcleared⟩, hd, hc⟩
      exact ⟨hlive, ⟨hdeleted, Ne.symm hd⟩, hcleared, Ne.symm hc⟩
    · rintro ⟨hlive, ⟨hdeleted, hd⟩, hcleared, hc⟩
      exact ⟨⟨hlive, hdeleted, hcleared⟩, Ne.symm hd, Ne.symm hc⟩

/-- **The history grows**, and no id that has been given out is given out again. -/
theorem SessionManager.Reaches.history (h : SessionManager.Reaches p m m')
    (hp : Function.Injective p.generateId) (hm : m.Inv p) :
    ∃ events, m'.history = m.history ++ events ∧
      ∀ id, .created id ∈ m.history → .created id ∉ events := by
  obtain ⟨ops, rfl⟩ := h
  induction ops generalizing m with
  | nil => exact ⟨[], (List.append_nil _).symm, fun _ _ => List.not_mem_nil⟩
  | cons op ops ih =>
    obtain ⟨events, hevents, hfresh⟩ := ih (hm.apply op)
    rw [history_apply] at hevents hfresh
    refine ⟨added p m op ++ events, by rw [← List.append_assoc]; exact hevents, ?_⟩
    intro id hid hmem
    rcases List.mem_append.mp hmem with hmem | hmem
    · cases op with
      | makeSession =>
        rw [List.mem_singleton.mp hmem] at hid
        exact hm.makeSession_fresh hp hid
      | terminateSession id => cases List.mem_singleton.mp hmem
      | saveSession id session => cases hmem
      | clear => cases List.mem_singleton.mp hmem
    · exact hfresh id (List.mem_append_left _ hid) hmem

/-- **What becomes of an id**: once given out, it is found exactly if it was in the storage and has
been neither deleted nor cleared since. -/
theorem SessionManager.Reaches.loadSession (h : SessionManager.Reaches p m m')
    (hp : Function.Injective p.generateId) (hm : m.Inv p) {id : Bytes}
    (hgiven : .created id ∈ m.history) :
    ∃ events, m'.history = m.history ++ events ∧
      ∀ (key : Bytes) (request : RequestHeader), request.getCookie key = some id →
        m'.loadSession key request =
          if id ∈ m.storage.sessions ∧ .deleted id ∉ events ∧ .cleared ∉ events then .live
          else .notFound := by
  obtain ⟨events, hevents, hfresh⟩ := h.history hp hm
  refine ⟨events, hevents, ?_⟩
  intro key request hcookie
  have hlive := (h.inv hm).loadSession_eq_live_iff key request
  simp only [hcookie, Option.some.injEq, exists_eq_left', hevents,
    liveIn_append_iff (hfresh id hgiven), ← hm.stored] at hlive
  split_ifs with hstill
  · exact hlive.mpr hstill
  · rw [← hlive] at hstill
    simp only [SessionManager.loadSession, hcookie] at hstill ⊢
    split_ifs at hstill ⊢ with hnone
    · rfl
    · exact absurd rfl hstill

end Attender.Session

namespace Attender.Http

open Attender.Library Attender.Session SessionManager

namespace HttpBasicServer

variable {ι σ : Type} {server : HttpBasicServer ι σ} {control : SessionControl}
  {user : UserCode ι σ} {call : Call σ}

/-! ### One request -/

section Request

variable {p : StorageParams σ} {ρ : Type}

theorem reaches_apply (call : Call σ) (op : UserOp σ) :
    Reaches p call.sessions (call.apply p op).sessions := by
  cases op with
  | response op => exact .refl _
  | patchCookie key value => exact .refl _
  | session op => exact .op op

theorem reaches_run (call : Call σ) (code : UserRun σ ρ) :
    Reaches p call.sessions (call.run p code).1.sessions := by
  rw [Call.run]
  induction code.ops generalizing call with
  | nil => exact .refl _
  | cons op ops ih => exact (reaches_apply call op).trans (ih _)

/-- The call after user code, as it is used behind a `match` on what that returns or throws. -/
theorem reaches_of_run {call call' : Call σ} {code : UserRun σ ρ} {result : Except Thrown ρ}
    (h : call.run p code = (call', result)) : Reaches p call.sessions call'.sessions := by
  have hrun := reaches_run (p := p) call code
  rwa [h] at hrun

theorem reaches_condition (server : HttpBasicServer ι σ) (user : UserCode ι σ) (call : Call σ) :
    Reaches server.storage call.sessions (server.condition user call).1.sessions := by
  unfold condition
  split
  · exact .refl _
  · next conditioner _ =>
    have hrun := reaches_run (p := server.storage) call (conditioner call)
    split
    · next hthrown => rwa [hthrown] at hrun
    · next hreturned => rwa [hreturned] at hrun

theorem reaches_makeSession (control : SessionControl) (call : Call σ) :
    Reaches server.storage call.sessions (server.makeSession control call).sessions :=
  .op .makeSession

theorem reaches_conclude (control : SessionControl) (user : UserCode ι σ) (call : Call σ)
    (result : AuthorizationResult) :
    Reaches server.storage call.sessions
      (server.conclude control user call result).1.sessions := by
  cases result with
  | denied =>
    rw [conclude]
    split_ifs
    · exact .refl _
    · exact .refl _
  | negotiate =>
    rw [conclude]
    split
    · next hthrown => exact reaches_of_run hthrown
    · next hreturned => exact reaches_of_run hreturned
  | allowedContinue => exact reaches_makeSession control call
  | allowedButStop =>
    rw [conclude]
    dsimp only
    split_ifs
    · exact reaches_makeSession control call
    · exact reaches_makeSession control call
  | badRequest =>
    rw [conclude]
    split_ifs
    · exact .refl _
    · exact .refl _
  | unknown => exact .refl _

theorem reaches_authenticateSession (control : SessionControl) (user : UserCode ι σ)
    (call : Call σ) :
    Reaches server.storage call.sessions
      (server.authenticateSession control user call).1.sessions := by
  have hcondition := reaches_condition server user call
  unfold authenticateSession
  split
  · next hthrown => rwa [hthrown] at hcondition
  · next hasked =>
    rw [hasked] at hcondition
    split
    · next hthrown => exact hcondition.trans (reaches_of_run hthrown)
    · next hreturned =>
      have hrun := hcondition.trans (reaches_of_run hreturned)
      split_ifs
      · exact hrun
      · exact hrun.trans (reaches_conclude control user _ _)

theorem reaches_handleSession (server : HttpBasicServer ι σ) (user : UserCode ι σ) (call : Call σ) :
    Reaches server.storage call.sessions (server.handleSession user call).1.sessions := by
  unfold handleSession
  split
  · exact .refl _
  · split_ifs
    · exact .refl _
    · exact .refl _
    · exact .refl _
    · exact .refl _
    · exact reaches_authenticateSession _ user call

theorem reaches_runCallback (server : HttpBasicServer ι σ) (user : UserCode ι σ) (route : ι)
    (call : Call σ) : Reaches server.storage call.sessions
      (server.runCallback user route call).call.sessions := by
  have hrun := reaches_run (p := server.storage) call (user.callback route call)
  unfold runCallback
  dsimp only
  split
  · next hreturned => rwa [hreturned] at hrun
  · next hthrown => rwa [hthrown] at hrun

theorem reaches_headerReadHandler (server : HttpBasicServer ι σ) (user : UserCode ι σ)
    (call : Call σ) : Reaches server.storage call.sessions
      (server.headerReadHandler user call).call.sessions := by
  have hsession := reaches_handleSession server user call
  unfold headerReadHandler
  split
  · split
    · next hthrown => rwa [hthrown] at hsession
    · next hadmitted =>
      rw [hadmitted] at hsession
      exact hsession.trans (reaches_runCallback server user _ _)
    · next hrefused => rwa [hrefused] at hsession
  · split_ifs
    · exact .refl _
    · split
      · split
        · next hreturned => exact reaches_of_run hreturned
        · next hthrown => exact reaches_of_run hthrown
      · exact .refl _

/-- **One request** uses the sessions through their manager alone. -/
theorem reaches_onHeader (server : HttpBasicServer ι σ) (user : UserCode ι σ) (call : Call σ) :
    Reaches server.storage call.sessions (server.onHeader user call).call.sessions := by
  have hread := reaches_headerReadHandler server user call
  unfold onHeader
  dsimp only
  split
  · exact hread
  · exact hread

end Request

/-! ### Whole runs -/

theorem reaches_step {s s' : ServerState ι σ} {e : ServerEvent ι σ}
    (h : server.step s e = some s') : Reaches server.storage s.sessions s'.sessions := by
  cases e with
  | request request user =>
    cases h
    exact reaches_onHeader server user { request := request, sessions := s.sessions }
  | session op =>
    cases h
    exact .op op

theorem reaches_server_run {s s' : ServerState ι σ} {events : List (ServerEvent ι σ)}
    (h : run server.step s events = some s') : Reaches server.storage s.sessions s'.sessions :=
  run_invariant (A := fun _ => True) (I := fun t => Reaches server.storage s.sessions t.sessions)
    (fun _ _ _ _ ht hstep => ht.trans (reaches_step hstep)) (fun _ _ => trivial) (.refl _) h

/-- **The life of a session**: an id that has been given out is found, at any later time, exactly
if it was in the storage and has been neither deleted nor cleared since. Once it is gone it stays
gone. -/
theorem session_life (server : HttpBasicServer ι σ)
    (hgenerator : Function.Injective server.storage.generateId)
    (earlier later : List (ServerEvent ι σ)) (s s' : ServerState ι σ)
    (hs : run server.step {} earlier = some s) (hs' : run server.step s later = some s')
    (id : Bytes) (hgiven : .created id ∈ s.sessions.history) :
    ∃ events, s'.sessions.history = s.sessions.history ++ events ∧
      ∀ (key : Bytes) (request : RequestHeader), request.getCookie key = some id →
        s'.sessions.loadSession key request =
          if id ∈ s.sessions.storage.sessions ∧ .deleted id ∉ events ∧ .cleared ∉ events then .live
          else .notFound := by
  exact (reaches_server_run hs').loadSession hgenerator ((reaches_server_run hs).inv inv_init)
    hgiven

/-- After a login the id is given out, and when it has been terminated no request is let in by
it. -/
theorem session_life_login :
    ∃ s s', run loginServer.step {} (loginEvents.take 1) = some s ∧
      run loginServer.step s (loginEvents.drop 2) = some s' ∧
      .created (bytes "x") ∈ s.sessions.history ∧
      ∀ (key : Bytes) (request : RequestHeader), request.getCookie key = some (bytes "x") →
        s'.sessions.loadSession key request = .notFound := by
  refine ⟨_, _, rfl, rfl, List.mem_singleton.mpr rfl, ?_⟩
  have hinjective : Function.Injective loginServer.storage.generateId := fun n m h =>
    Nat.succ_injective (List.replicate_left_injective _ h)
  obtain ⟨events, hevents, hlife⟩ := session_life loginServer hinjective (loginEvents.take 1)
    (loginEvents.drop 2) _ _ rfl rfl (bytes "x") (List.mem_singleton.mpr rfl)
  have hdeleted : events = [.deleted (bytes "x")] := List.append_cancel_left hevents.symm
  intro key request hcookie
  rw [hlife key request hcookie, if_neg]
  simp [hdeleted]

end HttpBasicServer

end Attender.Http
