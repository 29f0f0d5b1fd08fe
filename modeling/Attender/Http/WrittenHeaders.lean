import Attender.Http.HttpBasicServer
import Attender.Http.ResponseText

/-!
# What is written of a header

User code changes a header by setting its code, its fields and its cookies, and
at some time a header is written. What these three keep holds of every header
that is written (`KeptByCalls.apply`), also in a run of user code and behind the
handler of a route (`GoesOn`).
-/

namespace Attender.Http

open Attender.Library Attender.Session

/-! ### Headers under construction -/

/-- What user code can do to a header keeps `P`. -/
structure KeptByCalls (P : ResponseHeader → Prop) : Prop where
  setCode : ∀ h code, P h → P (h.setCode code)
  setField : ∀ h field value, P h → P (h.setField field value)
  setCookie : ∀ h cookie, P h → P (h.setCookie cookie)

namespace KeptByCalls

variable {P : ResponseHeader → Prop} (hP : KeptByCalls P) {r : ResponseHandler}
include hP

theorem trySet (h : P r.header) (field value : Bytes) : P (r.trySet field value).header := by
  rw [ResponseHandler.trySet]
  split_ifs
  · exact h
  · exact hP.setField _ _ _ h

omit hP in
theorem sendHeader (h : P r.header) (k : HeaderContinuation) :
    P (r.sendHeader k).1.header ∧
      ∀ header k', .write header k' ∈ (r.sendHeader k).2 → P header := by
  cases hsent : r.headerSent with
  | false =>
    simp only [ResponseHandler.sendHeader, ResponseHandler.conclude, hsent, if_true,
      List.mem_singleton, ResponseEffect.write.injEq]
    refine ⟨h, ?_⟩
    rintro header k' ⟨rfl, -⟩
    exact h
  | true =>
    simp only [ResponseHandler.sendHeader, ResponseHandler.conclude, hsent, Bool.true_eq_false,
      if_false, List.mem_singleton, reduceCtorEq, false_imp_iff, implies_true, and_true]
    exact h

theorem send (h : P r.header) (body : Body) :
    P (r.send body).1.header ∧ ∀ header k, .write header k ∈ (r.send body).2 → P header := by
  have hset := hP.trySet
    (hP.trySet h (bytes "Content-Length") (bytes (toString body.content.length)))
    (bytes "Content-Type") body.contentType
  rw [ResponseHandler.send]
  split_ifs
  · exact sendHeader (hP.setCode _ 200 hset) _
  · exact sendHeader (hP.setCode _ 204 hset) _
  · exact sendHeader hset _

/-- What holds of a header holds of all that is made of it, and of all that is written. -/
theorem apply (h : P r.header) (op : ResponseOp) :
    P (r.apply op).1.header ∧ ∀ header k, .write header k ∈ (r.apply op).2 → P header := by
  have hnone : ∀ header k, ResponseEffect.write header k ∈ [] → P header :=
    fun _ _ hmem => absurd hmem List.not_mem_nil
  cases op with
  | status code => exact ⟨hP.setCode _ _ h, hnone⟩
  | set field value => exact ⟨hP.setField _ _ _ h, hnone⟩
  | append field value => exact ⟨hP.setField _ _ _ h, hnone⟩
  | setCookie cookie => exact ⟨hP.setCookie _ _ h, hnone⟩
  | observeConclusion => exact ⟨h, hnone⟩
  | send body => exact hP.send h body
  | sendStatus code =>
    rw [ResponseHandler.apply, ResponseHandler.sendStatus]
    split_ifs
    · exact hP.send (hP.setCode _ code h) _
    · exact sendHeader (hP.setCode _ code h) _
  | sendChunked encoding =>
    exact sendHeader (hP.setField _ _ _ (hP.trySet (hP.setCode _ 200 h) _ _)) _
  | end_ => exact sendHeader (r := r.conclude) h _

/-- So it does of the answer to what a handler throws. -/
theorem answerThrown (h : P r.header) (exposeException : Bool) (e : Thrown) :
    P (r.answerThrown exposeException e).1.header ∧
      ∀ header k, .write header k ∈ (r.answerThrown exposeException e).2 → P header := by
  have hstatus : P (r.status 500).header := hP.setCode _ 500 h
  cases e with
  | other => exact hP.apply h (.sendStatus 500)
  | exception what =>
    rw [ResponseHandler.answerThrown]
    split_ifs
    · exact hP.send hstatus (.string what)
    · exact hP.apply hstatus .end_

end KeptByCalls

/-- No call of user code touches the words of the status line. -/
theorem untouched_keptByCalls : KeptByCalls ResponseHeader.Untouched where
  setCode _ code h := h.setCode code
  setField _ field value h := h.setField field value
  setCookie _ _ h := ⟨h.protocol, h.version, h.message⟩

/-- A cookie stays in a header. -/
theorem mem_cookies_keptByCalls (cookie : Cookie) :
    KeptByCalls fun h => h.Untouched ∧ cookie ∈ h.cookies where
  setCode _ code h := ⟨h.1.setCode code, h.2⟩
  setField _ field value h := ⟨h.1.setField field value, h.2⟩
  setCookie _ _ h := ⟨untouched_keptByCalls.setCookie _ _ h.1, List.mem_append_left _ h.2⟩

/-- The call goes on from the other one: its header is good, and so is what has been written
since. -/
structure GoesOn {σ : Type} (P : ResponseHeader → Prop) (call after : Call σ) : Prop where
  header : P after.response.header
  written : ∃ new, after.effects = call.effects ++ new ∧
    ∀ header k, .write header k ∈ new → P header

section GoesOn

variable {σ ρ : Type} {P : ResponseHeader → Prop} {p : StorageParams σ} {call call' after : Call σ}

/-- Nothing has been written. -/
theorem GoesOn.of_effects (h : P after.response.header) (heffects : after.effects = call.effects) :
    GoesOn P call after :=
  ⟨h, [], heffects.trans (List.append_nil _).symm, fun _ _ hmem => absurd hmem List.not_mem_nil⟩

theorem GoesOn.trans (h : GoesOn P call call') (h' : GoesOn P call' after) :
    GoesOn P call after := by
  obtain ⟨new, hnew, hwritten⟩ := h.written
  obtain ⟨new', hnew', hwritten'⟩ := h'.written
  refine ⟨h'.header, new ++ new', by rw [hnew', hnew, List.append_assoc], ?_⟩
  intro header k hmem
  rcases List.mem_append.mp hmem with hmem | hmem
  · exact hwritten header k hmem
  · exact hwritten' header k hmem

theorem GoesOn.respond (hP : KeptByCalls P) (h : P call.response.header) (op : ResponseOp) :
    GoesOn P call (call.respond (call.response.apply op)) :=
  ⟨(hP.apply h op).1, _, rfl, (hP.apply h op).2⟩

theorem GoesOn.run (hP : KeptByCalls P) (h : P call.response.header) (code : UserRun σ ρ) :
    GoesOn P call (call.run p code).1 := by
  rw [Call.run]
  induction code.ops generalizing call with
  | nil => exact .of_effects h rfl
  | cons op ops ih =>
    have hop : GoesOn P call (call.apply p op) := by
      cases op with
      | response op => exact .respond hP h op
      | patchCookie key value => exact .of_effects h rfl
      | session op => exact .of_effects h rfl
    exact hop.trans (ih hop.header)

/-- The handler of a route, and the answer to what it throws. -/
theorem GoesOn.runCallback {ι : Type} (server : HttpBasicServer ι σ) (hP : KeptByCalls P)
    (h : P call.response.header) (user : UserCode ι σ) (route : ι) :
    GoesOn P call (server.runCallback user route call).call := by
  have hrun := GoesOn.run (p := server.storage) hP h (user.callback route call)
  unfold HttpBasicServer.runCallback
  dsimp only
  split
  · next hreturned => rwa [hreturned] at hrun
  · next thrown e hthrown =>
    rw [hthrown] at hrun
    have hanswer := hP.answerThrown hrun.header server.exposeException e
    exact hrun.trans ⟨hanswer.1, _, rfl, hanswer.2⟩

end GoesOn

end Attender.Http

