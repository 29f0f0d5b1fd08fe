import Attender.Http.ChunkedEnd
import Attender.Http.Connection

/-!
# The removal of connections

A connection is removed by the read of its header, when that fails, and by the
end of its response otherwise. In a run in which no step breaks this
(`Faulty`) it has been removed once when nothing is pending and nothing is owed
(`removed_once`). The steps that break it leave the connection behind
(`LeavesBehind`, and a lost end), or end its response twice.
-/

namespace Attender.Http.Connection

open Attender.Library Attender.Utility

/-- No operation of the connection is pending. -/
structure Quiescent (c : Connection) : Prop where
  handshake : c.handshaking = false
  reads : c.reads = 0
  writes : c.writes = []
  chunks : c.chunked.inFlight = []
  /-- `send_chunked` is not about to call `start_production`. -/
  production : c.chunked.phase ≠ .attached

/-- User code has still to start the response, or to finish the producer of a response in chunks. -/
def Owes (c : Connection) : Prop :=
  c.owed ∨ c.chunked.phase ≠ .detached ∧ ¬ c.chunked.completed ∧ c.chunked.ended = 0

/-- The steps after which nothing is pending and nobody owes the response: a failing handshake, and
the end of the header of a `HEAD` that is not answered. -/
def LeavesBehind (cfg : Config) (c : Connection) : ConnectionOp → Prop
  | .handshake ec => ec ≠ none
  | .read none amount (some .unanswered) =>
    c.readCallback = .header ∧ (feed cfg c.request.parser amount).isDone
  | _ => False

/-- The steps after which a connection is removed never, or twice: those that leave it behind, a
read of the body that is aborted before the response has been started or fails otherwise after that,
the lost end of a response in chunks, and a failure of its compression during a write. -/
def Faulty (cfg : Config) (kind : ProducerKind) (c : Connection) : ConnectionOp → Prop
  | .read (some ec) _ _ =>
    c.readCallback = .body ∧ (ec = .operationAborted ↔ c.response.headerSent = false)
  | .chunked op => Chunked.Succeeds op ∧ Chunked.LosesEndOf kind c.chunked op
  | .compressionFails _ => c.chunked.inFlight ≠ []
  | op => LeavesBehind cfg c op

/-! ### The stages -/

/-- It has not been removed. -/
structure Kept (c : Connection) : Prop where
  removals : c.removals = 0
  registered : c.registered = true

/-- It has been removed once. -/
structure Gone (c : Connection) : Prop where
  removals : c.removals = 1
  registered : c.registered = false

/-- Nothing of the response has been written. -/
structure Fresh (c : Connection) : Prop where
  kept : Kept c
  writes : c.writes = []
  phase : c.chunked.phase = .detached
  sent : c.response.headerSent = false

/-- The response has been started. -/
structure Started (c : Connection) : Prop where
  owed : c.owed = false
  sent : c.response.headerSent = true

/-- The header has been read, and a pending read is one of the body. -/
structure Reading (c : Connection) : Prop where
  handshake : c.handshaking = false
  body : c.reads = 0 ∨ c.readCallback = .body

/-- How far the response is. -/
inductive Progress (c : Connection) : Prop where
  /-- User code has to start it. -/
  | handler (howed : c.owed = true) (hfresh : Fresh c)
  /-- A write is pending, and its completion goes on or ends. -/
  | writing (hstarted : Started c) (hkept : Kept c) (hphase : c.chunked.phase = .detached)
      (w : PendingWrite) (hwrites : c.writes = [w])
  /-- The producer goes on or ends. -/
  | chunking (hstarted : Started c) (hkept : Kept c) (hphase : c.chunked.phase ≠ .detached)
      (hended : c.chunked.ended = 0) (hstuck : ¬ Chunked.Stuck c.chunked) (hwrites : c.writes = [])
  | finished (hstarted : Started c) (hgone : Gone c)
      (hconsumer : c.chunked.hasConsumerAttached = false) (hflight : c.chunked.inFlight = [])
      (hwrites : c.writes = [])

/-- How far the connection is. -/
inductive Stage (c : Connection) : Prop where
  | handshake (hhandshake : c.handshaking = true) (hreads : c.reads = 0) (howed : c.owed = false)
      (hfresh : Fresh c)
  | header (hhandshake : c.handshaking = false) (hreads : c.reads = 1)
      (hcallback : c.readCallback = .header) (howed : c.owed = false) (hfresh : Fresh c)
  /-- The header could not be read. -/
  | rejected (hhandshake : c.handshaking = false) (hreads : c.reads = 0) (howed : c.owed = false)
      (hgone : Gone c) (hphase : c.chunked.phase = .detached) (hwrites : c.writes = [])
  | request (hreading : Reading c) (h : Progress c)

/-- What holds after every run without a faulty step. -/
structure Sane (c : Connection) : Prop where
  chunks : Chunked.Inv c.chunked
  stage : Stage c

variable {cfg : Config} {kind : ProducerKind} {c c' : Connection}

/-- **At the end** the connection has been removed, and once. -/
theorem Sane.gone (h : Sane c) (hquiescent : Quiescent c) (howes : ¬ Owes c) : Gone c := by
  rw [Owes, not_or] at howes
  cases h.stage with
  | handshake hhandshake =>
    exact absurd hhandshake (by rw [hquiescent.handshake]; exact Bool.false_ne_true)
  | header _ hreads => exact absurd hreads (by rw [hquiescent.reads]; omega)
  | rejected _ _ _ hgone => exact hgone
  | request _ hprogress =>
    cases hprogress with
    | handler howed => exact absurd howed howes.1
    | writing _ _ _ w hwrites =>
      exact absurd hwrites (by rw [hquiescent.writes]; exact List.cons_ne_nil _ _ ∘ Eq.symm)
    | chunking _ _ hphase hended hstuck =>
      have hidle : Chunked.Idle c.chunked := by
        refine h.chunks.idle ?_
        intro hconsuming
        rcases h.chunks.consuming.mp hconsuming with hflight | hpositive
        · exact hflight hquiescent.chunks
        · omega
      have hcompleted : c.chunked.completed := by
        by_contra hn
        exact howes.2 ⟨hphase, hn, hended⟩
      have hstarted : c.chunked.phase = .started := by
        have hnot := hquiescent.production
        cases hp : c.chunked.phase with
        | detached => exact absurd hp hphase
        | attached => exact absurd hp hnot
        | started => rfl
      exact absurd ⟨hidle.attached.mpr hphase, hstarted, hquiescent.chunks, hcompleted,
        hidle.terminal⟩ hstuck
    | finished _ hgone => exact hgone

/-! ### What the response does -/

theorem remove_of_kept (h : Kept c) :
    c.remove = { c with removals := c.removals + 1, registered := false, closed := true } := by
  simp [remove, stop, h.registered]

/-- The first response writes its header. -/
theorem respond_of_concludes (cfg : Config) (hsent : c.response.headerSent = false)
    {op : ResponseOp} (hop : op.concludes) :
    ∃ r k, r.headerSent = true ∧
      c.respond cfg op = { c with response := r, writes := c.writes ++ [.header k] } := by
  obtain ⟨r, k, hr, happly⟩ := ResponseHandler.apply_of_concludes c.response hop
  obtain ⟨r', header, hsend, hr'⟩ := ResponseHandler.sendHeader_of_open (hr.trans hsent) k
  refine ⟨r', k, hr', ?_⟩
  rw [respond, happly, hsend]
  rfl

theorem respond_of_not_concludes (cfg : Config) {op : ResponseOp} (hop : ¬ op.concludes) :
    ∃ r, r.headerSent = c.response.headerSent ∧ c.respond cfg op = { c with response := r } := by
  obtain ⟨r, hr, happly⟩ := ResponseHandler.apply_of_not_concludes c.response hop
  refine ⟨r, hr, ?_⟩
  rw [respond, happly]
  rfl

theorem endResponse_of_open (hsent : c.response.headerSent = false) :
    ∃ r, r.headerSent = true ∧
      c.endResponse = { c with response := r, writes := c.writes ++ [.header .remove] } := by
  obtain ⟨r, header, hsend, hr⟩ :=
    ResponseHandler.sendHeader_of_open (r := c.response.conclude) hsent .remove
  refine ⟨r, hr, ?_⟩
  rw [endResponse, ResponseHandler.end_, hsend]
  rfl

/-- The end of a response that has been started is the removal. -/
theorem endResponse_of_sent (hsent : c.response.headerSent = true) :
    ∃ r, r.headerSent = true ∧ c.endResponse = { c with response := r }.remove := by
  obtain ⟨r, hsend, hr⟩ :=
    ResponseHandler.sendHeader_of_sent (r := c.response.conclude) hsent .remove
  refine ⟨r, hr, ?_⟩
  rw [endResponse, ResponseHandler.end_, hsend]
  rfl

/-- Whoever answers a request starts the response, and owes nothing then. -/
theorem Fresh.sane_respond (h : Fresh c) (hchunks : Chunked.Inv c.chunked) (hreading : Reading c)
    (howed : c.owed = false) {op : ResponseOp} (hop : op.concludes) : Sane (c.respond cfg op) := by
  obtain ⟨r, k, hr, hrespond⟩ := respond_of_concludes cfg h.sent hop
  rw [hrespond]
  refine ⟨hchunks, .request ⟨hreading.handshake, hreading.body⟩ (.writing ⟨howed, hr⟩
    ⟨h.kept.removals, h.kept.registered⟩ h.phase (.header k) ?_)⟩
  rw [h.writes, List.nil_append]

theorem Fresh.sane_endResponse (h : Fresh c) (hchunks : Chunked.Inv c.chunked)
    (hreading : Reading c) (howed : c.owed = false) : Sane c.endResponse := by
  obtain ⟨r, hr, hend⟩ := endResponse_of_open h.sent
  rw [hend]
  refine ⟨hchunks, .request ⟨hreading.handshake, hreading.body⟩ (.writing ⟨howed, hr⟩
    ⟨h.kept.removals, h.kept.registered⟩ h.phase (.header .remove) ?_)⟩
  rw [h.writes, List.nil_append]

/-! ### Between two writes -/

/-- The response has been started, and nothing of it is pending. -/
structure Resting (c : Connection) : Prop where
  chunks : Chunked.Inv c.chunked
  reading : Reading c
  started : Started c
  kept : Kept c
  writes : c.writes = []
  consumer : c.chunked.hasConsumerAttached = false
  flight : c.chunked.inFlight = []

namespace Resting

/-- The removal finishes it. -/
theorem sane_remove (h : Resting c) : Sane c.remove := by
  rw [remove_of_kept h.kept]
  refine ⟨h.chunks, .request ⟨h.reading.handshake, h.reading.body⟩
    (.finished ⟨h.started.owed, h.started.sent⟩ ⟨?_, rfl⟩ h.consumer h.flight h.writes)⟩
  exact congrArg (· + 1) h.kept.removals

theorem sane_endResponse (h : Resting c) : Sane c.endResponse := by
  obtain ⟨r, hr, hend⟩ := endResponse_of_sent h.started.sent
  rw [hend]
  apply sane_remove
  exact ⟨h.chunks, ⟨h.reading.handshake, h.reading.body⟩, ⟨h.started.owed, hr⟩,
    ⟨h.kept.removals, h.kept.registered⟩, h.writes, h.consumer, h.flight⟩

/-- Another write goes on with it. -/
theorem sane_write (h : Resting c) (hphase : c.chunked.phase = .detached) (w : PendingWrite) :
    Sane { c with writes := c.writes ++ [w] } := by
  refine ⟨h.chunks, .request ⟨h.reading.handshake, h.reading.body⟩
    (.writing ⟨h.started.owed, h.started.sent⟩ ⟨h.kept.removals, h.kept.registered⟩ hphase w ?_)⟩
  rw [h.writes, List.nil_append]

theorem sane_writeStream (h : Resting c) (hphase : c.chunked.phase = .detached) (stream : Bytes) :
    Sane (c.writeStream cfg stream) := by
  simp only [writeStream]
  split_ifs
  · exact h.sane_write hphase _
  · exact h.sane_endResponse

theorem sane_writeBody (h : Resting c) (hphase : c.chunked.phase = .detached) (body : Body) :
    Sane (c.writeBody cfg body) := by
  cases body with
  | string body => exact h.sane_write hphase _
  | vector body => exact h.sane_write hphase _
  | stream stream => exact h.sane_writeStream hphase stream

/-- The producer goes on with it. -/
theorem sane_attach (h : Resting c) (hphase : c.chunked.phase = .detached) : Sane c.attach := by
  have hstep : c.chunked.step .attach =
      some { c.chunked with phase := .attached, hasConsumerAttached := true } := by
    rw [Chunked.step, if_pos hphase]
  rw [attach, hstep, Option.getD_some]
  refine ⟨Chunked.inv_step h.chunks hstep, .request ⟨h.reading.handshake, h.reading.body⟩
    (.chunking ⟨h.started.owed, h.started.sent⟩ ⟨h.kept.removals, h.kept.registered⟩ ?_
      (h.chunks.of_detached hphase).2.2 ?_ h.writes)⟩
  · intro hdetached
    cases hdetached
  · intro hstuck
    cases hstuck.started

theorem sane_continueWith (h : Resting c) (hphase : c.chunked.phase = .detached)
    (ec : Option ErrorCode) (k : HeaderContinuation) : Sane (c.continueWith cfg ec k) := by
  cases k with
  | remove => exact h.sane_remove
  | body body =>
    rw [continueWith]
    split_ifs
    · exact h.sane_endResponse
    · exact h.sane_writeBody hphase body
  | chunked =>
    rw [continueWith]
    split_ifs
    · exact h.sane_endResponse
    · exact h.sane_attach hphase

/-- **The completion of a write** goes on with the response or ends it. -/
theorem sane_onWritten (h : Resting c) (hphase : c.chunked.phase = .detached)
    (ec : Option ErrorCode) (w : PendingWrite) : Sane (c.onWritten cfg ec w) := by
  cases w with
  | header k => exact h.sane_continueWith hphase ec k
  | body => exact h.sane_endResponse
  | stream filled rest =>
    rw [onWritten]
    split_ifs
    · exact h.sane_writeStream hphase rest
    · exact h.sane_endResponse

end Resting

/-! ### What the reads do -/

/-- The progress of the response is that of its own fields. -/
theorem Progress.congr (h : Progress c) (howed : c'.owed = c.owed)
    (hsent : c'.response.headerSent = c.response.headerSent) (hwrites : c'.writes = c.writes)
    (hchunked : c'.chunked = c.chunked) (hremovals : c'.removals = c.removals)
    (hregistered : c'.registered = c.registered) : Progress c' := by
  have hkept : Kept c → Kept c' := by
    intro h
    exact ⟨hremovals.trans h.removals, hregistered.trans h.registered⟩
  have hgone : Gone c → Gone c' := by
    intro h
    exact ⟨hremovals.trans h.removals, hregistered.trans h.registered⟩
  have hstarted : Started c → Started c' := by
    intro h
    exact ⟨howed.trans h.owed, hsent.trans h.sent⟩
  cases h with
  | handler ho hf =>
    exact .handler (howed.trans ho) ⟨hkept hf.kept, hwrites.trans hf.writes, hchunked ▸ hf.phase,
      hsent.trans hf.sent⟩
  | writing hs hk hp w hw =>
    exact .writing (hstarted hs) (hkept hk) (hchunked ▸ hp) w (hwrites.trans hw)
  | chunking hs hk hp he hn hw =>
    exact .chunking (hstarted hs) (hkept hk) (hchunked ▸ hp) (hchunked ▸ he) (hchunked ▸ hn)
      (hwrites.trans hw)
  | finished hs hg hc hf hw =>
    exact .finished (hstarted hs) (hgone hg) (hchunked ▸ hc) (hchunked ▸ hf) (hwrites.trans hw)

/-- A read of the header that fails ends in the removal, or in an answer. -/
theorem Fresh.sane_headerReadError (h : Fresh c) (hchunks : Chunked.Inv c.chunked)
    (hhandshake : c.handshaking = false) (hreads : c.reads = 0) (howed : c.owed = false)
    (ec : ErrorCode) : Sane (c.headerReadError cfg ec) := by
  have hremove : Sane c.remove := by
    rw [remove_of_kept h.kept]
    refine ⟨hchunks, .rejected hhandshake hreads howed ⟨?_, rfl⟩ h.phase h.writes⟩
    exact congrArg (· + 1) h.kept.removals
  rw [headerReadError]
  split_ifs
  · exact hremove
  · exact hremove
  · exact h.sane_respond hchunks ⟨hhandshake, Or.inl hreads⟩ howed rfl
  · exact hremove

/-- A read of the header goes on, or it leads to a handler, to an answer or to the removal. -/
theorem Fresh.sane_headerReadHandler (h : Fresh c) (hchunks : Chunked.Inv c.chunked)
    (hhandshake : c.handshaking = false) (hreads : c.reads = 0)
    (hcallback : c.readCallback = .header) (howed : c.owed = false) (ec : Option ErrorCode)
    (amount : Bytes) (d : Option Dispatch)
    (hanswered : ec = none → d = some .unanswered →
      ¬ (feed cfg c.request.parser amount).isDone) :
    Sane (c.headerReadHandler cfg ec amount d) := by
  unfold headerReadHandler
  split
  · exact h.sane_headerReadError hchunks hhandshake hreads howed _
  · exact h.sane_headerReadError hchunks hhandshake hreads howed _
  · next d =>
    split
    · refine ⟨hchunks, .header hhandshake (congrArg (· + 1) hreads) hcallback howed ?_⟩
      exact ⟨⟨h.kept.removals, h.kept.registered⟩, h.writes, h.phase, h.sent⟩
    · exact h.sane_headerReadError hchunks hhandshake hreads howed _
    · next parser hfeed =>
      have hfresh : Fresh { c with
          request :=
            { c.request with parser := parser, header := parser.header.toRequestHeader } } :=
        ⟨⟨h.kept.removals, h.kept.registered⟩, h.writes, h.phase, h.sent⟩
      cases d with
      | handler =>
        refine ⟨hchunks, .request ⟨hhandshake, Or.inl hreads⟩ (.handler rfl ?_)⟩
        exact ⟨⟨h.kept.removals, h.kept.registered⟩, h.writes, h.phase, h.sent⟩
      | answer op => exact hfresh.sane_respond hchunks ⟨hhandshake, Or.inl hreads⟩ howed op.2
      | unanswered => exact absurd (by rw [hfeed]; rfl) (hanswered rfl rfl)

/-- The functions of the callback wrapper are not of the connection. -/
theorem foldl_performEffect_calls (cs : List (Called Unit Unit)) (c : Connection) :
    (cs.map RequestEffect.call).foldl (performEffect cfg) c = c := by
  induction cs with
  | nil => rfl
  | cons x cs ih => exact ih

/-- A handler that reads on leaves the response as it is. -/
theorem Progress.sane_performRead (h : Progress c) (hchunks : Chunked.Inv c.chunked)
    (hhandshake : c.handshaking = false) (hcallback : c.readCallback = .body)
    {outcome : RequestHandler.Outcome Unit Unit} (houtcome : RequestHandler.ReadsOn outcome) :
    Sane (c.performRead cfg outcome) := by
  rw [performRead]
  rcases houtcome with hread | ⟨cs, hcalls⟩
  · rw [hread]
    exact ⟨hchunks, .request ⟨hhandshake, Or.inr hcallback⟩ (h.congr rfl rfl rfl rfl rfl rfl)⟩
  · rw [hcalls, foldl_performEffect_calls]
    exact ⟨hchunks, .request ⟨hhandshake, Or.inr hcallback⟩ (h.congr rfl rfl rfl rfl rfl rfl)⟩

/-- **A read of the body** that fails ends the response that user code owes, and else it leaves the
response alone. -/
theorem Progress.sane_bodyReadHandler (h : Progress c) (hchunks : Chunked.Inv c.chunked)
    (hhandshake : c.handshaking = false) (hcallback : c.readCallback = .body)
    (ec : Option ErrorCode) (amount : Bytes)
    (hec : ∀ e, ec = some e → ¬ (e = .operationAborted ↔ c.response.headerSent = false)) :
    Sane (c.bodyReadHandler cfg ec amount) := by
  cases ec with
  | none =>
    have hsame : Progress { c with owed := c.owed && (none : Option ErrorCode).isNone } :=
      h.congr (Bool.and_true _) rfl rfl rfl rfl rfl
    exact hsame.sane_performRead hchunks hhandshake hcallback
      (c.request.readsOn_bodyReadHandler amount)
  | some e =>
    have hne := hec e rfl
    have howed : (c.owed && (some e).isNone) = false := Bool.and_false _
    rw [bodyReadHandler, performRead, howed, RequestHandler.bodyReadHandler, RequestHandler.raise]
    dsimp only
    rw [List.foldl_append, foldl_performEffect_calls]
    by_cases hsent : c.response.headerSent = false
    · rw [iff_true_right hsent] at hne
      rw [if_pos hne]
      cases h with
      | handler _ hfresh =>
        refine Fresh.sane_endResponse ?_ hchunks ⟨hhandshake, Or.inr hcallback⟩ rfl
        exact ⟨⟨hfresh.kept.removals, hfresh.kept.registered⟩, hfresh.writes, hfresh.phase,
          hfresh.sent⟩
      | writing hstarted => exact absurd hstarted.sent (by rw [hsent]; exact Bool.false_ne_true)
      | chunking hstarted => exact absurd hstarted.sent (by rw [hsent]; exact Bool.false_ne_true)
      | finished hstarted => exact absurd hstarted.sent (by rw [hsent]; exact Bool.false_ne_true)
    · rw [iff_false_right hsent, not_not] at hne
      rw [if_neg (not_not.mpr hne)]
      have hnot : c.owed = false := by
        cases h with
        | handler _ hfresh => exact absurd hfresh.sent hsent
        | writing hstarted => exact hstarted.owed
        | chunking hstarted => exact hstarted.owed
        | finished hstarted => exact hstarted.owed
      exact ⟨hchunks, .request ⟨hhandshake, Or.inr hcallback⟩
        (h.congr hnot.symm rfl rfl rfl rfl rfl)⟩

/-- The start of a body starts a read, or it answers. -/
theorem Fresh.sane_readBody (h : Fresh c) (hchunks : Chunked.Inv c.chunked)
    (hhandshake : c.handshaking = false) (howed : c.owed = true) (max : Nat) :
    Sane (c.readBody cfg max) := by
  have hlength :
      ({ c.request with maxRead := max, sink := {} } : RequestHandler Unit Unit).getContentLength =
        c.request.getContentLength := rfl
  by_cases hsome : c.request.getContentLength.isSome
  · have hprogress : Progress { c with
        readCallback := .body, owed := c.owed && c.request.getContentLength.isSome } :=
      .handler (by rw [howed, hsome]; rfl)
        ⟨⟨h.kept.removals, h.kept.registered⟩, h.writes, h.phase, h.sent⟩
    exact hprogress.sane_performRead hchunks hhandshake rfl
      (RequestHandler.readsOn_bodyReadStart _ (hlength ▸ hsome) max)
  · have howes : (c.owed && c.request.getContentLength.isSome) = false := by
      rw [Bool.not_eq_true] at hsome
      rw [hsome, Bool.and_false]
    have hfresh : ∀ r, Fresh { c with readCallback := .body, owed := false, request := r } :=
      fun _ => ⟨⟨h.kept.removals, h.kept.registered⟩, h.writes, h.phase, h.sent⟩
    rw [readBody, howes, performRead, RequestHandler.readBody,
      RequestHandler.bodyReadStart_of_none _
        (hlength.trans (Option.not_isSome_iff_eq_none.mp hsome)),
      RequestHandler.raise]
    dsimp only
    rw [List.foldl_append, foldl_performEffect_calls]
    exact (hfresh _).sane_respond hchunks ⟨hhandshake, Or.inr rfl⟩ rfl rfl

theorem onRead_header (h : c.readCallback = .header) (ec : Option ErrorCode) (amount : Bytes)
    (d : Option Dispatch) : c.onRead cfg ec amount d = c.headerReadHandler cfg ec amount d := by
  rw [onRead, h]

theorem onRead_body (h : c.readCallback = .body) (ec : Option ErrorCode) (amount : Bytes)
    (d : Option Dispatch) : c.onRead cfg ec amount d = c.bodyReadHandler cfg ec amount := by
  rw [onRead, h]

/-! ### What the producer does -/

/-- While the consumer is not attached, the producer is no matter of the connection. -/
theorem Sane.unattached (h : Sane c) (hconsumer : c.chunked.hasConsumerAttached = false)
    {chunked : Chunked} (hinv : Chunked.Inv chunked)
    (hconsumer' : chunked.hasConsumerAttached = false) (hflight' : chunked.inFlight = [])
    (hphase : c.chunked.phase = .detached → chunked.phase = .detached) :
    Sane { c with chunked := chunked } := by
  refine ⟨hinv, ?_⟩
  have hkept : Kept c → Kept { c with chunked := chunked } := by
    intro hk
    exact ⟨hk.removals, hk.registered⟩
  have hgone : Gone c → Gone { c with chunked := chunked } := by
    intro hg
    exact ⟨hg.removals, hg.registered⟩
  have hfresh : Fresh c → Fresh { c with chunked := chunked } := by
    intro hf
    exact ⟨hkept hf.kept, hf.writes, hphase hf.phase, hf.sent⟩
  cases h.stage with
  | handshake hhandshake hreads howed hf => exact .handshake hhandshake hreads howed (hfresh hf)
  | header hhandshake hreads hcallback howed hf =>
    exact .header hhandshake hreads hcallback howed (hfresh hf)
  | rejected hhandshake hreads howed hg hp hw =>
    exact .rejected hhandshake hreads howed (hgone hg) (hphase hp) hw
  | request hreading hprogress =>
    refine .request ⟨hreading.handshake, hreading.body⟩ ?_
    cases hprogress with
    | handler howed hf => exact .handler howed (hfresh hf)
    | writing hs hk hp w hw => exact .writing ⟨hs.owed, hs.sent⟩ (hkept hk) (hphase hp) w hw
    | chunking hs hk hp he hn hw =>
      exact absurd (h.chunks.attached.mpr ⟨hp, he⟩) (by rw [hconsumer]; exact Bool.false_ne_true)
    | finished hs hg _ _ hw => exact .finished ⟨hs.owed, hs.sent⟩ (hgone hg) hconsumer' hflight' hw

theorem Sane.produce_unattached (h : Sane c) (hconsumer : c.chunked.hasConsumerAttached = false)
    (hflight : c.chunked.inFlight = []) {op : ChunkedOp} (hop : op ≠ .attach) {chunked : Chunked}
    (hstep : c.chunked.stepOf kind op = some chunked) : Sane (c.produce chunked) := by
  obtain ⟨hconsumer', hflight', hended, hphase⟩ :=
    Chunked.unattached_stepOf hconsumer hflight hop hstep
  rw [produce, hended, if_neg (Nat.lt_irrefl _)]
  exact h.unattached hconsumer (Chunked.inv_stepOf h.chunks hstep) hconsumer' hflight' hphase

/-- **A step of the producer** goes on with the response or ends it, unless it loses the end. -/
theorem Sane.produce (h : Sane c) {op : ChunkedOp} (hop : op ≠ .attach)
    (hloses : ¬ (Chunked.Succeeds op ∧ Chunked.LosesEndOf kind c.chunked op)) {chunked : Chunked}
    (hstep : c.chunked.stepOf kind op = some chunked) : Sane (c.produce chunked) := by
  have hdetached : c.chunked.phase = .detached → Sane (c.produce chunked) := by
    intro hphase
    obtain ⟨hconsumer, hflight, -⟩ := h.chunks.of_detached hphase
    exact h.produce_unattached hconsumer hflight hop hstep
  cases h.stage with
  | handshake _ _ _ hf => exact hdetached hf.phase
  | header _ _ _ _ hf => exact hdetached hf.phase
  | rejected _ _ _ _ hphase => exact hdetached hphase
  | request hreading hprogress =>
    cases hprogress with
    | handler _ hf => exact hdetached hf.phase
    | writing _ _ hphase => exact hdetached hphase
    | finished _ _ hconsumer hflight => exact h.produce_unattached hconsumer hflight hop hstep
    | chunking hs hk hphase hended hstuck hwrites =>
      have hinv := Chunked.inv_stepOf h.chunks hstep
      by_cases hend : chunked.ended = 0
      · rw [Connection.produce, hended, hend, if_neg (Nat.lt_irrefl 0)]
        refine ⟨hinv, .request ⟨hreading.handshake, hreading.body⟩ (.chunking ⟨hs.owed, hs.sent⟩
          ⟨hk.removals, hk.registered⟩ (h.chunks.phase_stepOf hphase hstep) hend ?_ hwrites)⟩
        by_cases hsucceeds : Chunked.Succeeds op
        · have hundisturbed : Chunked.Undisturbed c.chunked :=
            ⟨h.chunks, fun hpositive => by omega⟩
          exact Chunked.not_stuck_stepOf hsucceeds hundisturbed (fun hl => hloses ⟨hsucceeds, hl⟩)
            hstep
        · simp only [Chunked.Succeeds, not_forall, not_not] at hsucceeds
          obtain ⟨ec, rfl⟩ := hsucceeds
          exact absurd hend (h.chunks.ended_of_failed hstep).ne'
      · have hpositive : 0 < chunked.ended := by omega
        rw [Connection.produce, hended, if_pos hpositive]
        have hresting : Resting { c with chunked := chunked } := by
          refine ⟨hinv, ⟨hreading.handshake, hreading.body⟩, ⟨hs.owed, hs.sent⟩,
            ⟨hk.removals, hk.registered⟩, hwrites, ?_, ?_⟩
          · rw [← Bool.not_eq_true, hinv.attached, not_and]
            exact fun _ => hend
          · rcases hinv.flight with hf | ⟨_, _, _, _, hzero⟩ | ⟨_, _, hzero⟩
            · exact hf
            · exact absurd hzero hend
            · exact absurd hzero hend
        exact hresting.sane_endResponse

/-- **A compression that fails** between two writes ends the response, if it has a consumer. -/
theorem Sane.productionFailure (h : Sane c) (hflight : c.chunked.inFlight = []) (data : Bytes) :
    Sane { c with chunked := c.chunked.productionFailure data } := by
  have hinv := h.chunks.productionFailure hflight data
  by_cases hattached : c.chunked.hasConsumerAttached
  · obtain ⟨hphase, hended⟩ := h.chunks.attached.mp hattached
    have hfailed := Chunked.productionFailure_of_attached hattached data
    refine ⟨hinv, ?_⟩
    cases h.stage with
    | handshake _ _ _ hf => exact absurd hf.phase hphase
    | header _ _ _ _ hf => exact absurd hf.phase hphase
    | rejected _ _ _ _ hdetached => exact absurd hdetached hphase
    | request hreading hprogress =>
      refine .request ⟨hreading.handshake, hreading.body⟩ ?_
      cases hprogress with
      | handler _ hf => exact absurd hf.phase hphase
      | writing _ _ hdetached => exact absurd hdetached hphase
      | finished _ _ hconsumer =>
        exact absurd hattached (by rw [hconsumer]; exact Bool.false_ne_true)
      | chunking hs hk _ _ _ hwrites =>
        refine .chunking ⟨hs.owed, hs.sent⟩ ⟨hk.removals, hk.registered⟩ ?_ ?_ ?_ hwrites
        · rw [hfailed]
          exact hphase
        · rw [hfailed]
          exact hended
        · intro hstuck
          refine hstuck.terminal ?_
          rw [hfailed]
          exact List.mem_append_right _ (List.mem_singleton_self _)
  · rw [Bool.not_eq_true] at hattached
    rw [Chunked.productionFailure_of_unattached hattached] at hinv ⊢
    exact h.unattached hattached hinv hattached hflight id

/-! ### One step -/

/-- The timer closes the socket at most. -/
theorem checkDeadline_cases (c : Connection) (ec : Option ErrorCode) (passed : Bool) :
    ∃ waits closed, c.checkDeadline ec passed = { c with waits := waits, closed := closed } := by
  rw [checkDeadline]
  split_ifs
  · exact ⟨c.waits, c.closed, rfl⟩
  · exact ⟨c.waits, c.closed, rfl⟩
  · exact ⟨c.waits, true, rfl⟩
  · exact ⟨c.waits, true, rfl⟩
  · exact ⟨c.waits + 1, c.closed, rfl⟩

/-- The timer is no matter of it, and of a response handler it only matters that it has neither
started a response nor forgotten that it has. -/
theorem Sane.aside (h : Sane c) (waits : Nat) (closed : Bool) {r : ResponseHandler}
    (hr : r.headerSent = c.response.headerSent) :
    Sane { c with response := r, waits := waits, closed := closed } := by
  have hfresh : Fresh c → Fresh { c with response := r, waits := waits, closed := closed } := by
    intro hf
    exact ⟨⟨hf.kept.removals, hf.kept.registered⟩, hf.writes, hf.phase, hr.trans hf.sent⟩
  refine ⟨h.chunks, ?_⟩
  cases h.stage with
  | handshake hhandshake hreads howed hf => exact .handshake hhandshake hreads howed (hfresh hf)
  | header hhandshake hreads hcallback howed hf =>
    exact .header hhandshake hreads hcallback howed (hfresh hf)
  | rejected hhandshake hreads howed hg hp hw =>
    exact .rejected hhandshake hreads howed ⟨hg.removals, hg.registered⟩ hp hw
  | request hreading hprogress =>
    exact .request ⟨hreading.handshake, hreading.body⟩ (hprogress.congr rfl hr rfl rfl rfl rfl)

/-- What is owed has not been started. -/
theorem Sane.fresh_of_owed (h : Sane c) (howed : c.owed = true) : Reading c ∧ Fresh c := by
  cases h.stage with
  | handshake _ _ hnot => exact absurd (hnot.symm.trans howed) Bool.false_ne_true
  | header _ _ _ hnot => exact absurd (hnot.symm.trans howed) Bool.false_ne_true
  | rejected _ _ hnot => exact absurd (hnot.symm.trans howed) Bool.false_ne_true
  | request hreading hprogress =>
    cases hprogress with
    | handler _ hfresh => exact ⟨hreading, hfresh⟩
    | writing hs => exact absurd (hs.owed.symm.trans howed) Bool.false_ne_true
    | chunking hs => exact absurd (hs.owed.symm.trans howed) Bool.false_ne_true
    | finished hs => exact absurd (hs.owed.symm.trans howed) Bool.false_ne_true

/-- A pending write is the only one, and nothing else of the response is pending. -/
theorem Sane.resting_of_written (h : Sane c) {i : Nat} {w : PendingWrite}
    (hw : c.writes[i]? = some w) :
    c.chunked.phase = .detached ∧ Resting { c with writes := c.writes.eraseIdx i } := by
  have hne : c.writes ≠ [] := by
    intro hnil
    rw [hnil] at hw
    cases hw
  cases h.stage with
  | handshake _ _ _ hf => exact absurd hf.writes hne
  | header _ _ _ _ hf => exact absurd hf.writes hne
  | rejected _ _ _ _ _ hnil => exact absurd hnil hne
  | request hreading hprogress =>
    cases hprogress with
    | handler _ hf => exact absurd hf.writes hne
    | chunking _ _ _ _ _ hnil => exact absurd hnil hne
    | finished _ _ _ _ hnil => exact absurd hnil hne
    | writing hs hk hphase w' hwrites =>
      obtain ⟨hconsumer, hflight, -⟩ := h.chunks.of_detached hphase
      rw [hwrites] at hw
      cases i with
      | succ i => cases hw
      | zero =>
        refine ⟨hphase, h.chunks, ⟨hreading.handshake, hreading.body⟩, ⟨hs.owed, hs.sent⟩,
          ⟨hk.removals, hk.registered⟩, ?_, hconsumer, hflight⟩
        rw [hwrites]
        rfl

/-- **One step** keeps what holds, unless it is faulty. -/
theorem sane_step (h : Sane c) {op : ConnectionOp} (hfaulty : ¬ Faulty cfg kind c op)
    (hstep : c.step cfg kind op = some c') : Sane c' := by
  cases op with
  | handshake ec =>
    simp only [step] at hstep
    split_ifs at hstep with hhandshake
    cases ec with
    | some ec => exact absurd nofun hfaulty
    | none =>
      cases hstep
      cases h.stage with
      | handshake _ hreads howed hf =>
        refine ⟨h.chunks, .header rfl (congrArg (· + 1) hreads) rfl howed ?_⟩
        exact ⟨⟨hf.kept.removals, hf.kept.registered⟩, hf.writes, hf.phase, hf.sent⟩
      | header hnot => exact absurd (hnot.symm.trans hhandshake) Bool.false_ne_true
      | rejected hnot => exact absurd (hnot.symm.trans hhandshake) Bool.false_ne_true
      | request hreading =>
        exact absurd (hreading.handshake.symm.trans hhandshake) Bool.false_ne_true
  | read ec amount d =>
    simp only [step] at hstep
    split_ifs at hstep with hpending
    cases hstep
    cases h.stage with
    | handshake _ hreads => omega
    | rejected _ hreads => omega
    | header hhandshake hreads hcallback howed hf =>
      have hfresh : Fresh { c with reads := c.reads - 1 } :=
        ⟨⟨hf.kept.removals, hf.kept.registered⟩, hf.writes, hf.phase, hf.sent⟩
      rw [onRead_header (c := { c with reads := c.reads - 1 }) hcallback]
      refine hfresh.sane_headerReadHandler h.chunks hhandshake (congrArg (· - 1) hreads) hcallback
        howed ec amount d ?_
      rintro rfl rfl hdone
      exact hfaulty ⟨hcallback, hdone⟩
    | request hreading hprogress =>
      have hcallback := hreading.body.resolve_left (by omega)
      rw [onRead_body (c := { c with reads := c.reads - 1 }) hcallback]
      have hsame : Progress { c with reads := c.reads - 1 } :=
        hprogress.congr rfl rfl rfl rfl rfl rfl
      refine hsame.sane_bodyReadHandler h.chunks hreading.handshake hcallback ec amount
        ?_
      intro e he hboth
      subst he
      exact hfaulty ⟨hcallback, hboth⟩
  | waited ec passed =>
    simp only [step] at hstep
    split_ifs at hstep
    cases hstep
    obtain ⟨waits, closed, hcheck⟩ := checkDeadline_cases { c with waits := c.waits - 1 } ec passed
    rw [hcheck]
    exact h.aside waits closed rfl
  | respond op =>
    simp only [step] at hstep
    split_ifs at hstep with howed
    cases hstep
    obtain ⟨hreading, hf⟩ := h.fresh_of_owed howed
    have hfresh : Fresh { c with owed := !op.concludes } :=
      ⟨⟨hf.kept.removals, hf.kept.registered⟩, hf.writes, hf.phase, hf.sent⟩
    by_cases hop : op.concludes
    · exact hfresh.sane_respond h.chunks ⟨hreading.handshake, hreading.body⟩ (by rw [hop]; rfl) hop
    · obtain ⟨r, hr, hrespond⟩ :=
        respond_of_not_concludes cfg (c := { c with owed := !op.concludes }) hop
      rw [hrespond]
      refine ⟨h.chunks, .request ⟨hreading.handshake, hreading.body⟩ (.handler ?_ ?_)⟩
      · rw [Bool.not_eq_true] at hop
        rw [hop]
        rfl
      · exact ⟨⟨hf.kept.removals, hf.kept.registered⟩, hf.writes, hf.phase, hr.trans hf.sent⟩
  | readBody max =>
    simp only [step] at hstep
    split_ifs at hstep with howed
    cases hstep
    obtain ⟨hreading, hf⟩ := h.fresh_of_owed howed.1
    exact hf.sane_readBody h.chunks hreading.handshake howed.1 max
  | written i ec =>
    simp only [step] at hstep
    split at hstep
    · cases hstep
    · next w hw =>
      cases hstep
      obtain ⟨hphase, hresting⟩ := h.resting_of_written hw
      exact hresting.sane_onWritten hphase ec w
  | chunked op =>
    simp only [step] at hstep
    split_ifs at hstep with hop
    obtain ⟨chunked, hchunked, rfl⟩ := Option.map_eq_some_iff.mp hstep
    rw [not_or] at hop
    exact h.produce hop.1 hfaulty hchunked
  | compressionFails data =>
    simp only [step] at hstep
    split_ifs at hstep
    cases hstep
    exact h.productionFailure (not_not.mp hfaulty) data

/-! ### Whole runs -/

theorem sane_accept (secure : Bool) : Sane (accept secure) := by
  have hfresh : Fresh {} := ⟨⟨rfl, rfl⟩, rfl, rfl, rfl⟩
  cases secure with
  | false =>
    refine ⟨Chunked.inv_init, .header rfl rfl rfl rfl ?_⟩
    exact ⟨⟨rfl, rfl⟩, rfl, rfl, rfl⟩
  | true =>
    refine ⟨Chunked.inv_init, .handshake rfl rfl rfl ?_⟩
    exact ⟨⟨rfl, rfl⟩, rfl, rfl, rfl⟩

/-- **The removal of connections**: in a run without faulty steps, a connection with nothing pending
and nothing owed has been removed, and `remove` has been called for it once. -/
theorem removed_once (cfg : Config) (kind : ProducerKind) (secure : Bool) (ops : List ConnectionOp)
    (hops : Along (step cfg kind) (fun c op => ¬ Faulty cfg kind c op) (accept secure) ops)
    (c : Connection) (hrun : run (step cfg kind) (accept secure) ops = some c)
    (hquiescent : Quiescent c) (howes : ¬ Owes c) : c.removals = 1 ∧ c.registered = false := by
  have hsane : Sane c := by
    refine run_invariant_along (I := Sane) ?_ (sane_accept secure) hops hrun
    intro c op c' h hfaulty hstep
    exact sane_step h hfaulty hstep
  obtain ⟨hremovals, hregistered⟩ := hsane.gone hquiescent howes
  exact ⟨hremovals, hregistered⟩

/-- A connection over TLS whose request is malformed: it is answered with 400 and removed. -/
theorem removed_once_malformed :
    ∃ c, run (step {} .brotli) (accept true)
        [.handshake none, .read none (bytes "GET / x ") (some .handler),
          .written 0 none, .written 0 none] = some c ∧
      c.removals = 1 ∧ c.registered = false := by
  refine ⟨_, rfl, removed_once {} .brotli true
    [.handshake none, .read none (bytes "GET / x ") (some .handler),
      .written 0 none, .written 0 none] ?_ _ rfl ?_ ?_⟩
  · exact ⟨fun h => h rfl, fun _ _ => ⟨id, fun _ _ => ⟨id, fun _ _ => ⟨id, fun _ _ => trivial⟩⟩⟩⟩
  · exact ⟨rfl, rfl, rfl, rfl, nofun⟩
  · intro howes
    rcases howes with howed | ⟨hphase, -⟩
    · cases howed
    · exact hphase rfl

/-- A connection whose handshake fails is never removed. -/
theorem removal_forgotten :
    ¬ ∀ (cfg : Config) (kind : ProducerKind) (secure : Bool) (ops : List ConnectionOp)
      (c : Connection), run (step cfg kind) (accept secure) ops = some c → Quiescent c → ¬ Owes c →
        c.removals = 1 ∧ c.registered = false := by
  intro hclaim
  have hremoved := hclaim {} .streaming true [.handshake (some (.other 1))] {} rfl
      ⟨rfl, rfl, rfl, rfl, nofun⟩ fun howes => by
    rcases howes with howed | ⟨hphase, -⟩
    · cases howed
    · exact hphase rfl
  exact absurd hremoved.1 Nat.zero_ne_one

end Attender.Http.Connection
