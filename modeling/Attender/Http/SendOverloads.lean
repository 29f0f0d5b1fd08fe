import Attender.Http.Connection
import Attender.Library.Runs

/-!
# The overloads of `send`

One response from its `send` to the removal of the connection, with the bytes of
its writes. A string and a vector are written in one piece behind the header. A
stream is read and written in pieces of the size of the buffer, each by the
completion of the one before, until a piece does not fill the buffer.
-/

namespace Attender.Http

open Attender.Library Attender.Utility

/-- The body is a stream, so `on_finish` has been given. -/
def Body.isStream : Body → Bool
  | .string _ | .vector _ => false
  | .stream _ => true

namespace ResponseHandler

variable {r : ResponseHandler}

/-- What `send` makes of a response whose content type has been set, for a body of this size. -/
def sized (r : ResponseHandler) (size : Nat) : ResponseHandler :=
  let r := r.trySet (bytes "Content-Length") (bytes (toString size))
  if r.header.code = 204 ∧ size ≠ 0 then r.status 200
  else if r.header.code = 200 ∧ size = 0 then r.status 204
  else r

theorem trySet_of_hasField {field : Bytes} (h : r.header.hasField field = true) (value : Bytes) :
    r.trySet field value = r := by
  rw [trySet, if_pos h]

theorem hasField_trySet {field : Bytes} (h : r.header.hasField field = true) (key value : Bytes) :
    (r.trySet key value).header.hasField field = true := by
  rw [trySet]
  split_ifs
  · exact h
  · rw [set, ResponseHeader.hasField, ResponseHeader.setField, AList.lookup_isSome,
      AList.mem_insert]
    exact .inr (AList.lookup_isSome.mp h)

/-- The overloads of `send` differ in the content type alone, and in what follows the header. -/
theorem send_of_hasField (h : r.header.hasField (bytes "Content-Type") = true) (body : Body) :
    r.send body = (r.sized body.content.length).sendHeader (.body body) := by
  rw [send, trySet_of_hasField (hasField_trySet h _ _)]
  rfl

theorem headerSent_sized (size : Nat) : (r.sized size).headerSent = r.headerSent := by
  rw [sized]
  split_ifs
  · simp [status]
  · simp [status]
  · simp

end ResponseHandler

/-- A response that is sent. -/
structure Transfer where
  response : ResponseHandler
  /-- The bytes of the write that has not completed, and what its completion does. -/
  pending : Option (Bytes × PendingWrite) := none
  /-- The bytes of the writes that have completed without an error. -/
  wire : Bytes := []
  /-- How often `on_finish` has been called. -/
  finished : Nat := 0
  /-- How often `connection_manager::remove` has been called for the connection. -/
  removals : Nat := 0

namespace Transfer

variable (cfg : Config) (order : ResponseHeader → List (Bytes × Bytes))

/-! ### The writes -/

/-- `async_write` of the write buffer. -/
def asyncWrite (s : Transfer) (data : Bytes) (w : PendingWrite) : Transfer :=
  { s with pending := some (data, w) }

/-- `connections->remove(connection_)`. -/
def remove (s : Transfer) : Transfer := { s with removals := s.removals + 1 }

/-- The `cleanup` of `write`. -/
def cleanup (s : Transfer) (stream : Bool) : Transfer :=
  if stream then { s with finished := s.finished + 1 } else s

/-- The connection does what the response handler asks for, and runs its continuations with
`continue_`. -/
def perform (continue_ : Transfer → HeaderContinuation → Transfer) (s : Transfer)
    (outcome : ResponseHandler.Outcome) : Transfer :=
  outcome.2.foldl
    (fun s effect =>
      match effect with
      | .write header continuation =>
        s.asyncWrite (header.toString (order header)) (.header continuation)
      | .run continuation => continue_ s continuation)
    { s with response := outcome.1 }

/-- `res->end()`, which has no other continuation than the removal. -/
def endResponse (s : Transfer) : Transfer := s.perform order (fun s _ => s.remove) s.response.end_

/-- `http_connection_base::write` of a stream. -/
def writeStream (s : Transfer) (stream : Bytes) : Transfer :=
  let piece := stream.take cfg.bufferSize
  if piece ≠ [] then
    s.asyncWrite piece (.stream (piece.length = cfg.bufferSize) (stream.drop cfg.bufferSize))
  else (s.cleanup true).endResponse order

/-- `http_connection_base::write` of a body. -/
def writeBody (s : Transfer) : Body → Transfer
  | .string body => s.asyncWrite body .body
  | .vector body => s.asyncWrite body .body
  | .stream stream => s.writeStream cfg order stream

/-- The continuations of `send_header`. That of a response in chunks goes on elsewhere. -/
def continueWith (ec : Option ErrorCode) (s : Transfer) : HeaderContinuation → Transfer
  | .remove => s.remove
  | .body body =>
    if ec.isSome then (s.cleanup body.isStream).endResponse order else s.writeBody cfg order body
  | .chunked => if ec.isSome then s.endResponse order else s

/-- `response_handler::send`. -/
def send (r : ResponseHandler) (body : Body) : Transfer :=
  perform order (continueWith cfg order none) { response := r } (r.send body)

/-- What the completion of a write does. -/
def onWritten (s : Transfer) (ec : Option ErrorCode) : PendingWrite → Transfer
  | .header continuation => s.continueWith cfg order ec continuation
  | .body => s.endResponse order
  | .stream filled rest =>
    if ec.isNone ∧ filled then s.writeStream cfg order rest
    else (s.cleanup true).endResponse order

/-- The write that is pending completes. -/
def complete (s : Transfer) (ec : Option ErrorCode) : Option Transfer :=
  match s.pending with
  | none => none
  | some (data, w) =>
    some ({ s with pending := none, wire := if ec.isNone then s.wire ++ data else s.wire }.onWritten
      cfg order ec w)

/-! ### What is pending -/

/-- The header of a response has been sent, and it has been neither finished nor removed. -/
structure Open (s : Transfer) : Prop where
  sent : s.response.headerSent = true
  finished : s.finished = 0
  removals : s.removals = 0

/-- The response has been finished, and the connection removed. -/
structure Ended (stream : Bool) (s : Transfer) : Prop where
  pending : s.pending = none
  finished : s.finished = if stream then 1 else 0
  removals : s.removals = 1

/-- What has been written, and what is still to be written once the pending write has succeeded. -/
inductive Awaits (text : Bytes) (body : Body) (s : Transfer) : Prop where
  /-- The header. -/
  | header (hpending : s.pending = some (text, .header (.body body))) (hwire : s.wire = [])
  /-- A body in one piece. -/
  | whole (hstream : body.isStream = false) (hpending : s.pending = some (body.content, .body))
      (hwire : s.wire = text)
  /-- A piece of a stream, which is the last if it does not fill the buffer. -/
  | piece (hstream : body.isStream = true) (data rest : Bytes) (filled : Bool)
      (hpending : s.pending = some (data, .stream filled rest))
      (hwire : s.wire ++ data ++ rest = text ++ body.content) (hlast : filled = false → rest = [])

/-- A bound of the writes that are still to complete. -/
def remaining (s : Transfer) : Nat :=
  match s.pending with
  | none => 0
  | some (_, .header (.body body)) => body.content.length + 2
  | some (_, .header _) => 1
  | some (_, .body) => 1
  | some (_, .stream _ rest) => rest.length + 1

section Steps

variable {cfg : Config} {order : ResponseHeader → List (Bytes × Bytes)} {text : Bytes} {body : Body}
  {s s' : Transfer} {ec : Option ErrorCode}

/-- The completion of the write that is pending. -/
theorem complete_of_pending {data : Bytes} {w : PendingWrite} (h : s.pending = some (data, w)) :
    s.complete cfg order ec =
      some ({ s with
        pending := none, wire := if ec.isNone then s.wire ++ data else s.wire }.onWritten
          cfg order ec w) := by
  rw [complete, h]

/-- The body follows a header that has been written. -/
theorem complete_of_header {data : Bytes} (h : s.pending = some (data, .header (.body body))) :
    s.complete cfg order none =
      some ({ s with pending := none, wire := s.wire ++ data }.writeBody cfg order body) := by
  rw [complete_of_pending h]
  rfl

theorem writeBody_of_whole (h : body.isStream = false) :
    s.writeBody cfg order body = s.asyncWrite body.content .body := by
  cases body with
  | string content => rfl
  | vector content => rfl
  | stream content => cases h

theorem writeBody_of_stream (h : body.isStream = true) :
    s.writeBody cfg order body = s.writeStream cfg order body.content := by
  cases body with
  | string content => cases h
  | vector content => cases h
  | stream content => rfl

/-- The end of a response that has been sent removes the connection. -/
theorem ended_endResponse (hsent : s.response.headerSent = true) (hpending : s.pending = none)
    (hremovals : s.removals = 0) {stream : Bool}
    (hfinished : s.finished = if stream then 1 else 0) :
    Ended stream (s.endResponse order) ∧ (s.endResponse order).wire = s.wire := by
  have hconcluded : s.response.conclude.headerSent = true := hsent
  obtain ⟨r, hsend, -⟩ := ResponseHandler.sendHeader_of_sent hconcluded .remove
  rw [endResponse, ResponseHandler.end_, hsend]
  exact ⟨⟨hpending, hfinished, congrArg (· + 1) hremovals⟩, rfl⟩

variable (order) in
/-- A response is finished, and then ended. -/
theorem ended_cleanup (h : Open s) (hpending : s.pending = none) (stream : Bool) :
    Ended stream ((s.cleanup stream).endResponse order) ∧
      ((s.cleanup stream).endResponse order).wire = s.wire := by
  cases stream with
  | false => exact ended_endResponse h.sent hpending h.removals h.finished
  | true =>
    exact ended_endResponse (s := { s with finished := s.finished + 1 }) h.sent hpending h.removals
      (congrArg (· + 1) h.finished)

variable (order) in
/-- **A stream that is written**: its next piece is pending, or there was none. -/
theorem writeStream_cases (hbuffer : 0 < cfg.bufferSize) (h : Open s) (hpending : s.pending = none)
    (hstream : body.isStream = true) {rest : Bytes}
    (hwire : s.wire ++ rest = text ++ body.content) :
    (Open (s.writeStream cfg order rest) ∧ Awaits text body (s.writeStream cfg order rest) ∧
        (s.writeStream cfg order rest).remaining ≤ rest.length) ∨
      (Ended body.isStream (s.writeStream cfg order rest) ∧
        (s.writeStream cfg order rest).wire = text ++ body.content) := by
  rw [writeStream]
  by_cases hpiece : rest.take cfg.bufferSize = []
  · -- the stream was at its end, as after a last piece that has filled the buffer
    right
    have hrest : rest = [] := by
      rcases List.take_eq_nil_iff.mp hpiece with hzero | hrest
      · exact absurd hzero hbuffer.ne'
      · exact hrest
    obtain ⟨hended, hsame⟩ := ended_cleanup order h hpending true
    rw [if_neg (not_not.mpr hpiece)]
    exact ⟨by rwa [hstream], by rw [hsame, ← hwire, hrest, List.append_nil]⟩
  · left
    have hrest : rest ≠ [] := fun hnil => hpiece (by rw [hnil, List.take_nil])
    rw [if_pos hpiece]
    refine ⟨⟨h.sent, h.finished, h.removals⟩, .piece hstream _ _ _ rfl ?_ ?_, ?_⟩
    · rw [← hwire]
      simp [asyncWrite]
    · intro hlast
      have hshort : (rest.take cfg.bufferSize).length ≠ cfg.bufferSize := of_decide_eq_false hlast
      rw [List.length_take] at hshort
      exact List.drop_eq_nil_of_le (by omega)
    · have hpos := List.length_pos_iff.mpr hrest
      change (rest.drop cfg.bufferSize).length + 1 ≤ rest.length
      rw [List.length_drop]
      omega

/-- **The write that is pending completes**: after an error the response has ended. Otherwise the
next write is pending, or all has been written and the response has ended. -/
theorem complete_cases (hbuffer : 0 < cfg.bufferSize) (h : Open s) (hawaits : Awaits text body s)
    (hstep : s.complete cfg order ec = some s') :
    (ec = none ∧ Open s' ∧ Awaits text body s' ∧ s'.remaining < s.remaining) ∨
      (Ended body.isStream s' ∧ (ec = none → s'.wire = text ++ body.content)) := by
  -- the state in which the completion handler runs
  have hopen : ∀ wire, Open { s with pending := none, wire := wire } :=
    fun _ => ⟨h.sent, h.finished, h.removals⟩
  cases hawaits with
  | header hpending hwire =>
    cases ec with
    | some ec =>
      rw [complete_of_pending hpending, Option.some.injEq] at hstep
      subst hstep
      exact .inr ⟨(ended_cleanup order (hopen s.wire) rfl body.isStream).1, by rintro ⟨⟩⟩
    | none =>
      rw [complete_of_header hpending, Option.some.injEq] at hstep
      subst hstep
      have hremaining : s.remaining = body.content.length + 2 := by rw [remaining, hpending]
      have htext : s.wire ++ text = text := by rw [hwire, List.nil_append]
      cases hstream : body.isStream with
      | false =>
        rw [writeBody_of_whole hstream]
        refine .inl ⟨rfl, ⟨h.sent, h.finished, h.removals⟩, .whole hstream rfl htext, ?_⟩
        exact hremaining ▸ Nat.lt_add_left _ Nat.one_lt_two
      | true =>
        rw [writeBody_of_stream hstream]
        have hrest : s.wire ++ text ++ body.content = text ++ body.content := by rw [htext]
        rcases writeStream_cases order hbuffer (hopen (s.wire ++ text)) rfl hstream hrest
          with ⟨hnext, hawaits, hless⟩ | hend
        · refine .inl ⟨rfl, hnext, hawaits, hremaining ▸ ?_⟩
          exact Nat.lt_add_right 1 (Nat.lt_succ_of_le hless)
        · exact .inr ⟨hstream ▸ hend.1, fun _ => hend.2⟩
  | whole hstream hpending hwire =>
    rw [complete_of_pending hpending, Option.some.injEq] at hstep
    subst hstep
    obtain ⟨hended, hsame⟩ := ended_cleanup order
      (hopen (if ec.isNone then s.wire ++ body.content else s.wire)) rfl false
    refine .inr ⟨by rwa [hstream], ?_⟩
    rintro rfl
    exact hsame.trans (by simp [hwire])
  | piece hstream data rest filled hpending hwire hlast =>
    rw [complete_of_pending hpending, Option.some.injEq] at hstep
    subst hstep
    by_cases hmore : ec.isNone ∧ filled
    · obtain ⟨hec, rfl⟩ := hmore
      obtain rfl := Option.isNone_iff_eq_none.mp hec
      rcases writeStream_cases order hbuffer (hopen (s.wire ++ data)) rfl hstream hwire
        with ⟨hnext, hawaits, hless⟩ | hend
      · have hremaining : s.remaining = rest.length + 1 := by rw [remaining, hpending]
        exact .inl ⟨rfl, hnext, hawaits, hremaining ▸ Nat.lt_succ_of_le hless⟩
      · exact .inr ⟨hend.1, fun _ => hend.2⟩
    · obtain ⟨hended, hsame⟩ := ended_cleanup order
        (hopen (if ec.isNone then s.wire ++ data else s.wire)) rfl true
      rw [onWritten, if_neg hmore]
      refine .inr ⟨by rwa [hstream], ?_⟩
      rintro rfl
      have hrest : rest = [] := hlast (by simpa using hmore)
      rw [hrest, List.append_nil] at hwire
      exact hsame.trans hwire

theorem Awaits.pending_isSome (h : Awaits text body s) : ∃ write, s.pending = some write := by
  cases h with
  | header hpending hwire => exact ⟨_, hpending⟩
  | whole hstream hpending hwire => exact ⟨_, hpending⟩
  | piece hstream data rest filled hpending hwire hlast => exact ⟨_, hpending⟩

variable (cfg order) in
/-- While a write is pending, its completion can come. -/
theorem Awaits.exists_complete (h : Awaits text body s) (ec : Option ErrorCode) :
    ∃ s', s.complete cfg order ec = some s' := by
  obtain ⟨⟨data, w⟩, hpending⟩ := h.pending_isSome
  exact ⟨_, complete_of_pending hpending⟩

/-- Nothing completes once the response has ended. -/
theorem complete_of_ended {stream : Bool} (h : Ended stream s) :
    s.complete cfg order ec = none := by
  rw [complete, h.pending]

/-- **The writes of a response**: either all have succeeded so far, and the next is pending, or the
response has ended. -/
theorem run_cases (hbuffer : 0 < cfg.bufferSize) {ecs : List (Option ErrorCode)} (h : Open s)
    (hawaits : Awaits text body s) (hrun : run (complete cfg order) s ecs = some s') :
    ((∀ ec ∈ ecs, ec = none) ∧ Open s' ∧ Awaits text body s') ∨
      (Ended body.isStream s' ∧
        ((∀ ec ∈ ecs, ec = none) → s'.wire = text ++ body.content)) := by
  induction ecs generalizing s with
  | nil =>
    rw [run_nil, Option.some.injEq] at hrun
    subst hrun
    exact .inl ⟨by simp, h, hawaits⟩
  | cons ec ecs ih =>
    obtain ⟨s₁, hstep, hrest⟩ := run_cons.mp hrun
    rcases complete_cases hbuffer h hawaits hstep with ⟨rfl, h₁, hawaits₁, -⟩ | ⟨hended, hwire⟩
    · rcases ih h₁ hawaits₁ hrest with ⟨hnone, h', hawaits'⟩ | ⟨hended, hwire⟩
      · exact .inl ⟨List.forall_mem_cons.mpr ⟨rfl, hnone⟩, h', hawaits'⟩
      · exact .inr ⟨hended, fun hnone => hwire (List.forall_mem_cons.mp hnone).2⟩
    · -- this write was the last
      cases ecs with
      | nil =>
        rw [run_nil, Option.some.injEq] at hrest
        subst hrest
        exact .inr ⟨hended, fun hnone => hwire (List.forall_mem_cons.mp hnone).1⟩
      | cons ec' ecs =>
        obtain ⟨s₂, hstep₂, -⟩ := run_cons.mp hrest
        rw [complete_of_ended hended] at hstep₂
        cases hstep₂

/-- Whatever the results of the writes are, one of them is the last. -/
theorem exists_last (hbuffer : 0 < cfg.bufferSize) (h : Open s) (hawaits : Awaits text body s)
    (outcomes : Nat → Option ErrorCode) :
    ∃ n s', run (complete cfg order) s ((List.range n).map outcomes) = some s' ∧
      s'.pending = none := by
  induction hless : s.remaining using Nat.strong_induction_on generalizing s outcomes with
  | _ k ih =>
    subst hless
    obtain ⟨s₁, hstep⟩ := hawaits.exists_complete cfg order (outcomes 0)
    rcases complete_cases hbuffer h hawaits hstep with ⟨-, h₁, hawaits₁, hless⟩ | ⟨hended, -⟩
    · obtain ⟨n, s', hrun, hpending⟩ :=
        ih s₁.remaining hless h₁ hawaits₁ (fun i => outcomes (i + 1)) rfl
      refine ⟨n + 1, s', ?_, hpending⟩
      rw [List.range_succ_eq_map, List.map_cons, List.map_map]
      exact run_cons.mpr ⟨s₁, hstep, hrun⟩
    · exact ⟨1, s₁, run_cons.mpr ⟨s₁, hstep, rfl⟩, hended.pending⟩

variable (cfg order) in
/-- A response that is sent for the first time: its header is pending. -/
theorem send_cases {r : ResponseHandler} (hsent : r.headerSent = false)
    (htype : r.header.hasField (bytes "Content-Type") = true) {header : ResponseHeader}
    (hheader : (r.sized body.content.length).header = header) :
    (r.send body).2 = [.write header (.body body)] ∧ Open (send cfg order r body) ∧
      Awaits (header.toString (order header)) body (send cfg order r body) := by
  have hsend : r.send body = ({ (r.sized body.content.length).conclude with headerSent := true },
      [.write header (.body body)]) := by
    rw [ResponseHandler.send_of_hasField htype, ResponseHandler.sendHeader, if_pos, ← hheader]
    · rfl
    · change (r.sized body.content.length).headerSent = false
      rw [ResponseHandler.headerSent_sized, hsent]
  rw [send, hsend]
  exact ⟨rfl, ⟨rfl, rfl, rfl⟩, .header rfl rfl⟩

/-! ### The connection -/

/-- The transfer is what happens to the response of this connection. -/
structure Tracks (c : Connection) (s : Transfer) : Prop where
  response : c.response = s.response
  writes : c.writes = s.pending.toList.map Prod.snd
  removals : c.removals = s.removals

variable {c : Connection}

theorem Tracks.remove (h : Tracks c s) : Tracks c.remove s.remove := by
  rw [Connection.remove]
  split_ifs
  · exact ⟨h.response, h.writes, congrArg (· + 1) h.removals⟩
  · exact ⟨h.response, h.writes, congrArg (· + 1) h.removals⟩

/-- A header that is written, or a continuation that is run. -/
theorem Tracks.perform {onConnection : Connection → HeaderContinuation → Connection}
    {onTransfer : Transfer → HeaderContinuation → Transfer} (h : Tracks c s)
    (hpending : s.pending = none) {k : HeaderContinuation}
    (hcontinue : ∀ {c s}, Tracks c s → s.pending = none →
      Tracks (onConnection c k) (onTransfer s k)) (r : ResponseHandler) :
    Tracks (c.perform onConnection (r.sendHeader k))
      (s.perform order onTransfer (r.sendHeader k)) := by
  have hwrites : c.writes = [] := by rw [h.writes, hpending, Option.toList_none, List.map_nil]
  cases hsent : r.headerSent with
  | false =>
    obtain ⟨r', header, hsend, -⟩ := ResponseHandler.sendHeader_of_open hsent k
    rw [hsend]
    exact ⟨rfl, congrArg (· ++ [_]) hwrites, h.removals⟩
  | true =>
    obtain ⟨r', hsend, -⟩ := ResponseHandler.sendHeader_of_sent hsent k
    rw [hsend]
    exact hcontinue ⟨rfl, h.writes, h.removals⟩ hpending

theorem Tracks.endResponse (h : Tracks c s) (hpending : s.pending = none) :
    Tracks c.endResponse (s.endResponse order) := by
  rw [Connection.endResponse, Transfer.endResponse, h.response]
  exact h.perform hpending (fun h _ => h.remove) _

theorem Tracks.cleanup (h : Tracks c s) (stream : Bool) : Tracks c (s.cleanup stream) := by
  cases stream with
  | false => exact h
  | true => exact ⟨h.response, h.writes, h.removals⟩

/-- `on_finish` starts no write. -/
theorem pending_cleanup (stream : Bool) : (s.cleanup stream).pending = s.pending := by
  cases stream with
  | false => rfl
  | true => rfl

theorem Tracks.asyncWrite (h : Tracks c s) (hpending : s.pending = none) (data : Bytes)
    (w : PendingWrite) : Tracks { c with writes := c.writes ++ [w] } (s.asyncWrite data w) := by
  refine ⟨h.response, ?_, h.removals⟩
  rw [h.writes, hpending]
  rfl

theorem Tracks.writeStream (h : Tracks c s) (hpending : s.pending = none) (rest : Bytes) :
    Tracks (c.writeStream cfg rest) (s.writeStream cfg order rest) := by
  rw [Connection.writeStream, Transfer.writeStream]
  by_cases hpiece : rest.take cfg.bufferSize ≠ []
  · rw [if_pos hpiece, if_pos hpiece]
    exact h.asyncWrite hpending _ _
  · rw [if_neg hpiece, if_neg hpiece]
    exact (h.cleanup true).endResponse (by rw [pending_cleanup, hpending])

theorem Tracks.continueWith (h : Tracks c s) (hpending : s.pending = none) (ec : Option ErrorCode)
    (k : HeaderContinuation) :
    Tracks (c.continueWith cfg ec k) (s.continueWith cfg order ec k) := by
  cases k with
  | remove => exact h.remove
  | chunked =>
    rw [Connection.continueWith, Transfer.continueWith]
    split_ifs
    · exact h.endResponse hpending
    · exact ⟨h.response, h.writes, h.removals⟩
  | body body =>
    rw [Connection.continueWith, Transfer.continueWith]
    split_ifs
    · exact (h.cleanup body.isStream).endResponse (by rw [pending_cleanup, hpending])
    · cases body with
      | string content => exact h.asyncWrite hpending _ _
      | vector content => exact h.asyncWrite hpending _ _
      | stream content => exact h.writeStream hpending content

/-- A connection without pending writes whose response is sent. -/
theorem tracks_send (hwrites : c.writes = []) (hremovals : c.removals = 0) :
    Tracks (c.respond cfg (.send body)) (send cfg order c.response body) := by
  have hconcludes : (ResponseOp.send body).concludes := rfl
  obtain ⟨r, k, -, hsend⟩ := c.response.apply_of_concludes hconcludes
  have hbody : c.response.send body = r.sendHeader k := hsend
  rw [Connection.respond, send, hsend, hbody]
  exact Tracks.perform ⟨rfl, hwrites, hremovals⟩ rfl
    (fun h hpending => h.continueWith hpending _ _) r

/-- **The connection takes the same steps** when its writes complete. -/
theorem Tracks.complete (h : Tracks c s) (hstep : s.complete cfg order ec = some s')
    (kind : ProducerKind) : ∃ c', c.step cfg kind (.written 0 ec) = some c' ∧ Tracks c' s' := by
  cases hpending : s.pending with
  | none =>
    rw [Transfer.complete, hpending] at hstep
    cases hstep
  | some write =>
    obtain ⟨data, w⟩ := write
    rw [complete_of_pending hpending, Option.some.injEq] at hstep
    subst hstep
    have hwrites : c.writes = [w] := by rw [h.writes, hpending]; rfl
    refine ⟨{ c with writes := [] }.onWritten cfg ec w, by simp [Connection.step, hwrites], ?_⟩
    have hnext : ∀ wire, Tracks { c with writes := [] }
        { s with pending := none, wire := wire } := fun _ => ⟨h.response, rfl, h.removals⟩
    cases w with
    | header k => exact (hnext _).continueWith rfl ec k
    | body => exact (hnext _).endResponse rfl
    | stream filled rest =>
      by_cases hmore : ec.isNone ∧ filled
      · rw [Connection.onWritten, Transfer.onWritten, if_pos hmore, if_pos hmore]
        exact (hnext _).writeStream rfl rest
      · rw [Connection.onWritten, Transfer.onWritten, if_neg hmore, if_neg hmore]
        exact ((hnext _).cleanup true).endResponse rfl

/-- **A response on its connection**: user code sends it, and then the writes of the connection are
those of the transfer, whatever their results are. -/
theorem connection_of_send (kind : ProducerKind) (howed : c.owed = true) (hwrites : c.writes = [])
    (hremovals : c.removals = 0) {ecs : List (Option ErrorCode)}
    (hrun : run (Transfer.complete cfg order) (send cfg order c.response body) ecs = some s') :
    ∃ c', run (Connection.step cfg kind) c (.respond (.send body) :: ecs.map (.written 0)) =
      some c' ∧ Tracks c' s' := by
  have hsent : Tracks ({ c with owed := false }.respond cfg (.send body))
      (send cfg order c.response body) :=
    tracks_send (c := { c with owed := false }) hwrites hremovals
  have hsteps : ∀ s c ec s', Tracks c s → Transfer.complete cfg order s ec = some s' →
      ∃ c', c.step cfg kind (.written 0 ec) = some c' ∧ Tracks c' s' :=
    fun s c ec s' h hstep => h.complete hstep kind
  obtain ⟨c', hc', htracks⟩ := run_simulation hsteps hsent hrun
  exact ⟨c', run_cons.mpr ⟨_, if_pos howed, hc'⟩, htracks⟩

end Steps

/-- **The overloads of `send`** write the same header, and it and the content if no write fails.
No write follows one that has failed, and after the last the stream has been finished and the
connection removed, once. -/
theorem send_overloads (hbuffer : 0 < cfg.bufferSize) (r : ResponseHandler)
    (hsent : r.headerSent = false) (htype : r.header.hasField (bytes "Content-Type") = true)
    (content : Bytes) :
    ∃ header : ResponseHeader, ∀ body : Body, body.content = content →
      (r.send body).2 = [.write header (.body body)] ∧
      (∀ ecs s', run (complete cfg order) (send cfg order r body) ecs = some s' →
        (s'.pending ≠ none →
          (∀ ec ∈ ecs, ec = none) ∧ s'.finished = 0 ∧ s'.removals = 0) ∧
        (s'.pending = none →
          ((∀ ec ∈ ecs, ec = none) → s'.wire = header.toString (order header) ++ content) ∧
          s'.finished = (if body.isStream then 1 else 0) ∧ s'.removals = 1)) ∧
      ∀ outcomes : Nat → Option ErrorCode, ∃ n s',
        run (complete cfg order) (send cfg order r body) ((List.range n).map outcomes) = some s' ∧
          s'.pending = none := by
  refine ⟨(r.sized content.length).header, ?_⟩
  rintro body rfl
  obtain ⟨hwrite, hopen, hawaits⟩ := send_cases cfg order hsent htype rfl
  refine ⟨hwrite, ?_, exists_last hbuffer hopen hawaits⟩
  intro ecs s' hrun
  rcases run_cases hbuffer hopen hawaits hrun with ⟨hnone, hopen', hawaits'⟩ | ⟨hended, hwire⟩
  · refine ⟨fun _ => ⟨hnone, hopen'.finished, hopen'.removals⟩, fun hpending => ?_⟩
    obtain ⟨write, hwrite⟩ := hawaits'.pending_isSome
    rw [hpending] at hwrite
    cases hwrite
  · exact ⟨fun hpending => absurd hended.pending hpending,
      fun _ => ⟨hwire, hended.finished, hended.removals⟩⟩

/-- A stream that is written without an error. -/
theorem send_overloads_stream :
    ∃ (header : ResponseHeader) (n : Nat) (s' : Transfer),
      run (complete {} fun header => header.fields.entries.map fun e => (e.1, e.2))
        (send {} (fun header => header.fields.entries.map fun e => (e.1, e.2))
          (({} : ResponseHandler).set (bytes "Content-Type") (bytes "text/css"))
          (.stream (bytes "a{}"))) ((List.range n).map fun _ => none) = some s' ∧
        s'.wire = header.toString (header.fields.entries.map fun e => (e.1, e.2)) ++ bytes "a{}" ∧
        s'.finished = 1 ∧ s'.removals = 1 := by
  obtain ⟨header, h⟩ := send_overloads {}
    (fun header => header.fields.entries.map fun e => (e.1, e.2)) (by decide)
    (({} : ResponseHandler).set (bytes "Content-Type") (bytes "text/css")) rfl rfl
    (bytes "a{}")
  obtain ⟨-, hruns, hlast⟩ := h (.stream (bytes "a{}")) rfl
  obtain ⟨n, s', hrun, hpending⟩ := hlast fun _ => none
  obtain ⟨hwire, hfinished, hremovals⟩ := (hruns _ _ hrun).2 hpending
  exact ⟨header, n, s', hrun, hwire (by simp), hfinished, hremovals⟩

end Transfer

end Attender.Http
