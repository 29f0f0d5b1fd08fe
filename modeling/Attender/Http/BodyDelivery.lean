import Attender.Http.RequestHandler
import Attender.Library.Runs

/-!
# The delivery of a body

A run of one `read_body` without a limit: the bytes the parser has left, and then
the reads of the connection while one is outstanding. The continuation gets the
body of `Content-Length` bytes exactly when the stream has not that many, or when
one of the pieces it comes in ends with the last of them.
-/

namespace Attender.Http

open Attender.Library Attender.Utility

/-- A run of a read of a body. -/
structure BodyRun where
  handler : RequestHandler Unit Unit
  /-- A read of the connection is outstanding. -/
  reading : Bool := false
  /-- What has been received of the stream. -/
  received : Bytes
  /-- What the sink held each time the continuation ran. -/
  delivered : List Bytes := []

namespace BodyRun

/-- What the sink holds each time an effect runs the continuation. -/
def deliveries (sink : HttpReadSink) (effects : List (RequestEffect Unit Unit)) : List Bytes :=
  effects.filterMap fun e => match e with
    | .call (.continuation _) => some sink.data
    | _ => none

/-- The run after the request handler has been called. -/
def after (s : BodyRun) (o : RequestHandler.Outcome Unit Unit) : BodyRun :=
  { s with
    handler := o.1
    reading := RequestEffect.read ∈ o.2
    delivered := s.delivered ++ deliveries o.1.sink o.2 }

/-- The continuation set on what `read_body` returns. -/
def setThen (s : BodyRun) : BodyRun :=
  let w := s.handler.onFinishedRead.setThen ()
  { s with
    handler := { s.handler with onFinishedRead := w.1 }
    delivered := s.delivered ++ deliveries s.handler.sink (w.2.map .call) }

/-- `read_body(sink, 0).then(..)`, when the parser has left `leftover` in its buffer. -/
def start (header : RequestHeader) (leftover : Bytes) : BodyRun :=
  let handler : RequestHandler Unit Unit :=
    { header := header, parser := { headerBuffer := leftover, progress := .body } }
  (after { handler := handler, received := leftover } (handler.readBody 0)).setThen

/-- A read of the connection that ends with the bytes `chunk`. -/
def deliver (s : BodyRun) (chunk : Bytes) : BodyRun :=
  if s.reading then
    after { s with received := s.received ++ chunk } (s.handler.bodyReadHandler none chunk)
  else s

end BodyRun

/-- What the run has to come to: while bytes of the body are missing a read is outstanding and the
continuation has not run, then it has run once, with the first `n` bytes, and nothing is read. -/
structure Exact (n : Nat) (stream : Bytes) (s : BodyRun) : Prop where
  short : s.received.length < n → s.reading ∧ s.delivered = []
  full : n ≤ s.received.length → ¬ s.reading ∧ s.delivered = [stream.take n]

/-- A header with the `Content-Length` `n`, in digits. -/
structure HasContentLength (header : RequestHeader) (n : Nat) : Prop where
  field : ∃ value, header.getField (bytes "Content-Length") = some value ∧ IsDecimal value ∧
    decimalValue value = n
  small : n < 2 ^ 63

theorem HasContentLength.get {r : RequestHandler Unit Unit} {n : Nat}
    (h : HasContentLength r.header n) : r.getContentLength = some n := by
  obtain ⟨⟨value, hfield, hdecimal, rfl⟩, hsmall⟩ := h
  rw [RequestHandler.getContentLength, hfield, Option.map_some, atoll_of_isDecimal hdecimal hsmall,
    toSize_natCast (by omega)]

/-! ### The states of a run -/

/-- A run that reads on. -/
structure Waiting (header : RequestHeader) (s : BodyRun) : Prop where
  header : s.handler.header = header
  maxRead : s.handler.maxRead = 0
  sink : s.handler.sink = ⟨s.received.length, s.received⟩
  callback : s.handler.onFinishedRead = { func := some () }
  reading : s.reading
  delivered : s.delivered = []

/-- Where a run is when it has not gone on after the last byte of the body: it has not come there,
or a piece ended there, or a piece went on past it. Then it reads on, or all of the piece is
delivered. -/
inductive Reached (header : RequestHeader) (n : Nat) (s : BodyRun) : Prop where
  | short (hlength : s.received.length < n) (h : Waiting header s)
  | exact (hlength : s.received.length = n) (hread : ¬ s.reading) (h : s.delivered = [s.received])
  | surplus (hlength : n < s.received.length) (h : s.reading ∨ s.delivered = [s.received])

/-- What is left of the body after the bytes in the sink. -/
theorem remaining_of_le {n : Nat} {sink : HttpReadSink} (hn : n < 2 ^ 63)
    (hsink : sink.writtenBytes ≤ n) : RequestHandler.remaining n sink = n - sink.writtenBytes := by
  rw [RequestHandler.remaining, toInt64_of_lt hn, toInt64_of_lt (by omega)]
  omega

/-- What the handler of a read does in a run that waits. -/
theorem bodyReadHandler_of_waiting {header : RequestHeader} {n : Nat} {s : BodyRun}
    (hheader : HasContentLength header n) (h : Waiting header s) (chunk : Bytes) :
    ∃ r : RequestHandler Unit Unit, r.header = header ∧ r.maxRead = 0 ∧
      r.sink = ⟨(s.received ++ chunk).length, s.received ++ chunk⟩ ∧
      r.onFinishedRead = { func := some () } ∧
      s.handler.bodyReadHandler none chunk =
        if RequestHandler.remaining n r.sink = 0 then r.fullfill else (r, [.read]) := by
  have hlength : s.handler.getContentLength = some n := by
    apply HasContentLength.get
    exact h.header ▸ hheader
  obtain ⟨r, hr, hmax, hsink, hcallback, hcall⟩ := RequestHandler.bodyReadHandler_of_below hlength
    h.sink (fun hlimit => absurd h.maxRead hlimit) chunk
  exact ⟨r, hr.trans h.header, hmax.trans h.maxRead, hsink, hcallback.trans h.callback, hcall⟩

/-- **One read**: a run that waits gets to the next state. -/
theorem reached_deliver {header : RequestHeader} {n : Nat} {s : BodyRun}
    (hheader : HasContentLength header n) (h : Waiting header s) (chunk : Bytes) :
    Reached header n (s.deliver chunk) ∧ (s.deliver chunk).received = s.received ++ chunk := by
  obtain ⟨r, hr, hmax, hsink, hcallback, hcall⟩ := bodyReadHandler_of_waiting hheader h chunk
  have hdeliver : s.deliver chunk =
      BodyRun.after { s with received := s.received ++ chunk }
        (s.handler.bodyReadHandler none chunk) := by
    rw [BodyRun.deliver, if_pos h.reading]
  rw [hdeliver, hcall]
  refine ⟨?_, by split_ifs <;> rfl⟩
  rcases Nat.lt_trichotomy (s.received ++ chunk).length n with hlt | heq | hgt
  · have hrem : RequestHandler.remaining n r.sink ≠ 0 := by
      rw [remaining_of_le hheader.small (by rw [hsink]; exact hlt.le), hsink]
      dsimp only
      omega
    rw [if_neg hrem]
    exact .short hlt ⟨hr, hmax, hsink, hcallback, by simp [BodyRun.after],
      by simp [BodyRun.after, BodyRun.deliveries, h.delivered]⟩
  · have hrem : RequestHandler.remaining n r.sink = 0 := by
      rw [remaining_of_le hheader.small (by rw [hsink]; exact heq.le), hsink]
      dsimp only
      omega
    rw [if_pos hrem]
    refine .exact heq ?_ ?_
    · simp [BodyRun.after, RequestHandler.fullfill, CallbackWrapper.fullfill, hcallback]
    · simp [BodyRun.after, RequestHandler.fullfill, CallbackWrapper.fullfill, BodyRun.deliveries,
        hcallback, hsink, h.delivered]
  · refine .surplus (by split_ifs <;> exact hgt) ?_
    split_ifs
    · right
      simp [BodyRun.after, RequestHandler.fullfill, CallbackWrapper.fullfill, BodyRun.deliveries,
        hcallback, hsink, h.delivered]
    · left
      simp [BodyRun.after]

/-- What `read_body` does with what the parser has left. -/
theorem readBody_cases {header : RequestHeader} {n : Nat} (hheader : HasContentLength header n)
    (leftover : Bytes) :
    ∃ r : RequestHandler Unit Unit, r.header = header ∧ r.maxRead = 0 ∧
      r.sink = ⟨leftover.length, leftover⟩ ∧
      r.onFinishedRead = {} ∧
      ∃ b : Bool,
        RequestHandler.readBody
            { header := header, parser := { headerBuffer := leftover, progress := .body } } 0 =
          (if b then r.fullfill else (r, [.read])) ∧
        (leftover.length < n → b = false) ∧ (leftover.length = n → b = true) := by
  let r₀ : RequestHandler Unit Unit :=
    { header := header, parser := { headerBuffer := leftover, progress := .body } }
  have hlength : r₀.getContentLength = some n := HasContentLength.get hheader
  obtain ⟨r, hr, hmax, hsink, hcallback, hcall⟩ :=
    RequestHandler.readBody_of_below hlength 0 (Or.inl rfl)
  have hsmall := hheader.small
  refine ⟨r, hr, hmax, hsink, hcallback, decide (RequestHandler.LeftAll n leftover), ?_, ?_, ?_⟩
  · rw [hcall]
    simp [r₀]
  · intro hlt
    rw [decide_eq_false_iff_not, RequestHandler.LeftAll]
    split_ifs with hempty
    · rw [remaining_of_le hsmall (Nat.zero_le n)]
      dsimp only
      omega
    · exact (sub64_of_lt hlt (by omega)).ne'
  · intro heq
    rw [decide_eq_true_eq, RequestHandler.LeftAll]
    split_ifs with hempty
    · rw [remaining_of_le hsmall (Nat.zero_le n), ← heq, hempty]
      rfl
    · rw [heq, sub64_self (by omega)]

/-- **The start**: a run gets to its first state. -/
theorem reached_start {header : RequestHeader} {n : Nat} (hheader : HasContentLength header n)
    (leftover : Bytes) :
    Reached header n (.start header leftover) ∧
      (BodyRun.start header leftover).received = leftover := by
  obtain ⟨r, hr, hmax, hsink, hcallback, b, hcall, hshort, hfull⟩ := readBody_cases hheader leftover
  refine ⟨?_, rfl⟩
  have hstart : BodyRun.start header leftover = (BodyRun.after
      { handler := { header := header, parser := { headerBuffer := leftover, progress := .body } }
        received := leftover }
      (if b then r.fullfill else (r, [.read]))).setThen := by
    rw [BodyRun.start, hcall]
  rw [hstart]
  rcases Nat.lt_trichotomy leftover.length n with hlt | heq | hgt
  · rw [hshort hlt]
    refine .short hlt ⟨hr, hmax, hsink, ?_, ?_, ?_⟩
    · simp [BodyRun.after, BodyRun.setThen, CallbackWrapper.setThen, hcallback]
    · simp [BodyRun.after, BodyRun.setThen]
    · simp [BodyRun.after, BodyRun.setThen, CallbackWrapper.setThen, hcallback, BodyRun.deliveries]
  · rw [hfull heq]
    refine .exact heq ?_ ?_
    · simp [BodyRun.after, BodyRun.setThen, RequestHandler.fullfill, CallbackWrapper.fullfill,
        hcallback]
    · simp [BodyRun.after, BodyRun.setThen, CallbackWrapper.setThen, RequestHandler.fullfill,
        CallbackWrapper.fullfill, hcallback, BodyRun.deliveries, hsink]
  · refine .surplus hgt ?_
    cases b with
    | false =>
      left
      simp [BodyRun.after, BodyRun.setThen]
    | true =>
      right
      simp [BodyRun.after, BodyRun.setThen, CallbackWrapper.setThen, RequestHandler.fullfill,
        CallbackWrapper.fullfill, hcallback, BodyRun.deliveries, hsink]

/-! ### Whole runs -/

/-- A run that does not read takes no more. -/
theorem foldl_deliver_of_not_reading {s : BodyRun} (h : ¬ s.reading) (cs : List Bytes) :
    cs.foldl BodyRun.deliver s = s := by
  induction cs with
  | nil => rfl
  | cons c cs ih => rw [List.foldl_cons, BodyRun.deliver, if_neg h, ih]

/-- The run has come to what it has to at each of the reads `cs`. -/
def ExactAlong (n : Nat) (stream : Bytes) (s : BodyRun) (cs : List Bytes) : Prop :=
  ∀ i, Exact n stream ((cs.take i).foldl BodyRun.deliver s)

theorem exactAlong_cons {n : Nat} {stream : Bytes} {s : BodyRun} {c : Bytes} {cs : List Bytes} :
    ExactAlong n stream s (c :: cs) ↔ Exact n stream s ∧ ExactAlong n stream (s.deliver c) cs :=
  forall_take_cons

/-- A piece of the stream ends with the `n`th byte, or the stream has fewer. -/
def CutAt (n : Nat) (s : Bytes) (cs : List Bytes) : Prop :=
  (s ++ cs.flatten).length < n ∨ ∃ i, (s ++ (cs.take i).flatten).length = n

theorem cutAt_cons {n : Nat} {s c : Bytes} {cs : List Bytes} (hs : s.length ≠ n) :
    CutAt n s (c :: cs) ↔ CutAt n (s ++ c) cs := by
  rw [CutAt, CutAt, List.flatten_cons, List.append_assoc]
  constructor
  · intro h
    rcases h with h | ⟨i, h⟩
    · exact Or.inl h
    · cases i with
      | zero => exact absurd (by simpa using h) hs
      | succ i => exact Or.inr ⟨i, by simpa using h⟩
  · intro h
    rcases h with h | ⟨i, h⟩
    · exact Or.inl h
    · exact Or.inr ⟨i + 1, by simpa using h⟩

/-- No piece ends with the `n`th byte once more have been received. -/
theorem not_cutAt {n : Nat} {s : Bytes} (hs : n < s.length) (cs : List Bytes) : ¬ CutAt n s cs := by
  intro h
  rcases h with h | ⟨i, h⟩ <;> rw [List.length_append] at h <;> omega

/-- A piece has ended with the last byte: the run stays where it has to be. -/
theorem exactAlong_of_exact {n : Nat} {s : BodyRun} (hlength : s.received.length = n)
    (hread : ¬ s.reading) (h : s.delivered = [s.received]) (rest : Bytes) (cs : List Bytes) :
    ExactAlong n (s.received ++ rest) s cs := by
  intro i
  rw [foldl_deliver_of_not_reading hread]
  refine ⟨fun hlt => absurd hlength hlt.ne, fun _ => ⟨hread, ?_⟩⟩
  rw [h, ← hlength, List.take_left]

/-- A piece has gone on past the last byte: the run is not where it has to be. -/
theorem not_exactAlong_of_over {n : Nat} {s : BodyRun} (hlength : n < s.received.length)
    (h : s.reading ∨ s.delivered = [s.received]) (stream : Bytes) (cs : List Bytes) :
    ¬ ExactAlong n stream s cs := by
  intro hexact
  obtain ⟨hread, hdelivered⟩ := (hexact 0).full hlength.le
  rcases h with h | h
  · exact hread h
  · rw [List.take_zero, List.foldl_nil, h, List.singleton_inj] at hdelivered
    have := congrArg List.length hdelivered
    rw [List.length_take] at this
    omega

/-- **The reads from a state on.** -/
theorem exactAlong_iff {header : RequestHeader} {n : Nat} (hheader : HasContentLength header n)
    (cs : List Bytes) {s : BodyRun} (hs : Reached header n s) :
    ExactAlong n (s.received ++ cs.flatten) s cs ↔ CutAt n s.received cs := by
  induction cs generalizing s with
  | nil =>
    cases hs with
    | short hlength h =>
      refine iff_of_true ?_ (Or.inl (by simpa using hlength))
      intro i
      rw [List.take_nil, List.foldl_nil]
      exact ⟨fun _ => ⟨h.reading, h.delivered⟩, fun hle => absurd hlength (by omega)⟩
    | exact hlength hread h =>
      exact iff_of_true (exactAlong_of_exact hlength hread h _ _)
        (Or.inr ⟨0, by simpa using hlength⟩)
    | surplus hlength h =>
      exact iff_of_false (not_exactAlong_of_over hlength h _ _) (not_cutAt hlength _)
  | cons c cs ih =>
    cases hs with
    | short hlength h =>
      obtain ⟨hreached, hreceived⟩ := reached_deliver hheader h c
      have hnow : Exact n (s.received ++ (c :: cs).flatten) s :=
        ⟨fun _ => ⟨h.reading, h.delivered⟩, fun hle => absurd hlength (by omega)⟩
      rw [exactAlong_cons, and_iff_right hnow, cutAt_cons hlength.ne, ← hreceived, ← ih hreached,
        hreceived, List.flatten_cons, List.append_assoc]
    | exact hlength hread h =>
      exact iff_of_true (exactAlong_of_exact hlength hread h _ _)
        (Or.inr ⟨0, by simpa using hlength⟩)
    | surplus hlength h =>
      exact iff_of_false (not_exactAlong_of_over hlength h _ _) (not_cutAt hlength _)

/-- **The delivery of a body**: for every `Content-Length`, every stream and every way it comes in
pieces, the continuation gets the body as it has to exactly when a piece ends with the last byte of
the body, or the stream is shorter. -/
theorem body_delivery_iff (header : RequestHeader) (n : Nat) (hheader : HasContentLength header n)
    (leftover : Bytes) (cs : List Bytes) :
    ExactAlong n (leftover ++ cs.flatten) (.start header leftover) cs ↔ CutAt n leftover cs := by
  obtain ⟨hreached, hreceived⟩ := reached_start hheader leftover
  have h := exactAlong_iff hheader cs hreached
  rwa [hreceived] at h

/-- The header of a request with a body of two bytes. -/
def twoBytes : RequestHeader := { fields := AList.insert (bytes "Content-Length") (bytes "2") ∅ }

theorem hasContentLength_twoBytes : HasContentLength twoBytes 2 :=
  ⟨⟨bytes "2", by decide, by decide, by decide⟩, by decide⟩

/-- One byte of the body comes with the header, the other alone. -/
theorem body_delivery_iff_two :
    ExactAlong 2 (bytes "a" ++ [bytes "b"].flatten) (.start twoBytes (bytes "a")) [bytes "b"] ↔
      CutAt 2 (bytes "a") [bytes "b"] :=
  body_delivery_iff twoBytes 2 hasContentLength_twoBytes (bytes "a") [bytes "b"]

/-- With three bytes behind the header and a length of two the difference is negative, and so
another read is issued, though the body is there. -/
theorem body_delivery_surplus :
    ¬ ∀ (header : RequestHeader) (n : Nat), HasContentLength header n →
      ∀ (leftover : Bytes) (cs : List Bytes),
      ExactAlong n (leftover ++ cs.flatten) (.start header leftover) cs := by
  intro hclaim
  have h := (hclaim twoBytes 2 hasContentLength_twoBytes (bytes "abc") [] 0).full (by decide)
  exact absurd h.1 (by decide)

end Attender.Http
