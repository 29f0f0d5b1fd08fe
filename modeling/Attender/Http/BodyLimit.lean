import Attender.Http.BodyDelivery

/-!
# The limit of a read

`read_body` with a limit: what the parser has left is cut off at the limit, but
each read of the connection is written whole, and only then is the limit tested.
So the limit holds exactly where the pieces of the stream happen to end with it,
or with the body.
-/

namespace Attender.Http

open Attender.Library Attender.Utility

/-- A header whose `Content-Length` is the decimal of `n`. -/
def HasDecimalLength (header : RequestHeader) (n : Nat) : Prop :=
  ∃ value, header.getField (bytes "Content-Length") = some value ∧ IsDecimal value ∧
    decimalValue value = n

/-- The length that is read: `atoll` has no room for more. -/
theorem HasDecimalLength.get {r : RequestHandler Unit Unit} {n : Nat}
    (h : HasDecimalLength r.header n) : r.getContentLength = some (min n (2 ^ 63 - 1)) := by
  obtain ⟨value, hfield, hdecimal, rfl⟩ := h
  have hvalue : atoll value = (min (decimalValue value) (2 ^ 63 - 1) : Nat) := by
    rw [atoll, writtenValue_of_isDecimal hdecimal]
    omega
  rw [RequestHandler.getContentLength, hfield, Option.map_some, hvalue, toSize_natCast (by omega)]

namespace BodyRun

/-- `read_body(sink, max).then(..)`, when the parser has left `leftover` in its buffer. -/
def startLimited (header : RequestHeader) (leftover : Bytes) (max : Nat) : BodyRun :=
  let handler : RequestHandler Unit Unit :=
    { header := header, parser := { headerBuffer := leftover, progress := .body } }
  (after { handler := handler, received := leftover } (handler.readBody max)).setThen

end BodyRun

/-- **The limit is honoured**: the sink holds at most `max` bytes, and what the continuation gets is
the first `min(max, n)` bytes of the stream. -/
structure Honours (max n : Nat) (stream : Bytes) (s : BodyRun) : Prop where
  sink : s.handler.sink.data.length ≤ max
  delivered : ∀ d ∈ s.delivered, d <+: stream ∧ d.length = min max n

/-- The limit is honoured at each of the reads `cs`. -/
def HonoursAlong (max n : Nat) (stream : Bytes) (s : BodyRun) (cs : List Bytes) : Prop :=
  ∀ i, Honours max n stream ((cs.take i).foldl BodyRun.deliver s)

/-- How the stream has to come: with the limit in what the parser has left, the body is not shorter;
otherwise all of the body and no more is there, or no read of the connection ends, or a piece ends
with the byte at which the read is to stop. -/
def CutForLimit (max n : Nat) (leftover : Bytes) (cs : List Bytes) : Prop :=
  if max ≤ leftover.length then max ≤ n
  else leftover.length = n ∨ cs = [] ∨ max < 2 ^ 63 ∧ CutAt (min max n) leftover cs

/-! ### The states of a run -/

section States

variable {header : RequestHeader} {max n : Nat} {stream : Bytes} {s : BodyRun}

/-- A run that reads on. -/
structure WaitsLimited (header : RequestHeader) (max : Nat) (s : BodyRun) : Prop where
  header : s.handler.header = header
  maxRead : s.handler.maxRead = max
  sink : s.handler.sink = ⟨s.received.length, s.received⟩
  callback : s.handler.onFinishedRead = { func := some () }
  reading : s.reading
  delivered : s.delivered = []

/-- A run that is over: the continuation has got `d`. -/
structure Completed (d : Bytes) (s : BodyRun) : Prop where
  sink : s.handler.sink.data = d
  reading : ¬ s.reading
  delivered : s.delivered = [d]

theorem honoursAlong_cons {c : Bytes} {cs : List Bytes} :
    HonoursAlong max n stream s (c :: cs) ↔
      Honours max n stream s ∧ HonoursAlong max n stream (s.deliver c) cs :=
  forall_take_cons

theorem Completed.honoursAlong_iff {d : Bytes} (h : Completed d s) (hstream : d <+: stream)
    (cs : List Bytes) : HonoursAlong max n stream s cs ↔ d.length = min max n := by
  constructor
  · intro hhonours
    have hd := (hhonours 0).delivered d
    rw [List.take_zero, List.foldl_nil, h.delivered] at hd
    exact (hd (List.mem_singleton_self d)).2
  · intro hlength i
    rw [foldl_deliver_of_not_reading h.reading]
    refine ⟨by rw [h.sink, hlength]; exact min_le_left max n, ?_⟩
    rw [h.delivered, List.forall_mem_singleton]
    exact ⟨hstream, hlength⟩

theorem WaitsLimited.honours_iff (h : WaitsLimited header max s) :
    Honours max n stream s ↔ s.received.length ≤ max := by
  constructor
  · intro hhonours
    have hsink := hhonours.sink
    rwa [h.sink] at hsink
  · intro hlength
    refine ⟨by rw [h.sink]; exact hlength, ?_⟩
    rw [h.delivered]
    exact fun _ hd => absurd hd List.not_mem_nil

theorem completed_after {r : RequestHandler Unit Unit} (hdelivered : s.delivered = [])
    (hcallback : r.onFinishedRead = { func := some () }) :
    Completed r.sink.data (s.after r.fullfill) := by
  refine ⟨rfl, ?_, ?_⟩
  · simp [BodyRun.after, RequestHandler.fullfill, CallbackWrapper.fullfill, hcallback]
  · simp [BodyRun.after, RequestHandler.fullfill, CallbackWrapper.fullfill, BodyRun.deliveries,
      hcallback, hdelivered]

theorem completed_setThen {r : RequestHandler Unit Unit} (hdelivered : s.delivered = [])
    (hcallback : r.onFinishedRead = {}) :
    Completed r.sink.data (s.after r.fullfill).setThen := by
  refine ⟨rfl, ?_, ?_⟩
  · simp [BodyRun.after, BodyRun.setThen, RequestHandler.fullfill, CallbackWrapper.fullfill,
      hcallback]
  · simp [BodyRun.after, BodyRun.setThen, CallbackWrapper.setThen, RequestHandler.fullfill,
      CallbackWrapper.fullfill, hcallback, BodyRun.deliveries, hdelivered]

end States

/-! ### The start -/

section Start

variable {header : RequestHeader} {max n : Nat} {leftover : Bytes}

/-- The request handler before the read. -/
def handlerBefore (header : RequestHeader) (leftover : Bytes) (max : Nat) :
    RequestHandler Unit Unit :=
  { header := header
    parser := { headerBuffer := leftover, progress := .body }
    maxRead := max }

theorem startLimited_eq (header : RequestHeader) (leftover : Bytes) (max : Nat) :
    BodyRun.startLimited header leftover max = (BodyRun.after
      { handler := { header := header, parser := { headerBuffer := leftover, progress := .body } }
        received := leftover } ((handlerBefore header leftover max).bodyReadStart max)).setThen :=
  rfl

/-- The limit is reached with what the parser has left. -/
theorem startLimited_of_limit (hheader : HasDecimalLength header n) (hmax : max ≠ 0)
    (hlimit : max ≤ leftover.length) :
    Completed (leftover.take max) (.startLimited header leftover max) := by
  have hlength : (handlerBefore header leftover max).getContentLength = _ := hheader.get
  rw [startLimited_eq, RequestHandler.bodyReadStart_of_limit hlength hmax hlimit]
  have hsink : (HttpReadSink.write {} (leftover.take (min max leftover.length)) max).data =
      leftover.take max := by
    rw [HttpReadSink.write, List.nil_append, min_eq_left hlimit, List.take_take, min_self]
  rw [← hsink]
  exact completed_setThen (r := { handlerBefore header leftover max with
    parser := _, sink := HttpReadSink.write {} _ max }) rfl rfl

/-- Below the limit the read is over at once if all that is to be read is there, and else it
waits. -/
theorem startLimited_of_below (hheader : HasDecimalLength header n) (hlimit : leftover.length < max)
    (hleft : leftover.length + 1 < 2 ^ 63) :
    if leftover.length = n then Completed leftover (.startLimited header leftover max)
    else WaitsLimited header max (.startLimited header leftover max) := by
  have hlength : (handlerBefore header leftover max).getContentLength = _ := hheader.get
  obtain ⟨r, hr, hmax, hsink, hcallback, hcall⟩ :=
    RequestHandler.readBody_of_below hlength max (Or.inr hlimit)
  have hall : RequestHandler.LeftAll (min n (2 ^ 63 - 1)) leftover ↔ leftover.length = n := by
    rw [RequestHandler.LeftAll]
    split_ifs with hempty
    · rw [remaining_of_le (by omega) (Nat.zero_le _), hempty, List.length_nil]
      dsimp only
      omega
    · rw [sub64]
      omega
  have hstart : (handlerBefore header leftover max).bodyReadStart max =
      if leftover.length = n then r.fullfill else (r, [.read]) := by
    rw [← if_congr hall rfl rfl]
    exact hcall
  rw [startLimited_eq, hstart]
  split_ifs
  · have hd : r.sink.data = leftover := by
      rw [hsink]
      rfl
    exact hd ▸ completed_setThen rfl hcallback
  · refine ⟨hr, hmax, hsink, ?_, ?_, ?_⟩
    · simp [BodyRun.after, BodyRun.setThen, CallbackWrapper.setThen, hcallback, handlerBefore]
    · simp [BodyRun.after, BodyRun.setThen]
    · simp [BodyRun.after, BodyRun.setThen, CallbackWrapper.setThen, hcallback,
        BodyRun.deliveries, handlerBefore]

end Start

/-! ### Reads of the connection -/

section Reads

variable {header : RequestHeader} {max n : Nat} {s : BodyRun}

/-- A read that ends when the limit has been reached. -/
theorem deliver_of_reached (h : WaitsLimited header max s) (hmax : max ≠ 0)
    (hlimit : toInt64 max - toInt64 s.received.length ≤ 0) (c : Bytes) :
    Completed s.received (s.deliver c) := by
  have hcall : s.handler.bodyReadHandler none c = s.handler.fullfill := by
    rw [RequestHandler.bodyReadHandler, if_pos]
    rw [h.maxRead, h.sink]
    exact ⟨hmax, hlimit⟩
  have hd : s.handler.sink.data = s.received := by rw [h.sink]
  rw [BodyRun.deliver, if_pos h.reading, hcall]
  exact hd ▸ completed_after h.delivered h.callback

/-- A read that ends below the limit is written whole, and the body is over or the run waits. -/
theorem deliver_of_below (hheader : HasDecimalLength header n) (h : WaitsLimited header max s)
    (hlimit : 0 < toInt64 max - toInt64 s.received.length) (c : Bytes) :
    (s.deliver c).received = s.received ++ c ∧
      if RequestHandler.remaining (min n (2 ^ 63 - 1))
        ⟨(s.received ++ c).length, s.received ++ c⟩ = 0
      then Completed (s.received ++ c) (s.deliver c)
      else WaitsLimited header max (s.deliver c) := by
  have hlength : s.handler.getContentLength = some (min n (2 ^ 63 - 1)) := by
    apply HasDecimalLength.get
    exact h.header ▸ hheader
  obtain ⟨r, hr, hmax, hsink, hcallback, hcall⟩ := RequestHandler.bodyReadHandler_of_below hlength
    h.sink (fun _ => h.maxRead ▸ hlimit) c
  have hd : r.sink.data = s.received ++ c := by rw [hsink]
  rw [BodyRun.deliver, if_pos h.reading, hcall, ← hsink]
  refine ⟨by split_ifs <;> rfl, ?_⟩
  split_ifs
  · exact hd ▸ completed_after h.delivered (hcallback.trans h.callback)
  · refine ⟨hr.trans h.header, hmax.trans h.maxRead, hsink, hcallback.trans h.callback, ?_, ?_⟩
    · simp [BodyRun.after]
    · simp [BodyRun.after, BodyRun.deliveries, h.delivered]

end Reads

/-! ### Whole runs -/

section Runs

variable {header : RequestHeader} {max n : Nat} {s : BodyRun}

/-- What is signed of a limit below `2 ^ 63` and of less in the sink. -/
theorem limit_pos {max written : Nat} (hmax : max < 2 ^ 63) (hlt : written < max) :
    0 < toInt64 max - toInt64 written := by
  rw [toInt64_of_lt hmax, toInt64_of_lt (by omega)]
  omega

/-- A limit from `2 ^ 63` on is negative: each read ends with what is there. -/
theorem limit_negative {max written : Nat} (hmax : 2 ^ 63 ≤ max) (hsize : max < 2 ^ 64)
    (hwritten : written < 2 ^ 63) : toInt64 max - toInt64 written ≤ 0 := by
  rw [toInt64_of_lt hwritten, toInt64, Nat.mod_eq_of_lt hsize, if_neg (by omega)]
  omega

theorem remaining_of_over {written : Nat} (hwritten : n ≤ written) (hsmall : written < 2 ^ 63)
    {d : Bytes} : RequestHandler.remaining (min n (2 ^ 63 - 1)) ⟨written, d⟩ = 0 := by
  rw [RequestHandler.remaining, toInt64_of_lt (by omega), toInt64_of_lt hsmall]
  omega

/-- **A piece that goes past the stop** breaks the limit, or too much is delivered. -/
theorem not_honoursAlong_of_over (hheader : HasDecimalLength header n)
    (h : WaitsLimited header max s) (hmax : max < 2 ^ 63) (hlt : s.received.length < max)
    {c : Bytes} (hover : min max n < (s.received ++ c).length) (cs : List Bytes) :
    ¬ HonoursAlong max n (s.received ++ (c :: cs).flatten) s (c :: cs) := by
  rw [honoursAlong_cons]
  rintro ⟨-, hhonours⟩
  obtain ⟨hreceived, hcases⟩ := deliver_of_below hheader h (limit_pos hmax hlt) c
  have hstream : s.received ++ c <+: s.received ++ (c :: cs).flatten := by
    rw [List.flatten_cons, ← List.append_assoc]
    exact List.prefix_append _ _
  split_ifs at hcases with hrem
  · rw [hcases.honoursAlong_iff hstream] at hhonours
    omega
  · -- more than the limit is in the sink, since all of the body is there
    have hsink := (hhonours 0).sink
    rw [List.take_zero, List.foldl_nil, hcases.sink, hreceived] at hsink
    dsimp only at hsink
    exact hrem (remaining_of_over (by omega) (by omega))

/-- **The reads from a state on**, below the limit and before the end of the body. -/
theorem honoursAlong_iff (hheader : HasDecimalLength header n) (hmax : max < 2 ^ 63)
    (hpos : max ≠ 0) (cs : List Bytes) {s : BodyRun} (h : WaitsLimited header max s)
    (hlength : s.received.length ≤ max) (hn : s.received.length < n) :
    HonoursAlong max n (s.received ++ cs.flatten) s cs ↔ CutAt (min max n) s.received cs := by
  induction cs generalizing s with
  | nil =>
    refine iff_of_true ?_ ?_
    · intro i
      rw [List.take_nil, List.foldl_nil]
      exact h.honours_iff.mpr hlength
    · rw [CutAt]
      simp only [List.flatten_nil, List.append_nil, List.take_nil, exists_const]
      omega
  | cons c cs ih =>
    have hstream : s.received ++ c <+: s.received ++ (c :: cs).flatten := by
      rw [List.flatten_cons, ← List.append_assoc]
      exact List.prefix_append _ _
    rcases Nat.lt_or_ge s.received.length max with hlt | hge
    · rcases Nat.lt_or_ge (min max n) (s.received ++ c).length with hover | hle
      · refine iff_of_false (not_honoursAlong_of_over hheader h hmax hlt hover cs) ?_
        rw [cutAt_cons (by omega)]
        exact not_cutAt hover cs
      · obtain ⟨hreceived, hcases⟩ := deliver_of_below hheader h (limit_pos hmax hlt) c
        rw [honoursAlong_cons, and_iff_right (h.honours_iff.mpr hlength), cutAt_cons (by omega)]
        split_ifs at hcases with hrem
        · -- the body is over, or as much of it as an `int64_t` has room for
          have hend : (s.received ++ c).length = min max n := by
            rw [remaining_of_le (by omega) (by dsimp only; omega)] at hrem
            dsimp only at hrem
            omega
          rw [hcases.honoursAlong_iff hstream]
          exact iff_of_true hend (Or.inr ⟨0, by simpa using hend⟩)
        · have hshort : (s.received ++ c).length < n := by
            by_contra hnot
            exact hrem (remaining_of_over (by omega) (by omega))
          rw [List.flatten_cons, ← List.append_assoc, ← hreceived]
          exact ih hcases (by rw [hreceived]; omega) (by rw [hreceived]; exact hshort)
    · -- the limit has been reached, and the next read ends with it
      have hend : s.received.length = min max n := by omega
      have hcompleted := deliver_of_reached h hpos (by
        rw [toInt64_of_lt hmax, toInt64_of_lt (by omega)]
        omega) c
      rw [honoursAlong_cons, and_iff_right (h.honours_iff.mpr hlength),
        hcompleted.honoursAlong_iff (List.prefix_append _ _)]
      exact iff_of_true hend (Or.inr ⟨0, by simpa using hend⟩)

theorem honoursAlong_nil (h : WaitsLimited header max s) (hlength : s.received.length ≤ max)
    (stream : Bytes) : HonoursAlong max n stream s [] := by
  intro i
  rw [List.take_nil, List.foldl_nil]
  exact h.honours_iff.mpr hlength

/-- **The limit of a read**: for every decimal `Content-Length`, every limit, every stream and every
way it comes in pieces, the limit is honoured exactly if the stream comes cut for it. -/
theorem body_limit_iff (header : RequestHeader) (n : Nat) (hheader : HasDecimalLength header n)
    (max : Nat) (hpos : 1 ≤ max) (hsize : max < 2 ^ 64) (leftover : Bytes)
    (hleft : leftover.length + 1 < 2 ^ 63) (cs : List Bytes) :
    HonoursAlong max n (leftover ++ cs.flatten) (.startLimited header leftover max) cs ↔
      CutForLimit max n leftover cs := by
  rw [CutForLimit]
  split_ifs with hlimit
  · rw [(startLimited_of_limit hheader (by omega) hlimit).honoursAlong_iff
      ((List.take_prefix _ _).trans (List.prefix_append _ _)), List.length_take]
    omega
  rw [not_le] at hlimit
  have hreceived : (BodyRun.startLimited header leftover max).received = leftover := rfl
  have hstart := startLimited_of_below hheader hlimit hleft
  split_ifs at hstart with heq
  · rw [hstart.honoursAlong_iff (List.prefix_append _ _)]
    exact iff_of_true (by omega) (Or.inl heq)
  rw [or_iff_right heq]
  cases cs with
  | nil => exact iff_of_true (honoursAlong_nil hstart hlimit.le _) (Or.inl rfl)
  | cons c cs =>
    rw [or_iff_right (List.cons_ne_nil c cs)]
    rcases Nat.lt_or_ge max (2 ^ 63) with hmax | hmax
    · rw [and_iff_right hmax]
      rcases Nat.lt_or_gt_of_ne heq with hlt | hgt
      · exact honoursAlong_iff hheader hmax (by omega) (c :: cs) hstart hlimit.le hlt
      · refine iff_of_false (not_honoursAlong_of_over hheader hstart hmax hlimit ?_ cs)
          (not_cutAt (by omega) _)
        rw [hreceived, List.length_append]
        omega
    · refine iff_of_false ?_ fun h => absurd h.1 (by omega)
      have hcompleted := deliver_of_reached hstart (by omega)
        (limit_negative hmax hsize (by rw [hreceived]; omega)) c
      rw [hreceived] at hcompleted
      rw [honoursAlong_cons, hcompleted.honoursAlong_iff (List.prefix_append _ _)]
      omega

/-- The header of a request with a body of four bytes. -/
def ofFourBytes : RequestHeader :=
  { fields := AList.insert (bytes "Content-Length") (bytes "4") ∅ }

theorem hasDecimalLength_ofFourBytes : HasDecimalLength ofFourBytes 4 :=
  ⟨bytes "4", by decide, by decide, by decide⟩

/-- The limit of two bytes is reached with the second piece. -/
theorem body_limit_iff_two :
    HonoursAlong 2 4 (bytes "a" ++ [bytes "b", bytes "cd"].flatten)
        (.startLimited ofFourBytes (bytes "a") 2) [bytes "b", bytes "cd"] ↔
      CutForLimit 2 4 (bytes "a") [bytes "b", bytes "cd"] :=
  body_limit_iff ofFourBytes 4 hasDecimalLength_ofFourBytes 2 (by decide) (by decide) (bytes "a")
    (by decide) [bytes "b", bytes "cd"]

/-- With all of the body in one piece the sink gets four bytes, and not two. -/
theorem body_limit_exceeded :
    ¬ ∀ (header : RequestHeader) (n : Nat), HasDecimalLength header n → ∀ max : Nat, 1 ≤ max →
      max < 2 ^ 64 → ∀ leftover : Bytes, leftover.length + 1 < 2 ^ 63 → ∀ cs : List Bytes,
      HonoursAlong max n (leftover ++ cs.flatten) (.startLimited header leftover max) cs := by
  intro h
  have hsink := (h ofFourBytes 4 hasDecimalLength_ofFourBytes 2 (by decide) (by decide) []
    (by decide) [bytes "abcd"] 1).sink
  exact absurd hsink (by decide)

end Runs

end Attender.Http
