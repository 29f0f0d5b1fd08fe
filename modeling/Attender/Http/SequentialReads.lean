import Attender.Http.RequestHandler
import Attender.Library.Runs

/-!
# Sequential reads of a body

The reads of one request, each started once the continuation of the one before
it has run. All of them share the callback wrapper of the request handler, which
is never reset: it stays fulfilled after the first read, and it keeps the
continuation that it has been given.
-/

namespace Attender.Http

open Attender.Library Attender.Utility

/-! ### When a read completes -/

namespace RequestHandler

variable {κ φ : Type} (r : RequestHandler κ φ)

/-- `read_body` with this limit completes at once. -/
def CompletesAtOnce (max : Nat) : Prop :=
  ∃ contentLength, r.getContentLength = some contentLength ∧
    if r.parser.isBufferEmpty then remaining contentLength {} = 0
    else (max ≠ 0 ∧ max ≤ r.parser.headerBuffer.length) ∨
      sub64 contentLength r.parser.headerBuffer.length = 0

/-- A read that is waiting for the connection completes with these bytes. -/
def CompletesWith (amount : Bytes) : Prop :=
  (r.maxRead ≠ 0 ∧ toInt64 r.maxRead - toInt64 r.sink.writtenBytes ≤ 0) ∨
    remaining (r.getContentLength.getD 0) (r.sink.write amount amount.length) = 0

/-- **What `read_body` comes to**: it is done, or it asks for a read, or it fails. -/
theorem readBody_cases (max : Nat) :
    ∃ r' : RequestHandler κ φ, r'.onFinishedRead = r.onFinishedRead ∧
      ((r.CompletesAtOnce max ∧ r.getContentLength.isSome ∧ r.readBody max = r'.fullfill) ∨
        (¬ r.CompletesAtOnce max ∧ r.getContentLength.isSome ∧ r.readBody max = (r', [.read])) ∨
        (¬ r.CompletesAtOnce max ∧ r.getContentLength = none ∧ r.readBody max =
          ((r'.raise .invalidArgument).1,
            (r'.raise .invalidArgument).2 ++ [.sendStatus 411]))) := by
  cases hlength : r.getContentLength with
  | none =>
    refine ⟨{ r with maxRead := max, sink := {} }, rfl, Or.inr (Or.inr ⟨?_, rfl, ?_⟩)⟩
    · rintro ⟨n, hn, -⟩
      rw [hlength] at hn
      cases hn
    · rw [readBody, bodyReadStart_of_none]
      exact hlength
  | some n =>
    by_cases hlimit : max ≠ 0 ∧ max ≤ r.parser.headerBuffer.length
    · have hsame : ({ r with maxRead := max, sink := {} } :
          RequestHandler κ φ).getContentLength = some n := hlength
      have hbuffer : r.parser.isBufferEmpty ≠ true := by
        rw [RequestParser.isBufferEmpty, Ne, List.isEmpty_iff]
        intro hempty
        rw [hempty, List.length_nil] at hlimit
        omega
      have hdone : r.CompletesAtOnce max :=
        ⟨n, hlength, by rw [if_neg hbuffer]; exact Or.inl hlimit⟩
      refine ⟨{ r with
        maxRead := max
        parser := (r.parser.readFront max).2
        sink := HttpReadSink.write {} (r.parser.readFront max).1 max }, rfl,
        Or.inl ⟨hdone, rfl, ?_⟩⟩
      rw [readBody, bodyReadStart_of_limit hsame hlimit.1 hlimit.2]
    · obtain ⟨r', -, -, -, hcallback, e⟩ := readBody_of_below hlength max (by omega)
      have hiff : r.CompletesAtOnce max ↔ LeftAll n r.parser.headerBuffer := by
        rw [CompletesAtOnce, hlength]
        simp only [Option.some.injEq, exists_eq_left', LeftAll, RequestParser.isBufferEmpty,
          List.isEmpty_iff, hlimit, false_or]
      rw [hiff, e]
      refine ⟨r', hcallback, ?_⟩
      by_cases hall : LeftAll n r.parser.headerBuffer
      · exact Or.inl ⟨hall, rfl, if_pos hall⟩
      · exact Or.inr (Or.inl ⟨hall, rfl, if_neg hall⟩)

/-- **What a read of the connection comes to**: the read of the body is done, or it reads on, or it
fails. -/
theorem bodyReadHandler_cases (ec : Option ErrorCode) (amount : Bytes) :
    ∃ r' : RequestHandler κ φ, r'.onFinishedRead = r.onFinishedRead ∧
      ((ec = none ∧ r.CompletesWith amount ∧ r.bodyReadHandler ec amount = r'.fullfill) ∨
        (ec = none ∧ ¬ r.CompletesWith amount ∧ r.bodyReadHandler ec amount = (r', [.read])) ∨
        ∃ e, ec = some e ∧ r.bodyReadHandler ec amount =
          ((r'.raise e).1,
            (r'.raise e).2 ++ if e ≠ .operationAborted then [.endResponse] else [])) := by
  cases ec with
  | some e => exact ⟨r, rfl, Or.inr (Or.inr ⟨e, rfl, rfl⟩)⟩
  | none =>
    rw [bodyReadHandler]
    by_cases hlimit : r.maxRead ≠ 0 ∧ toInt64 r.maxRead - toInt64 r.sink.writtenBytes ≤ 0
    · exact ⟨r, rfl, Or.inl ⟨rfl, Or.inl hlimit, if_pos hlimit⟩⟩
    · rw [if_neg hlimit]
      refine ⟨{ r with sink := r.sink.write amount amount.length }, rfl, ?_⟩
      by_cases hrem : remaining (r.getContentLength.getD 0) (r.sink.write amount amount.length) = 0
      · exact Or.inl ⟨rfl, Or.inr hrem, if_pos hrem⟩
      · exact Or.inr (Or.inl ⟨rfl, not_or.mpr ⟨hlimit, hrem⟩, if_neg hrem⟩)

end RequestHandler

/-! ### The reads of a request -/

/-- A run of a continuation. -/
structure ContinuationCall where
  /-- The read that it has been set for. -/
  continuation : Nat
  /-- The read that was started last. -/
  read : Nat
  /-- That read had completed. -/
  completed : Bool
  deriving DecidableEq

/-- A request handler whose body is read in turns. The continuation set for a read is its
number. -/
structure BodyReads where
  handler : RequestHandler Nat Unit
  /-- How many reads have been started. -/
  reads : Nat := 0
  /-- How many reads of the connection are outstanding. -/
  reading : Nat := 0
  /-- The last read has completed: its bytes are in its sink. -/
  completed : Bool := false
  /-- `then` has been called for the last read. -/
  registered : Bool := false
  calls : List ContinuationCall := []

/-- What happens to a request whose body is read. -/
inductive BodyReadsOp where
  | readBody (max : Nat)
  /-- `then`, on what `read_body` has returned. -/
  | setThen
  /-- A read of the connection ends. -/
  | deliver (ec : Option ErrorCode) (amount : Bytes)

namespace BodyReads

/-- Before the first read. -/
def start (parser : RequestParser) (header : RequestHeader) : BodyReads where
  handler := { parser := parser, header := header }

/-- The continuations that the effects run. -/
def continuations (effects : List (RequestEffect Nat Unit)) : List Nat :=
  effects.filterMap fun e => match e with
    | .call (.continuation f) => some f
    | _ => none

/-- The state after the request handler has been called. The read has not failed if `ok`. -/
def after (s : BodyReads) (o : RequestHandler.Outcome Nat Unit) (ok : Bool) : BodyReads :=
  let completed := ok && .read ∉ o.2
  { s with
    handler := o.1
    reading := s.reading + o.2.count .read
    completed := completed
    calls := s.calls ++ (continuations o.2).map fun f =>
      { continuation := f, read := s.reads - 1, completed := completed } }

/-- One step. A read is started when the continuation of the one before it has run, which may be
within that continuation, since nothing comes behind the call of one. -/
def step (s : BodyReads) : BodyReadsOp → Option BodyReads
  | .readBody max =>
    if s.reads = 0 ∨ s.reads - 1 ∈ s.calls.map ContinuationCall.continuation then
      some ({ s with reads := s.reads + 1, registered := false }.after (s.handler.readBody max)
        s.handler.getContentLength.isSome)
    else none
  | .setThen =>
    if s.reads ≠ 0 ∧ ¬ s.registered then
      let w := s.handler.onFinishedRead.setThen (s.reads - 1)
      some { s with
        handler := { s.handler with onFinishedRead := w.1 }
        registered := true
        calls := s.calls ++ (continuations (w.2.map .call)).map fun f =>
          { continuation := f, read := s.reads - 1, completed := s.completed } }
    else none
  | .deliver ec amount =>
    if s.reading ≠ 0 then
      some ({ s with reading := s.reading - 1 }.after (s.handler.bodyReadHandler ec amount)
        ec.isNone)
    else none

/-- The continuations that have run are those of the reads in their order, each once, and when each
ran its read was the last one started and had completed. That of the last read is among them if it
has been set and the read has completed. -/
def Orderly (s : BodyReads) : Prop :=
  s.calls =
    (List.range (if s.registered ∧ s.completed then s.reads else s.reads - 1)).map fun i =>
      { continuation := i, read := i, completed := true }

/-- No read completes while the wrapper keeps the continuation of another, and no continuation is
set for a read that has not completed once the wrapper is fulfilled. -/
def Sound (s : BodyReads) : BodyReadsOp → Prop
  | .readBody max => s.handler.CompletesAtOnce max → s.handler.onFinishedRead.func = none
  | .setThen => s.handler.onFinishedRead.fullfilled → s.completed
  | .deliver ec amount =>
    ec = none → s.handler.CompletesWith amount →
      ∀ f, s.handler.onFinishedRead.func = some f → f = s.reads - 1

/-! ### What the handler does to the calls -/

section After

variable (s : BodyReads) (r : RequestHandler Nat Unit)

theorem after_fullfill :
    s.after r.fullfill true = { s with
      handler := r.fullfill.1
      completed := true
      calls := s.calls ++ r.onFinishedRead.func.toList.map fun f =>
        { continuation := f, read := s.reads - 1, completed := true } } := by
  cases hfunc : r.onFinishedRead.func with
  | none => simp [after, RequestHandler.fullfill, CallbackWrapper.fullfill, hfunc, continuations]
  | some f => simp [after, RequestHandler.fullfill, CallbackWrapper.fullfill, hfunc, continuations]

theorem after_read :
    s.after (r, [.read]) true =
      { s with handler := r, reading := s.reading + 1, completed := false } := by
  simp [after, continuations]

theorem func_raise (ec : ErrorCode) :
    (r.raise ec).1.onFinishedRead.func = r.onFinishedRead.func := by
  rw [RequestHandler.raise, CallbackWrapper.raise]
  cases r.onFinishedRead.fail <;> rfl

/-- A read that fails runs no continuation. -/
theorem after_raise (ec : ErrorCode) {rest : List (RequestEffect Nat Unit)}
    (hread : .read ∉ rest) (hcalls : continuations rest = []) :
    s.after ((r.raise ec).1, (r.raise ec).2 ++ rest) false =
      { s with handler := (r.raise ec).1, completed := false } := by
  have hcount : rest.count .read = 0 := List.count_eq_zero_of_not_mem hread
  rw [continuations] at hcalls
  cases hfail : r.onFinishedRead.fail with
  | none =>
    simp [after, RequestHandler.raise, CallbackWrapper.raise, hfail, continuations, hcalls, hcount]
  | some f =>
    simp [after, RequestHandler.raise, CallbackWrapper.raise, hfail, continuations, hcalls, hcount]

end After

/-! ### Orderly runs -/

/-- What the steps that keep the order keep. -/
structure Tidy (s : BodyReads) : Prop where
  idle : s.reads = 0 → s.reading = 0 ∧ s.completed = false ∧ s.registered = false
  reading : s.reading ≤ 1 ∧ (s.completed → s.reading = 0)
  fullfilled : s.completed → s.handler.onFinishedRead.fullfilled
  /-- What the wrapper keeps has been set for one of the reads. -/
  func : ∀ f, s.handler.onFinishedRead.func = some f →
    f < s.reads ∧ (f = s.reads - 1 → s.registered)
  /-- The continuation of a read that has not completed is kept. -/
  kept : s.registered → ¬ s.completed → s.handler.onFinishedRead.func = some (s.reads - 1)

theorem tidy_start (parser : RequestParser) (header : RequestHeader) : Tidy (start parser header) :=
  ⟨fun _ => ⟨rfl, rfl, rfl⟩, ⟨Nat.zero_le 1, nofun⟩, nofun, nofun, nofun⟩

theorem orderly_start (parser : RequestParser) (header : RequestHeader) :
    Orderly (start parser header) := rfl

/-- The calls of the continuations of the first `n` reads. -/
def inOrder (n : Nat) : List ContinuationCall := (List.range n).map fun i => ⟨i, i, true⟩

/-- The call of the last one. -/
theorem inOrder_append {n : Nat} (hn : n ≠ 0) :
    inOrder (n - 1) ++ [⟨n - 1, n - 1, true⟩] = inOrder n := by
  obtain ⟨m, rfl⟩ := Nat.exists_eq_succ_of_ne_zero hn
  rw [Nat.succ_eq_add_one, Nat.add_sub_cancel, inOrder, inOrder, List.range_succ, List.map_append,
    List.map_singleton]

/-- A call too many. -/
theorem inOrder_append_ne (n : Nat) (c : ContinuationCall) : inOrder n ++ [c] ≠ inOrder n := by
  intro h
  have hlength := congrArg List.length h
  simp at hlength

variable {s s' : BodyReads}

theorem orderly_iff_of_not (h : ¬ (s.registered ∧ s.completed)) :
    s.Orderly ↔ s.calls = inOrder (s.reads - 1) := by
  rw [Orderly, if_neg h, inOrder]

theorem orderly_iff_of_done (h : s.registered ∧ s.completed) :
    s.Orderly ↔ s.calls = inOrder s.reads := by
  rw [Orderly, if_pos h, inOrder]

/-- When a read is started, all reads before it have completed and their continuations have run. -/
theorem Orderly.all {s : BodyReads} (ht : s.Tidy) (h : s.Orderly)
    (hready : s.reads = 0 ∨ s.reads - 1 ∈ s.calls.map ContinuationCall.continuation) :
    s.calls = inOrder s.reads ∧ s.reading = 0 := by
  rw [Orderly] at h
  rcases hready with hzero | hrun
  · obtain ⟨hreading, -, hregistered⟩ := ht.idle hzero
    rw [if_neg (by rw [hregistered]; exact fun h => nomatch h.1)] at h
    rw [h, hzero]
    exact ⟨rfl, hreading⟩
  · rw [h, List.map_map] at hrun
    obtain ⟨i, hi, hlast⟩ := List.mem_map.mp hrun
    rw [List.mem_range] at hi
    have hlast' : i = s.reads - 1 := hlast
    by_cases hdone : s.registered ∧ s.completed
    · rw [if_pos hdone] at h
      exact ⟨h, ht.reading.2 hdone.2⟩
    · rw [if_neg hdone] at hi
      omega

/-- A new read, as it is when it has not been completed at once. -/
theorem Tidy.readBody (ht : s.Tidy) (hreading : s.reading = 0) {r : RequestHandler Nat Unit}
    (hfunc : r.onFinishedRead.func = s.handler.onFinishedRead.func) {n : Nat} (hn : n ≤ 1) :
    Tidy { s with
      handler := r
      reads := s.reads + 1
      reading := s.reading + n
      registered := false
      completed := false } := by
  refine ⟨nofun, ⟨?_, nofun⟩, nofun, ?_, nofun⟩
  · dsimp only
    omega
  · intro f hf
    rw [hfunc] at hf
    obtain ⟨hlt, -⟩ := ht.func f hf
    dsimp only
    exact ⟨by omega, fun h => by omega⟩

/-- **The start of a read.** -/
theorem readBody_step (ht : s.Tidy) (h : s.Orderly) {max : Nat}
    (hstep : s.step (.readBody max) = some s') :
    (s'.Orderly ↔ s.Sound (.readBody max)) ∧ (s'.Orderly → s'.Tidy) := by
  rw [step] at hstep
  split_ifs at hstep with hready
  rw [Option.some.injEq] at hstep
  subst hstep
  obtain ⟨hcalls, hreading⟩ := h.all ht hready
  obtain ⟨r, hwrapper, hcases⟩ := s.handler.readBody_cases max
  have hfunc := congrArg CallbackWrapper.func hwrapper
  rw [Sound]
  rcases hcases with ⟨hdone, hlength, e⟩ | ⟨hdone, hlength, e⟩ | ⟨hdone, hlength, e⟩
  · rw [e, hlength, after_fullfill, hfunc, orderly_iff_of_not]
    swap
    · exact fun h => nomatch h.1
    dsimp only
    rw [hcalls, Nat.add_sub_cancel]
    cases hkept : s.handler.onFinishedRead.func with
    | none =>
      rw [Option.toList_none, List.map_nil, List.append_nil]
      refine ⟨iff_of_true rfl fun _ => rfl, fun _ => ⟨nofun, ⟨?_, ?_⟩, fun _ => rfl, ?_, nofun⟩⟩
      · dsimp only
        omega
      · exact fun _ => hreading
      · intro f hf
        have hf' : r.onFinishedRead.func = some f := hf
        rw [hfunc, hkept] at hf'
        cases hf'
    | some f =>
      rw [Option.toList_some, List.map_singleton]
      exact ⟨iff_of_false (inOrder_append_ne _ _) fun hsound => (nomatch hsound hdone),
        fun horder => absurd horder (inOrder_append_ne _ _)⟩
  · rw [e, hlength, after_read, orderly_iff_of_not]
    swap
    · exact fun h => nomatch h.1
    exact ⟨iff_of_true hcalls fun hnow => absurd hnow hdone,
      fun _ => ht.readBody hreading hfunc (Nat.le_refl 1)⟩
  · rw [e, hlength, Option.isSome_none, after_raise _ _ _ (by simp) rfl,
      orderly_iff_of_not]
    swap
    · exact fun h => nomatch h.1
    refine ⟨iff_of_true hcalls fun hnow => absurd hnow hdone,
      fun _ => ht.readBody hreading (r := (r.raise .invalidArgument).1) ?_ (Nat.zero_le 1)⟩
    exact (func_raise r _).trans hfunc

/-- **The continuation of a read.** -/
theorem setThen_step (ht : s.Tidy) (h : s.Orderly) (hstep : s.step .setThen = some s') :
    (s'.Orderly ↔ s.Sound .setThen) ∧ (s'.Orderly → s'.Tidy) := by
  rw [step] at hstep
  split_ifs at hstep with hready
  obtain ⟨hreads, hregistered⟩ := hready
  rw [Option.some.injEq, CallbackWrapper.setThen] at hstep
  rw [orderly_iff_of_not fun hdone => hregistered hdone.1] at h
  rw [Sound]
  by_cases hfullfilled : s.handler.onFinishedRead.fullfilled
  · -- it runs at once
    rw [if_pos hfullfilled] at hstep
    obtain rfl : { s with
      registered := true
      calls := s.calls ++ [⟨s.reads - 1, s.reads - 1, s.completed⟩] } = s' := hstep
    by_cases hcompleted : s.completed
    · rw [orderly_iff_of_done]
      swap
      · exact ⟨rfl, hcompleted⟩
      refine ⟨iff_of_true ?_ fun _ => hcompleted, fun _ => ⟨?_, ht.reading, ht.fullfilled, ?_, ?_⟩⟩
      · dsimp only
        rw [h, hcompleted, inOrder_append hreads]
      · exact fun hzero => absurd hzero hreads
      · exact fun f hf => ⟨(ht.func f hf).1, fun _ => rfl⟩
      · exact fun _ hnot => absurd hcompleted hnot
    · have hnot : ¬ Orderly { s with
          registered := true
          calls := s.calls ++ [⟨s.reads - 1, s.reads - 1, s.completed⟩] } := by
        rw [orderly_iff_of_not]
        swap
        · exact fun hdone => hcompleted hdone.2
        dsimp only
        rw [h]
        exact inOrder_append_ne _ _
      exact ⟨iff_of_false hnot fun hsound => hcompleted (hsound hfullfilled),
        fun horder => absurd horder hnot⟩
  · -- it is kept
    have hcompleted : ¬ s.completed := mt ht.fullfilled hfullfilled
    rw [if_neg hfullfilled] at hstep
    obtain rfl : { s with
      handler := { s.handler with
        onFinishedRead := { s.handler.onFinishedRead with func := some (s.reads - 1) } }
      registered := true
      calls := s.calls ++ [] } = s' := hstep
    rw [orderly_iff_of_not]
    swap
    · exact fun hdone => hcompleted hdone.2
    refine ⟨iff_of_true ?_ fun hnow => absurd hnow hfullfilled,
      fun _ => ⟨fun hzero => absurd hzero hreads, ht.reading, ?_, ?_, fun _ _ => rfl⟩⟩
    · exact (List.append_nil _).trans h
    · exact fun hnow => absurd hnow hcompleted
    · intro f hf
      cases hf
      dsimp only
      exact ⟨by omega, fun _ => rfl⟩

/-- A read of the connection after which the read of the body has not completed. -/
theorem Tidy.deliver (ht : s.Tidy) (hready : s.reading ≠ 0) {r : RequestHandler Nat Unit}
    (hfunc : r.onFinishedRead.func = s.handler.onFinishedRead.func) {n : Nat} (hn : n ≤ 1) :
    Tidy { s with handler := r, reading := s.reading - 1 + n, completed := false } := by
  have hreading := ht.reading
  refine ⟨fun hzero => absurd (ht.idle hzero).1 hready, ⟨?_, nofun⟩, nofun, ?_, ?_⟩
  · dsimp only
    omega
  · intro f hf
    exact ht.func f (hfunc.symm.trans hf)
  · intro hregistered _
    exact hfunc.trans (ht.kept hregistered fun hdone => hready (hreading.2 hdone))

/-- **The end of a read of the connection.** -/
theorem deliver_step (ht : s.Tidy) (h : s.Orderly) {ec : Option ErrorCode} {amount : Bytes}
    (hstep : s.step (.deliver ec amount) = some s') :
    (s'.Orderly ↔ s.Sound (.deliver ec amount)) ∧ (s'.Orderly → s'.Tidy) := by
  rw [step] at hstep
  split_ifs at hstep with hready
  rw [Option.some.injEq] at hstep
  subst hstep
  have hcompleted : ¬ s.completed := mt ht.reading.2 hready
  have hreads : s.reads ≠ 0 := fun hzero => hready (ht.idle hzero).1
  have hreading := ht.reading.1
  rw [orderly_iff_of_not fun hdone => hcompleted hdone.2] at h
  obtain ⟨r, hwrapper, hcases⟩ := s.handler.bodyReadHandler_cases ec amount
  have hfunc := congrArg CallbackWrapper.func hwrapper
  rw [Sound]
  rcases hcases with ⟨rfl, hdone, e⟩ | ⟨rfl, hdone, e⟩ | ⟨e', rfl, e⟩
  · rw [e, Option.isNone_none, after_fullfill, hfunc]
    have htidy : Tidy { s with
        handler := r.fullfill.1
        reading := s.reading - 1
        completed := true
        calls := s.calls ++ s.handler.onFinishedRead.func.toList.map fun f =>
          ⟨f, s.reads - 1, true⟩ } := by
      refine ⟨fun hzero => absurd hzero hreads, ⟨?_, ?_⟩, fun _ => rfl, ?_, fun _ hnot => ?_⟩
      · dsimp only
        omega
      · dsimp only
        omega
      · intro f hf
        exact ht.func f (hfunc.symm.trans hf)
      · exact absurd rfl hnot
    refine ⟨?_, fun _ => htidy⟩
    by_cases hregistered : s.registered
    · -- its own continuation is kept, and runs
      have hkept := ht.kept hregistered hcompleted
      rw [hkept, Option.toList_some, List.map_singleton, orderly_iff_of_done]
      swap
      · exact ⟨hregistered, rfl⟩
      refine iff_of_true ?_ fun _ _ f hf => ?_
      · dsimp only
        rw [h, inOrder_append hreads]
      · rw [Option.some.injEq] at hf
        exact hf.symm
    · rw [orderly_iff_of_not]
      swap
      · exact fun hboth => hregistered hboth.1
      dsimp only
      rw [h]
      cases hkept : s.handler.onFinishedRead.func with
      | none => exact iff_of_true (List.append_nil _) fun _ _ f hf => nomatch hf
      | some f =>
        refine iff_of_false (inOrder_append_ne _ _) fun hsound => ?_
        exact hregistered ((ht.func f hkept).2 (hsound rfl hdone f rfl))
  · rw [e, Option.isNone_none, after_read, orderly_iff_of_not]
    swap
    · exact fun hboth => nomatch hboth.2
    exact ⟨iff_of_true h fun _ hnow => absurd hnow hdone,
      fun _ => ht.deliver hready hfunc (Nat.le_refl 1)⟩
  · rw [e, Option.isNone_some, after_raise, orderly_iff_of_not]
    · exact ⟨iff_of_true h nofun,
        fun _ => ht.deliver hready ((func_raise r _).trans hfunc) (Nat.zero_le 1)⟩
    · exact fun hboth => nomatch hboth.2
    · split_ifs <;> simp
    · split_ifs <;> rfl

theorem step_iff (ht : s.Tidy) (h : s.Orderly) {op : BodyReadsOp} (hstep : s.step op = some s') :
    (s'.Orderly ↔ s.Sound op) ∧ (s'.Orderly → s'.Tidy) := by
  cases op with
  | readBody max => exact readBody_step ht h hstep
  | setThen => exact setThen_step ht h hstep
  | deliver ec amount => exact deliver_step ht h hstep

/-- **Sequential reads**: the continuations run in order, in all states of a run, exactly if no read
completes while the wrapper keeps the continuation of another, and once it is fulfilled no
continuation is set for a read that has not completed. -/
theorem sequential_reads_iff (parser : RequestParser) (header : RequestHeader)
    (ops : List BodyReadsOp) (s : BodyReads) (hrun : run step (start parser header) ops = some s) :
    Throughout step Orderly (start parser header) ops ↔
      Along step Sound (start parser header) ops := by
  refine throughout_iff_along (A := fun _ => True) (I := Tidy) ?_ ?_ (tidy_start parser header)
    (orderly_start parser header) (fun _ _ => trivial) hrun
  · intro s op s' _ ht h hstep h'
    exact (step_iff ht h hstep).2 h'
  · intro s op s' _ ht h hstep
    exact (step_iff ht h hstep).1

/-- A header with the `Content-Length` 4. -/
def fourBytes : RequestHeader := { fields := AList.insert (bytes "Content-Length") (bytes "4") ∅ }

/-- Two reads with a limit, of a body that has come with the header. -/
theorem sequential_reads_iff_buffered :
    Throughout step Orderly
        (start { headerBuffer := bytes "abcd", progress := .body } fourBytes)
        [.readBody 2, .setThen, .readBody 2, .setThen] ↔
      Along step Sound (start { headerBuffer := bytes "abcd", progress := .body } fourBytes)
        [.readBody 2, .setThen, .readBody 2, .setThen] :=
  sequential_reads_iff _ _ _
    { handler := {
        parser := { headerBuffer := [], progress := .body }
        header := fourBytes
        sink := ⟨2, bytes "cd"⟩
        onFinishedRead := { fullfilled := true }
        maxRead := 2 }
      reads := 2
      completed := true
      registered := true
      calls := [⟨0, 0, true⟩, ⟨1, 1, true⟩] } rfl

/-- A first read that completes at once, and then one that has to wait: its continuation runs before
the bytes are there. -/
theorem not_sequential_reads :
    ¬ ∀ (parser : RequestParser) (header : RequestHeader) (ops : List BodyReadsOp) (s : BodyReads),
      run step (start parser header) ops = some s → s.Orderly := by
  intro h
  have horder : ([⟨0, 0, true⟩, ⟨1, 1, false⟩] : List ContinuationCall) = [⟨0, 0, true⟩] :=
    h { headerBuffer := bytes "ab", progress := .body } fourBytes
      [.readBody 2, .setThen, .readBody 2, .setThen] _ rfl
  cases horder

end BodyReads

end Attender.Http
