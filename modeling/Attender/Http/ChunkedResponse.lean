import Attender.Library.Bytes
import Attender.Library.Runs
import Attender.Utility.CallbackWrapper

/-!
# Chunked responses

`response_handler::send_chunked` with a `streaming_producer`: the producer keeps
the bytes pushed in a buffer, and the callback `on_produce` puts all of them on
the connection as one chunk. The bytes stay in the buffer until the chunk is
written. The pushes, the steps of `send_chunked` and the completions of its
writes come in any order; the connection stays alive.

Each operation is one step. Of `operator<<` and `has_consumed` the mutex of the
buffer makes it one; `flush`, `finish` and `start_production` test `consuming_`
outside of it, and are assumed not to overlap with a completion on another
thread.
-/

namespace Attender.Http

open Attender.Library Attender.Utility

/-- What is written on the connection behind the header. -/
inductive Frame where
  /-- A chunk with its bytes. -/
  | chunk (payload : Bytes)
  /-- `0 CRLF CRLF`. -/
  | terminal
  deriving DecidableEq

/-- How far `send_chunked` has come. -/
inductive ChunkedPhase where
  /-- The header is not written. -/
  | detached
  /-- `set_on_produce_cb` and `set_finish_callback` are done. -/
  | attached
  /-- `start_production` is done. -/
  | started
  deriving DecidableEq

/-- A `streaming_producer` and the connection `send_chunked` puts it on. -/
structure Chunked where
  /-- `streaming_producer::buffer_`. -/
  buffer : Bytes := []
  /-- `streaming_producer::completed_`. -/
  completed : Bool := false
  /-- `producer::consuming_`. -/
  consuming : Bool := false
  /-- `producer::on_produce_` is set. -/
  hasConsumerAttached : Bool := false
  phase : ChunkedPhase := .detached
  /-- The writes of the connection that have not completed. -/
  inFlight : List Frame := []
  /-- All that has been given to the connection to write. -/
  frames : List Frame := []
  /-- How often `end` of the response handler has been called. -/
  ended : Nat := 0
  deriving DecidableEq

namespace Chunked

/-- `connection->write`. -/
def write (s : Chunked) (f : Frame) : Chunked :=
  { s with inFlight := s.inFlight ++ [f], frames := s.frames ++ [f] }

/-- The callback `on_produce` of `send_chunked`, as `set_on_produce_cb` wraps it. -/
def onProduce (s : Chunked) : Chunked :=
  let s := { s with consuming := true }
  if s.completed then s.write .terminal
  else if s.buffer = [] then { s with consuming := false } -- `has_consumed(0)`
  else s.write (.chunk s.buffer)

/-- `producer::produced_data`. -/
def producedData (s : Chunked) : Chunked :=
  if s.consuming then s
  else if s.hasConsumerAttached then s.onProduce
  else s

/-- `streaming_producer::has_consumed`, and that of `producer`. -/
def hasConsumed (s : Chunked) (size : Nat) : Chunked :=
  let s := { s with buffer := if s.buffer.length < size then [] else s.buffer.drop size }
  if s.buffer ≠ [] then
    if s.hasConsumerAttached then s.onProduce else s
  else { s with consuming := false }

/-- `producer::end_production`, and then `end` of the response handler. -/
def endProduction (s : Chunked) : Chunked :=
  { s with hasConsumerAttached := false, ended := s.ended + 1 }

/-- `producer::production_failure` in a call of the compression that fails after it has emitted
`data`. Without a consumer the empty `on_produce_` throws at the caller. -/
def productionFailure (s : Chunked) (data : Bytes) : Chunked :=
  let s := { s with buffer := s.buffer ++ data }
  if s.hasConsumerAttached then { s with consuming := true }.write .terminal else s

/-- `streaming_producer::start_production`. -/
def startProduction (s : Chunked) : Chunked :=
  if s.buffer ≠ [] then s.producedData else s

/-- What is consumed is taken off the buffer, and what is left is produced at once. -/
theorem hasConsumed_eq (s : Chunked) (size : Nat) :
    s.hasConsumed size =
      if s.buffer.drop size ≠ [] then
        if s.hasConsumerAttached then { s with buffer := s.buffer.drop size }.onProduce
        else { s with buffer := s.buffer.drop size }
      else { s with buffer := s.buffer.drop size, consuming := false } := by
  have hbuffer : (if s.buffer.length < size then [] else s.buffer.drop size) =
      s.buffer.drop size := by
    split_ifs with hsize
    · rw [List.drop_of_length_le hsize.le]
    · rfl
  rw [hasConsumed, hbuffer]

end Chunked

/-- What happens to a chunked response. -/
inductive ChunkedOp where
  /-- `operator<<`. -/
  | push (data : Bytes)
  /-- `streaming_producer::flush`. -/
  | flush
  /-- `streaming_producer::finish`. -/
  | finish
  /-- The header is written: the callbacks are set. -/
  | attach
  /-- `start_production` of the producer. -/
  | startProduction
  /-- The oldest write completes, with an error or without. -/
  | written (ec : Option ErrorCode)
  deriving DecidableEq

/-- One step of a chunked response. -/
def Chunked.step (s : Chunked) : ChunkedOp → Option Chunked
  | .push data => some { s with buffer := s.buffer ++ data }.producedData
  | .flush => some s.producedData
  | .finish => some { s with completed := true }.producedData
  | .attach =>
    if s.phase = .detached then some { s with phase := .attached, hasConsumerAttached := true }
    else none
  | .startProduction =>
    if s.phase = .attached then some { s with phase := .started }.startProduction else none
  | .written ec =>
    match s.inFlight with
    | [] => none
    | .terminal :: inFlight => some { s with inFlight := inFlight }.endProduction
    | .chunk payload :: inFlight =>
      match ec with
      | none => some ({ s with inFlight := inFlight }.hasConsumed payload.length)
      | some _ => some { s with inFlight := inFlight }.endProduction

namespace Chunked

/-! ### What holds of every run -/

/-- What holds between the buffer, the writes and the callback. -/
structure Inv (s : Chunked) : Prop where
  /-- At most one write is in flight, and the bytes of a chunk are at the front of the buffer. -/
  flight : s.inFlight = [] ∨
    (∃ d, s.inFlight = [.chunk d] ∧ d <+: s.buffer ∧ .terminal ∉ s.frames ∧ s.ended = 0) ∨
      (s.inFlight = [.terminal] ∧ .terminal ∈ s.frames ∧ s.ended = 0)
  consuming : s.consuming ↔ s.inFlight ≠ [] ∨ 0 < s.ended
  attached : s.hasConsumerAttached ↔ s.phase ≠ .detached ∧ s.ended = 0
  detached : s.consuming → s.phase ≠ .detached
  terminal : .terminal ∈ s.frames → s.consuming
  order : ∃ ds : List Bytes,
    s.frames = ds.map .chunk ++ if .terminal ∈ s.frames then [.terminal] else []

theorem inv_init : Inv {} := by
  refine ⟨Or.inl rfl, by simp, by simp, by simp, by simp, ⟨[], by simp⟩⟩

/-- **What `on_produce` does**: it ends the response, or it has nothing to write, or it writes the
buffer. -/
theorem onProduce_cases (s : Chunked) :
    (s.completed ∧ s.onProduce = { s with consuming := true }.write .terminal) ∨
      (¬ s.completed ∧ s.buffer = [] ∧ s.onProduce = { s with consuming := false }) ∨
        ¬ s.completed ∧ s.buffer ≠ [] ∧
          s.onProduce = { s with consuming := true }.write (.chunk s.buffer) := by
  unfold onProduce
  by_cases hc : s.completed
  · exact Or.inl ⟨hc, by simp [hc]⟩
  · by_cases hb : s.buffer = []
    · exact Or.inr (Or.inl ⟨hc, hb, by simp [hc, hb]⟩)
    · exact Or.inr (Or.inr ⟨hc, hb, by simp [hc, hb]⟩)

section Completed

variable (s : Chunked)

@[simp] theorem completed_onProduce : s.onProduce.completed = s.completed := by
  rcases onProduce_cases s with ⟨-, e⟩ | ⟨-, -, e⟩ | ⟨-, -, e⟩ <;> rw [e] <;> rfl

@[simp] theorem completed_producedData : s.producedData.completed = s.completed := by
  unfold producedData
  split_ifs
  · rfl
  · exact completed_onProduce s
  · rfl

@[simp] theorem completed_hasConsumed (size : Nat) :
    (s.hasConsumed size).completed = s.completed := by
  rw [hasConsumed_eq]
  split_ifs
  · exact completed_onProduce _
  · rfl
  · rfl

end Completed

section Phase

variable (s : Chunked)

@[simp] theorem phase_onProduce : s.onProduce.phase = s.phase := by
  rcases onProduce_cases s with ⟨-, e⟩ | ⟨-, -, e⟩ | ⟨-, -, e⟩ <;> rw [e] <;> rfl

@[simp] theorem phase_producedData : s.producedData.phase = s.phase := by
  unfold producedData
  split_ifs
  · rfl
  · exact phase_onProduce s
  · rfl

@[simp] theorem phase_hasConsumed (size : Nat) : (s.hasConsumed size).phase = s.phase := by
  rw [hasConsumed_eq]
  split_ifs
  · exact phase_onProduce _
  · rfl
  · rfl

end Phase

/-- No write is in flight, and the response has not ended. -/
structure Idle (s : Chunked) : Prop where
  flight : s.inFlight = []
  ended : s.ended = 0
  attached : s.hasConsumerAttached ↔ s.phase ≠ .detached
  order : ∃ ds : List Bytes, s.frames = ds.map .chunk

theorem Idle.terminal {s : Chunked} (h : Idle s) : .terminal ∉ s.frames := by
  obtain ⟨ds, hds⟩ := h.order
  simp [hds]

/-- While it is not consuming, it is idle. -/
theorem Inv.idle {s : Chunked} (h : Inv s) (hidle : ¬ s.consuming) : Idle s := by
  have hnot := mt h.consuming.mpr hidle
  rw [not_or, not_not, Nat.pos_iff_ne_zero, not_not] at hnot
  have hterminal : .terminal ∉ s.frames := by
    intro ht
    exact hidle (h.terminal ht)
  refine ⟨hnot.1, hnot.2, by simp [h.attached, hnot.2], ?_⟩
  obtain ⟨ds, hds⟩ := h.order
  rw [if_neg hterminal, List.append_nil] at hds
  exact ⟨ds, hds⟩

/-- An idle response may rest. -/
theorem Idle.inv {s : Chunked} (h : Idle s) : Inv { s with consuming := false } := by
  obtain ⟨ds, hds⟩ := h.order
  refine ⟨Or.inl h.flight, by simp [h.flight, h.ended], by simp [h.attached, h.ended],
    by simp, fun ht => absurd ht h.terminal, ⟨ds, ?_⟩⟩
  rw [if_neg h.terminal, List.append_nil]
  exact hds

theorem Idle.writeTerminal {s : Chunked} (h : Idle s) (hattached : s.hasConsumerAttached) :
    Inv ({ s with consuming := true }.write .terminal) := by
  obtain ⟨ds, hds⟩ := h.order
  refine ⟨Or.inr (Or.inr ⟨?_, ?_, h.ended⟩), ?_, ?_, fun _ => h.attached.mp hattached, fun _ => rfl,
    ⟨ds, ?_⟩⟩
  · simp [write, h.flight]
  · simp [write]
  · simp [write]
  · simp [write, h.attached, h.ended]
  · simp [write, hds]

theorem Idle.onProduce {s : Chunked} (h : Idle s) (hattached : s.hasConsumerAttached) :
    Inv s.onProduce := by
  have hphase := h.attached.mp hattached
  have hterminal := h.terminal
  obtain ⟨ds, hds⟩ := h.order
  rcases onProduce_cases s with ⟨-, e⟩ | ⟨-, -, e⟩ | ⟨-, -, e⟩
  · rw [e]
    exact h.writeTerminal hattached
  · rw [e]
    exact h.inv
  · rw [e]
    refine ⟨Or.inr (Or.inl ⟨s.buffer, ?_, List.prefix_refl _, ?_, h.ended⟩), ?_, ?_,
      fun _ => hphase, ?_, ⟨ds ++ [s.buffer], ?_⟩⟩
    · simp [write, h.flight]
    · simp [write, hterminal]
    · simp [write]
    · simp [write, h.attached, h.ended]
    · simp [write, hterminal]
    · simp [write, hds]

theorem Inv.producedData {s : Chunked} (h : Inv s) : Inv s.producedData := by
  unfold Chunked.producedData
  split_ifs with hc ha
  · exact h
  · exact (h.idle hc).onProduce ha
  · exact h

/-- Bytes behind the buffer change nothing of what holds. -/
theorem Inv.push {s : Chunked} (h : Inv s) (data : Bytes) :
    Inv { s with buffer := s.buffer ++ data } := by
  refine ⟨?_, h.consuming, h.attached, h.detached, h.terminal, h.order⟩
  rcases h.flight with hf | ⟨d, hf, hd, hrest⟩ | hf
  · exact Or.inl hf
  · exact Or.inr (Or.inl ⟨d, hf, hd.trans (List.prefix_append _ _), hrest⟩)
  · exact Or.inr (Or.inr hf)

/-- Nor does the end of the stream. -/
theorem Inv.complete {s : Chunked} (h : Inv s) : Inv { s with completed := true } :=
  ⟨h.flight, h.consuming, h.attached, h.detached, h.terminal, h.order⟩

/-- Nor does the start of the production. -/
theorem Inv.start {s : Chunked} (h : Inv s) (hphase : s.phase = .attached) :
    Inv { s with phase := .started } := by
  refine ⟨h.flight, h.consuming, ?_, fun _ => by simp, h.terminal, h.order⟩
  simp [h.attached, hphase]

/-- A terminal chunk in flight has been written. -/
theorem Inv.terminal_mem {s : Chunked} (h : Inv s) (hf : s.inFlight = [.terminal]) :
    .terminal ∈ s.frames := by
  rcases h.flight with hf' | ⟨d, hf', -⟩ | ⟨-, hterminal, -⟩
  · rw [hf] at hf'
    cases hf'
  · rw [hf] at hf'
    cases hf'
  · exact hterminal

/-- A chunk in flight is the only write, and its bytes are at the front of the buffer. -/
theorem Inv.chunk {s : Chunked} {d : Bytes} {rest : List Frame} (h : Inv s)
    (hf : s.inFlight = .chunk d :: rest) :
    rest = [] ∧ d <+: s.buffer ∧ s.hasConsumerAttached ∧ Idle { s with inFlight := [] } := by
  have hconsuming : s.consuming := h.consuming.mpr (Or.inl (by rw [hf]; exact List.cons_ne_nil _ _))
  rcases h.flight with hnil | ⟨d', hf', hd, hterminal, hended⟩ | ⟨hf', -⟩
  · rw [hnil] at hf
    cases hf
  · rw [hf'] at hf
    cases hf
    obtain ⟨ds, hds⟩ := h.order
    rw [if_neg hterminal, List.append_nil] at hds
    exact ⟨rfl, hd, h.attached.mpr ⟨h.detached hconsuming, hended⟩, rfl, hended,
      by simp [h.attached, hended], ⟨ds, hds⟩⟩
  · rw [hf'] at hf
    cases hf

theorem Idle.hasConsumed {s : Chunked} (h : Idle s) (hattached : s.hasConsumerAttached)
    (size : Nat) : Inv (s.hasConsumed size) := by
  have hidle : Idle { s with buffer := s.buffer.drop size } :=
    ⟨h.flight, h.ended, h.attached, h.order⟩
  rw [hasConsumed_eq, if_pos hattached]
  split_ifs
  · exact hidle.onProduce hattached
  · exact hidle.inv

/-- The end of the response, when its only write has completed. -/
theorem Inv.endProduction {s : Chunked} (h : Inv s) (hf : s.inFlight ≠ []) :
    Inv { s with inFlight := [] }.endProduction := by
  have hconsuming : s.consuming := h.consuming.mpr (Or.inl hf)
  refine ⟨Or.inl rfl, ?_, ?_, fun _ => h.detached hconsuming, h.terminal, h.order⟩
  · simp [Chunked.endProduction, hconsuming]
  · simp [Chunked.endProduction]

/-- **What a completion does**: a chunk has been consumed, or the response ends. -/
theorem Inv.written_cases {s s' : Chunked} {ec : Option ErrorCode} (h : Inv s)
    (hstep : s.step (.written ec) = some s') :
    (∃ d, s.inFlight = [.chunk d] ∧ ec = none ∧
        s' = { s with inFlight := [] }.hasConsumed d.length) ∨
      s.inFlight ≠ [] ∧ (s.inFlight = [.terminal] ∨ ec ≠ none) ∧
        s' = { s with inFlight := [] }.endProduction := by
  rcases h.flight with hf | ⟨d, hf, -⟩ | ⟨hf, -⟩
  · rw [Chunked.step, hf] at hstep
    cases hstep
  · cases ec with
    | none =>
      rw [Chunked.step, hf] at hstep
      exact Or.inl ⟨d, hf, rfl, (Option.some.inj hstep).symm⟩
    | some ec =>
      rw [Chunked.step, hf] at hstep
      exact Or.inr ⟨by rw [hf]; exact List.cons_ne_nil _ _, Or.inr nofun,
        (Option.some.inj hstep).symm⟩
  · rw [Chunked.step, hf] at hstep
    exact Or.inr ⟨by rw [hf]; exact List.cons_ne_nil _ _, Or.inl hf, (Option.some.inj hstep).symm⟩

/-- The consumer stays attached to the response. -/
theorem Inv.phase_step {s s' : Chunked} {op : ChunkedOp} (h : Inv s) (hphase : s.phase ≠ .detached)
    (hstep : s.step op = some s') : s'.phase ≠ .detached := by
  cases op with
  | push data =>
    cases hstep
    rwa [phase_producedData]
  | flush =>
    cases hstep
    rwa [phase_producedData]
  | finish =>
    cases hstep
    rwa [phase_producedData]
  | attach =>
    simp only [Chunked.step] at hstep
    split_ifs at hstep
    cases hstep
    exact nofun
  | startProduction =>
    simp only [Chunked.step] at hstep
    split_ifs at hstep
    cases hstep
    unfold Chunked.startProduction
    split_ifs
    · rw [phase_producedData]
      exact nofun
    · exact nofun
  | written ec =>
    rcases h.written_cases hstep with ⟨d, -, -, rfl⟩ | ⟨-, -, rfl⟩
    · rwa [phase_hasConsumed]
    · exact hphase

/-- **One step** keeps what holds. -/
theorem inv_step {s s' : Chunked} {op : ChunkedOp} (h : Inv s) (hstep : s.step op = some s') :
    Inv s' := by
  cases op with
  | push data =>
    cases hstep
    exact (h.push data).producedData
  | flush =>
    cases hstep
    exact h.producedData
  | finish =>
    cases hstep
    exact h.complete.producedData
  | attach =>
    simp only [Chunked.step] at hstep
    split_ifs at hstep with hphase
    cases hstep
    have hconsuming : ¬ s.consuming := by
      intro hc
      exact h.detached hc hphase
    have hidle := h.idle hconsuming
    exact ⟨h.flight, h.consuming, by simp [hidle.ended], fun hc => absurd hc hconsuming,
      h.terminal, h.order⟩
  | startProduction =>
    simp only [Chunked.step] at hstep
    split_ifs at hstep with hphase
    cases hstep
    unfold Chunked.startProduction
    split_ifs
    · exact (h.start hphase).producedData
    · exact h.start hphase
  | written ec =>
    rcases h.written_cases hstep with ⟨d, hf, -, rfl⟩ | ⟨hf, -, rfl⟩
    · obtain ⟨-, -, hattached, hidle⟩ := h.chunk hf
      exact hidle.hasConsumed hattached _
    · exact h.endProduction hf

/-! ### The producers -/

/-- What `brotli_encoder::has_consumed` does after that of `producer`: it signals the end of the
stream once more. -/
def wake (s : Chunked) : Chunked := if s.consuming = false ∧ s.completed then s.producedData else s

end Chunked

/-- The producers of the library. What a `brotli_encoder` pushes is what it has encoded; a call of
its encoder that fails is `productionFailure` instead. -/
inductive ProducerKind where
  | streaming
  | brotli
  deriving DecidableEq

namespace Chunked

/-- One step of a response with either producer. They differ in `has_consumed`. -/
def stepOf (kind : ProducerKind) (s : Chunked) (op : ChunkedOp) : Option Chunked :=
  match kind, op, s.inFlight with
  | .brotli, .written none, .chunk payload :: inFlight =>
    some ({ s with inFlight := inFlight }.hasConsumed payload.length).wake
  | _, _, _ => s.step op

section Kinds

variable {kind : ProducerKind} {s s' : Chunked} {op : ChunkedOp}

/-- **What either producer does**: a `brotli_encoder` wakes when a chunk is written, and else there
is no difference. -/
theorem stepOf_cases (h : s.stepOf kind op = some s') :
    (s.step op = some s' ∧
        (kind = .brotli → op = .written none → ∀ d rest, s.inFlight ≠ .chunk d :: rest)) ∨
      kind = .brotli ∧ op = .written none ∧ ∃ t, s.step op = some t ∧ s' = t.wake := by
  unfold stepOf at h
  split at h
  · next payload inFlight hflight =>
    refine Or.inr ⟨rfl, rfl, { s with inFlight := inFlight }.hasConsumed payload.length, ?_,
      (Option.some.inj h).symm⟩
    rw [Chunked.step, hflight]
  · next hother => exact Or.inl ⟨h, fun hkind hop d rest hflight => hother d rest hkind hop hflight⟩

theorem phase_wake (s : Chunked) : s.wake.phase = s.phase := by
  rw [wake]
  split_ifs
  · exact phase_producedData s
  · rfl

theorem Inv.wake (h : Inv s) : Inv s.wake := by
  rw [Chunked.wake]
  split_ifs
  · exact h.producedData
  · exact h

theorem inv_stepOf (h : Inv s) (hstep : s.stepOf kind op = some s') : Inv s' := by
  rcases stepOf_cases hstep with ⟨hsame, -⟩ | ⟨-, -, t, ht, rfl⟩
  · exact inv_step h hsame
  · exact (inv_step h ht).wake

theorem Inv.phase_stepOf (h : Inv s) (hphase : s.phase ≠ .detached)
    (hstep : s.stepOf kind op = some s') : s'.phase ≠ .detached := by
  rcases stepOf_cases hstep with ⟨hsame, -⟩ | ⟨-, -, t, ht, rfl⟩
  · exact h.phase_step hphase hsame
  · rw [phase_wake]
    exact h.phase_step hphase ht

/-- A write that fails ends the response. -/
theorem Inv.ended_of_failed {ec : ErrorCode} (h : Inv s)
    (hstep : s.stepOf kind (.written (some ec)) = some s') : 0 < s'.ended := by
  rcases stepOf_cases hstep with ⟨hsame, -⟩ | ⟨-, hop, -⟩
  · rcases h.written_cases hsame with ⟨_, _, hnone, _⟩ | ⟨_, _, rfl⟩
    · cases hnone
    · exact Nat.succ_pos _
  · cases hop

end Kinds

/-! ### Without a consumer -/

section Unattached

variable {s s' : Chunked}

theorem producedData_of_unattached (h : s.hasConsumerAttached = false) : s.producedData = s := by
  simp [producedData, h]

/-- A producer without a consumer writes nothing. -/
theorem unattached_step {op : ChunkedOp} (hconsumer : s.hasConsumerAttached = false)
    (hflight : s.inFlight = []) (hop : op ≠ .attach) (hstep : s.step op = some s') :
    s'.hasConsumerAttached = false ∧ s'.inFlight = [] ∧ s'.ended = s.ended ∧
      (s.phase = .detached → s'.phase = .detached) := by
  cases op with
  | push data =>
    cases hstep
    rw [producedData_of_unattached (s := { s with buffer := s.buffer ++ data }) hconsumer]
    exact ⟨hconsumer, hflight, rfl, id⟩
  | flush =>
    cases hstep
    rw [producedData_of_unattached hconsumer]
    exact ⟨hconsumer, hflight, rfl, id⟩
  | finish =>
    cases hstep
    rw [producedData_of_unattached (s := { s with completed := true }) hconsumer]
    exact ⟨hconsumer, hflight, rfl, id⟩
  | attach => exact absurd rfl hop
  | startProduction =>
    simp only [Chunked.step] at hstep
    split_ifs at hstep with hphase
    cases hstep
    have hstart : startProduction { s with phase := .started } = { s with phase := .started } := by
      rw [startProduction, producedData_of_unattached (s := { s with phase := .started }) hconsumer,
        ite_self]
    rw [hstart]
    exact ⟨hconsumer, hflight, rfl, fun hdetached => nomatch hphase.symm.trans hdetached⟩
  | written ec =>
    rw [Chunked.step, hflight] at hstep
    cases hstep

theorem unattached_stepOf {kind : ProducerKind} {op : ChunkedOp}
    (hconsumer : s.hasConsumerAttached = false) (hflight : s.inFlight = []) (hop : op ≠ .attach)
    (hstep : s.stepOf kind op = some s') :
    s'.hasConsumerAttached = false ∧ s'.inFlight = [] ∧ s'.ended = s.ended ∧
      (s.phase = .detached → s'.phase = .detached) := by
  rcases stepOf_cases hstep with ⟨hsame, -⟩ | ⟨-, rfl, t, ht, -⟩
  · exact unattached_step hconsumer hflight hop hsame
  · rw [Chunked.step, hflight] at ht
    cases ht

/-- Before the consumer is attached, nothing is in flight and nothing has ended. -/
theorem Inv.of_detached (h : Inv s) (hphase : s.phase = .detached) :
    s.hasConsumerAttached = false ∧ s.inFlight = [] ∧ s.ended = 0 := by
  have hidle := h.idle fun hconsuming => h.detached hconsuming hphase
  refine ⟨?_, hidle.flight, hidle.ended⟩
  rw [← Bool.not_eq_true, hidle.attached, not_not]
  exact hphase

end Unattached

/-! ### A failing producer -/

section Failure

variable {s : Chunked}

theorem productionFailure_of_unattached (h : s.hasConsumerAttached = false) (data : Bytes) :
    s.productionFailure data = { s with buffer := s.buffer ++ data } := by
  simp [productionFailure, h]

theorem productionFailure_of_attached (h : s.hasConsumerAttached) (data : Bytes) :
    s.productionFailure data =
      { s with buffer := s.buffer ++ data, consuming := true }.write .terminal := by
  simp [productionFailure, h]

/-- With no write in flight, a consumer that is attached is idle. -/
theorem Inv.idle_of_attached (h : Inv s) (hflight : s.inFlight = [])
    (hattached : s.hasConsumerAttached) : Idle s := by
  have hended : s.ended = 0 := (h.attached.mp hattached).2
  refine h.idle ?_
  intro hconsuming
  rcases h.consuming.mp hconsuming with hne | hpositive
  · exact hne hflight
  · omega

/-- **A failure** with no write in flight keeps what holds. -/
theorem Inv.productionFailure (h : Inv s) (hflight : s.inFlight = []) (data : Bytes) :
    Inv (s.productionFailure data) := by
  by_cases hattached : s.hasConsumerAttached
  · have hidle : Idle { s with buffer := s.buffer ++ data } := by
      obtain ⟨hnone, hended, hiff, horder⟩ := h.idle_of_attached hflight hattached
      exact ⟨hnone, hended, hiff, horder⟩
    rw [productionFailure_of_attached hattached]
    exact hidle.writeTerminal hattached
  · rw [productionFailure_of_unattached (Bool.not_eq_true _ ▸ hattached)]
    exact h.push data

end Failure

end Chunked

end Attender.Http
