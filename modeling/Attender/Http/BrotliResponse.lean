import Attender.Encoding.BrotliEncoder
import Attender.Http.ChunkedResponse

/-!
# Chunked responses of a brotli encoder

`response_handler::send_chunked` with a `brotli_encoder` and its two buffers. What
`on_produce` and `has_consumed` do with the output is what they do with the
buffer of a `Chunked` response (`chunked_onProduce`, `chunked_hasConsumed`). As
long as no call of the compression finds bytes in the output, a call pushes what
it emits into that buffer (`Intact.compress`).
-/

namespace Attender.Http

open Attender.Library Attender.Utility Attender.Encoding

/-- A response by `send_chunked` with a `brotli_encoder`, and what has gone through the encoder. -/
structure BrotliResponse where
  encoder : BrotliEncoder
  /-- The loop of `flush` or `finish` that is running. -/
  looping : Option EncoderLoop := none
  phase : ChunkedPhase := .detached
  /-- The writes of the connection that have not completed. -/
  inFlight : List Frame := []
  /-- All that has been given to the connection to write. -/
  frames : List Frame := []
  /-- How often `end` of the response handler has been called. -/
  ended : Nat := 0
  /-- What has been pushed. -/
  pushed : Bytes := []
  /-- What the compression has consumed. -/
  consumed : Bytes := []
  /-- What the compression has emitted. -/
  emitted : Bytes := []
  deriving DecidableEq

/-- What happens to it. -/
inductive BrotliOp where
  /-- `brotli_encoder::push`, `operator<<`. -/
  | push (data : Bytes) (call : CompressStream)
  | flush (call : CompressStream)
  | finish (call : CompressStream)
  /-- The loop that is running goes round once more. -/
  | again (call : CompressStream)
  /-- The header is written: the callbacks are set. -/
  | attach
  | startProduction
  /-- The oldest write completes, with an error or without. -/
  | written (ec : Option ErrorCode)
  deriving DecidableEq

namespace BrotliResponse

variable (s : BrotliResponse)

/-- `connection->write`. -/
def write (f : Frame) : BrotliResponse :=
  { s with inFlight := s.inFlight ++ [f], frames := s.frames ++ [f] }

/-- The callback `on_produce` of `send_chunked`, as `set_on_produce_cb` wraps it, with the text of
an error or without. -/
def onProduce (failed : Bool) : BrotliResponse :=
  let s := { s with encoder := { s.encoder with consuming := true } }
  if failed then s.write .terminal
  else if s.encoder.completed then s.write .terminal
  else if s.encoder.avail = 0 then
    -- `has_consumed(0)`
    { s with encoder := { s.encoder with consuming := false } }
  else s.write (.chunk s.encoder.available)

/-- `producer::produced_data`. -/
def producedData : BrotliResponse :=
  if s.encoder.consuming then s
  else if s.encoder.hasConsumerAttached then s.onProduce false
  else s

/-- `producer::production_failure`, unless it throws `std::bad_function_call`. -/
def productionFailure : Option BrotliResponse :=
  if s.encoder.hasConsumerAttached then some (s.onProduce true) else none

/-- `producer::has_consumed`. -/
def signalConsumed : BrotliResponse :=
  if s.encoder.avail > 0 then if s.encoder.hasConsumerAttached then s.onProduce false else s
  else { s with encoder := { s.encoder with consuming := false } }

/-- What has been consumed is erased from the output. -/
def erase (size : Nat) : BrotliResponse :=
  if size > 0 then
    { s with encoder := { s.encoder with
        avail := s.encoder.avail - size, output := s.encoder.output.drop size } }
  else s

/-- `brotli_encoder::has_consumed`. -/
def hasConsumed (size : Nat) : BrotliResponse :=
  let s := (s.erase size).signalConsumed
  if ¬ s.encoder.consuming ∧ s.encoder.completed then s.producedData else s

/-- `producer::end_production`, and then `end` of the response handler. -/
def endProduction : BrotliResponse :=
  { s with encoder := { s.encoder with hasConsumerAttached := false }, ended := s.ended + 1 }

/-- `brotli_encoder::start_production`. -/
def startProduction : BrotliResponse := if s.encoder.avail > 0 then s.producedData else s

/-- The call of the compression in `push`. -/
def compress (data : Bytes) (call : CompressStream) : BrotliResponse :=
  { s with
    encoder := (s.encoder.prepare data).compress call
    pushed := s.pushed ++ data
    consumed := s.consumed ++ (s.encoder.prepare data).input.take call.consumed
    emitted := s.emitted ++ call.emitted }

/-- `brotli_encoder::push`, and whether it returns. -/
def push (data : Bytes) (call : CompressStream) : Option (BrotliResponse × Bool) :=
  if (s.encoder.prepare data).Allows call then
    let s := s.compress data call
    if call.ok then some (s.producedData, true)
    else
      match s.productionFailure with
      | some s => some (s, true)
      | none => some (s, false)
  else none

/-- One round of a loop, and what is done after the last. An exception leaves the loop. -/
def iterate (loop : EncoderLoop) (call : CompressStream) : Option BrotliResponse :=
  (s.push [] call).map fun (s, returned) =>
    if ¬ returned then { s with looping := none }
    else if s.encoder.availIn ≠ 0 then { s with looping := some loop }
    else
      match loop with
      | .flush => { s with looping := none }.producedData
      | .finish =>
        { s with encoder := { s.encoder with completed := true }, looping := none }.producedData

/-- One step. Nothing is pushed while a loop is running. -/
def step : BrotliOp → Option BrotliResponse
  | .push data call => if s.looping = none then (s.push data call).map Prod.fst else none
  | .flush call => if s.looping = none then s.iterate .flush call else none
  | .finish call => if s.looping = none then s.iterate .finish call else none
  | .again call =>
    match s.looping with
    | some loop => s.iterate loop call
    | none => none
  | .attach =>
    if s.phase = .detached then
      some { s with
        phase := .attached, encoder := { s.encoder with hasConsumerAttached := true } }
    else none
  | .startProduction =>
    if s.phase = .attached then some { s with phase := .started }.startProduction else none
  | .written ec =>
    match s.inFlight with
    | [] => none
    | .terminal :: inFlight => some { s with inFlight := inFlight }.endProduction
    | .chunk payload :: inFlight =>
      match ec with
      | none => some ({ s with inFlight := inFlight }.hasConsumed payload.length)
      | some _ => some { s with inFlight := inFlight }.endProduction

/-- What the encoder is used for so far. -/
def compression (read : Bytes) : Compression where
  encoder := s.encoder
  looping := s.looping
  pushed := s.pushed
  consumed := s.consumed
  emitted := s.emitted
  read := read

/-- The response, with what the encoder has emitted as its buffer. -/
def chunked : Chunked where
  buffer := s.encoder.available
  completed := s.encoder.completed
  consuming := s.encoder.consuming
  hasConsumerAttached := s.encoder.hasConsumerAttached
  phase := s.phase
  inFlight := s.inFlight
  frames := s.frames
  ended := s.ended

end BrotliResponse

/-! ### The output as a buffer -/

namespace BrotliResponse

variable {s s' : BrotliResponse}

theorem available_eq_nil_iff (h : s.encoder.avail ≤ s.encoder.output.length) :
    s.encoder.available = [] ↔ s.encoder.avail = 0 := by
  rw [BrotliEncoder.available, List.take_eq_nil_iff]
  constructor
  · rintro (hzero | hnil)
    · exact hzero
    · rw [hnil] at h
      exact Nat.le_zero.mp h
  · exact Or.inl

theorem chunked_onProduce (h : s.encoder.avail ≤ s.encoder.output.length) :
    (s.onProduce false).chunked = s.chunked.onProduce := by
  have hnil : s.chunked.buffer = [] ↔ s.encoder.avail = 0 := available_eq_nil_iff h
  rcases Chunked.onProduce_cases s.chunked with ⟨hc, e⟩ | ⟨hc, hb, e⟩ | ⟨hc, hb, e⟩
  · have hcompleted : s.encoder.completed = true := hc
    rw [e]
    simp [onProduce, hcompleted, write, chunked, Chunked.write, BrotliEncoder.available]
  · have hcompleted : ¬ s.encoder.completed = true := hc
    rw [e]
    simp [onProduce, hcompleted, hnil.mp hb, chunked, BrotliEncoder.available]
  · have hcompleted : ¬ s.encoder.completed = true := hc
    rw [e]
    simp [onProduce, hcompleted, mt hnil.mpr hb, write, chunked, Chunked.write,
      BrotliEncoder.available]

theorem chunked_producedData (h : s.encoder.avail ≤ s.encoder.output.length) :
    s.producedData.chunked = s.chunked.producedData := by
  have hconsuming : s.chunked.consuming = s.encoder.consuming := rfl
  have hattached : s.chunked.hasConsumerAttached = s.encoder.hasConsumerAttached := rfl
  rw [producedData, Chunked.producedData, hconsuming, hattached]
  split_ifs
  · rfl
  · exact chunked_onProduce h
  · rfl

theorem chunked_startProduction (h : s.encoder.avail ≤ s.encoder.output.length) :
    s.startProduction.chunked = s.chunked.startProduction := by
  have hnil : s.chunked.buffer = [] ↔ s.encoder.avail = 0 := available_eq_nil_iff h
  rw [startProduction, Chunked.startProduction]
  by_cases hzero : s.encoder.avail = 0
  · rw [if_neg (by omega), if_neg (not_not.mpr (hnil.mpr hzero))]
  · rw [if_pos (Nat.pos_of_ne_zero hzero), if_pos (mt hnil.mp hzero)]
    exact chunked_producedData h

/-- What the consumer does leaves the buffers of the encoder alone. -/
theorem encoder_onProduce (failed : Bool) :
    ∃ b, (s.onProduce failed).encoder = { s.encoder with consuming := b } := by
  rw [onProduce]
  dsimp only
  split_ifs
  · exact ⟨true, rfl⟩
  · exact ⟨true, rfl⟩
  · exact ⟨false, rfl⟩
  · exact ⟨true, rfl⟩

theorem erase_eq (s : BrotliResponse) (size : Nat) :
    s.erase size = { s with encoder := { s.encoder with
      avail := s.encoder.avail - size, output := s.encoder.output.drop size } } := by
  rw [erase]
  split_ifs with hsize
  · rfl
  · obtain rfl : size = 0 := by omega
    rw [List.drop_zero, Nat.sub_zero]

/-- What is consumed is taken off the front of what is available. -/
theorem chunked_erase (s : BrotliResponse) (size : Nat) :
    (s.erase size).chunked = { s.chunked with buffer := s.chunked.buffer.drop size } := by
  rw [erase_eq]
  simp [chunked, BrotliEncoder.available, List.drop_take]

theorem avail_erase (h : s.encoder.avail ≤ s.encoder.output.length) (size : Nat) :
    (s.erase size).encoder.avail ≤ (s.erase size).encoder.output.length := by
  rw [erase_eq, List.length_drop]
  dsimp only
  omega

/-- **A chunk has been consumed**. -/
theorem chunked_hasConsumed (h : s.encoder.avail ≤ s.encoder.output.length) (size : Nat) :
    (s.hasConsumed size).chunked = (s.chunked.hasConsumed size).wake := by
  have hbuffer := chunked_erase s size
  have hlength := avail_erase h size
  have hnil := available_eq_nil_iff hlength
  obtain ⟨t, ht⟩ : ∃ t, s.erase size = t := ⟨_, rfl⟩
  rw [ht] at hbuffer hlength hnil
  have hrest : s.chunked.buffer.drop size = t.encoder.available :=
    (congrArg Chunked.buffer hbuffer).symm
  have hattached : t.encoder.hasConsumerAttached = s.chunked.hasConsumerAttached :=
    congrArg Chunked.hasConsumerAttached hbuffer
  have hsignalled : t.signalConsumed.chunked = s.chunked.hasConsumed size ∧
      t.signalConsumed.encoder.avail ≤ t.signalConsumed.encoder.output.length := by
    rw [Chunked.hasConsumed_eq, ← hbuffer, hrest, signalConsumed, hattached]
    by_cases hzero : t.encoder.avail = 0
    · rw [if_neg (by omega), if_neg (not_not.mpr (hnil.mpr hzero))]
      rw [hnil.mpr hzero] at hrest
      rw [hrest] at hbuffer
      rw [hnil.mpr hzero]
      exact ⟨congrArg (fun c : Chunked => { c with consuming := false }) hbuffer, hlength⟩
    · rw [if_pos (Nat.pos_of_ne_zero hzero), if_pos (mt hnil.mp hzero)]
      split_ifs
      · obtain ⟨b, hb⟩ := encoder_onProduce (s := t) false
        exact ⟨chunked_onProduce hlength, by rw [hb]; exact hlength⟩
      · exact ⟨rfl, hlength⟩
  have hsame : (t.signalConsumed.chunked.consuming = false ∧ t.signalConsumed.chunked.completed) ↔
      ¬ t.signalConsumed.encoder.consuming ∧ t.signalConsumed.encoder.completed := by
    rw [Bool.not_eq_true]
    rfl
  rw [hasConsumed, ht, ← hsignalled.1, Chunked.wake]
  by_cases hwake : ¬ t.signalConsumed.encoder.consuming ∧ t.signalConsumed.encoder.completed
  · rw [if_pos hwake, if_pos (hsame.mpr hwake)]
    exact chunked_producedData hsignalled.2
  · rw [if_neg hwake, if_neg (mt hsame.mp hwake)]

/-! ### The buffers -/

/-- The buffers of the encoder are intact. -/
def Intact (s : BrotliResponse) : Prop := ∃ read, (s.compression read).Inv

/-- The responses differ in the flags of the encoder and in what has been written at most. -/
structure SameBuffers (s t : BrotliResponse) : Prop where
  encoder : ∃ b c a, t.encoder =
    { s.encoder with consuming := b, completed := c, hasConsumerAttached := a }
  pushed : t.pushed = s.pushed
  consumed : t.consumed = s.consumed
  emitted : t.emitted = s.emitted

theorem SameBuffers.intact {t : BrotliResponse} (h : SameBuffers s t) (hs : Intact s) :
    Intact t := by
  obtain ⟨read, hread⟩ := hs
  obtain ⟨b, c, a, hencoder⟩ := h.encoder
  have ht := hread.flags b c a t.looping
  refine ⟨read, ?_⟩
  rw [compression, hencoder, h.pushed, h.consumed, h.emitted]
  exact ht

theorem SameBuffers.availIn {t : BrotliResponse} (h : SameBuffers s t) :
    t.encoder.availIn = s.encoder.availIn := by
  obtain ⟨b, c, a, hencoder⟩ := h.encoder
  rw [hencoder]

theorem SameBuffers.trans {t u : BrotliResponse} (h : SameBuffers s t) (h' : SameBuffers t u) :
    SameBuffers s u := by
  obtain ⟨b, c, a, ht⟩ := h.encoder
  obtain ⟨b', c', a', hu⟩ := h'.encoder
  refine ⟨⟨b', c', a', ?_⟩, h'.pushed.trans h.pushed, h'.consumed.trans h.consumed,
    h'.emitted.trans h.emitted⟩
  rw [hu, ht]

theorem sameBuffers_onProduce (s : BrotliResponse) (failed : Bool) :
    SameBuffers s (s.onProduce failed) := by
  obtain ⟨b, hb⟩ := encoder_onProduce (s := s) failed
  refine ⟨⟨b, s.encoder.completed, s.encoder.hasConsumerAttached, hb⟩, ?_, ?_, ?_⟩
  all_goals
    rw [onProduce]
    dsimp only
    split_ifs <;> rfl

theorem sameBuffers_producedData (s : BrotliResponse) : SameBuffers s s.producedData := by
  rw [producedData]
  split_ifs
  · exact ⟨⟨_, _, _, rfl⟩, rfl, rfl, rfl⟩
  · exact sameBuffers_onProduce s false
  · exact ⟨⟨_, _, _, rfl⟩, rfl, rfl, rfl⟩

theorem Intact.avail (h : Intact s) : s.encoder.avail ≤ s.encoder.output.length :=
  h.elim fun _ hread => hread.avail

/-- **A call of the compression** that finds nothing in the output puts what it emits there. -/
theorem Intact.compress (h : Intact s) {data : Bytes} {call : CompressStream}
    (hkeeps : (s.compression []).Keeps data call)
    (hallows : (s.encoder.prepare data).Allows call) :
    Intact (s.compress data call) ∧
      (s.compress data call).chunked =
        { s.chunked with buffer := s.chunked.buffer ++ call.emitted } := by
  obtain ⟨read, hread⟩ := h
  have hpush : (s.compression read).push data call =
      some ({ s.compression read with
        encoder := (s.encoder.push data call).1
        pushed := s.pushed ++ data
        consumed := s.consumed ++ (s.encoder.prepare data).input.take call.consumed
        emitted := s.emitted ++ call.emitted }, (s.encoder.push data call).2) := by
    rw [Compression.push]
    exact if_pos hallows
  have hpushed := hread.push hkeeps hpush
  obtain ⟨b, hb⟩ := s.encoder.push_eq data call
  have hafter : ((s.compress data call).compression read).Inv := by
    have hflags := hpushed.flags ((s.encoder.prepare data).compress call).consuming
      ((s.encoder.prepare data).compress call).completed
      ((s.encoder.prepare data).compress call).hasConsumerAttached s.looping
    dsimp only at hflags
    rw [hb] at hflags
    exact hflags
  refine ⟨⟨read, hafter⟩, ?_⟩
  have havailable : (s.compress data call).encoder.available =
      s.encoder.available ++ call.emitted := by
    have hall : read ++ (s.compress data call).encoder.available = s.emitted ++ call.emitted :=
      hafter.read
    have hbefore : read ++ s.encoder.available = s.emitted := hread.read
    rw [← hbefore, List.append_assoc] at hall
    exact List.append_cancel_left hall
  obtain ⟨input, room, hprepare, -⟩ := hread.prepare hkeeps.1
  have hprepare' : s.encoder.prepare data = { s.encoder with
      input := input
      output := s.encoder.output ++ List.replicate room 0
      availIn := s.encoder.availIn + data.length } := hprepare
  rw [chunked, havailable, BrotliResponse.compress, hprepare']
  rfl

theorem sameBuffers_hasConsumed (s : BrotliResponse) (size : Nat) :
    SameBuffers (s.erase size) (s.hasConsumed size) := by
  have hsignalled : SameBuffers (s.erase size) (s.erase size).signalConsumed := by
    rw [signalConsumed]
    split_ifs
    · exact sameBuffers_onProduce _ false
    · exact ⟨⟨_, _, _, rfl⟩, rfl, rfl, rfl⟩
    · exact ⟨⟨_, _, _, rfl⟩, rfl, rfl, rfl⟩
  rw [BrotliResponse.hasConsumed]
  split_ifs
  · exact hsignalled.trans (sameBuffers_producedData _)
  · exact hsignalled

theorem Intact.hasConsumed (h : Intact s) {d : Bytes} (hd : d <+: s.chunked.buffer) :
    Intact (s.hasConsumed d.length) := by
  obtain ⟨read, hread⟩ := h
  have hcopied : Compression.Inv { s.compression read with copied := some d } := by
    refine ⟨⟨hread.read, hread.consumed⟩, hread.inputStart, hread.outputStartOffset,
      hread.availIn, hread.avail, ?_⟩
    rintro chunk ⟨⟩
    exact hd
  have hconsumed := Compression.Inv.hasConsumed hcopied rfl (Nat.le_refl d.length)
  obtain ⟨b, hb⟩ := s.encoder.hasConsumed_eq d.length
  have hflags := hconsumed.flags s.encoder.consuming s.encoder.completed
    s.encoder.hasConsumerAttached s.looping
  have hencoder : { s.compression read with copied := some d }.encoder.hasConsumed d.length =
      s.encoder.hasConsumed d.length := rfl
  rw [hencoder, hb] at hflags
  refine (sameBuffers_hasConsumed s d.length).intact ⟨read ++ d.take d.length, ?_⟩
  rw [erase_eq]
  exact hflags

/-- The other steps are those of `send_chunked`. -/
inductive Sends : BrotliOp → ChunkedOp → Prop
  | attach : Sends .attach .attach
  | startProduction : Sends .startProduction .startProduction
  | written : Sends (.written none) (.written none)

/-- **A step of `send_chunked`** is one of the abstract response. -/
theorem sends_step {op : BrotliOp} {op' : ChunkedOp} (h : Intact s)
    (hinv : Chunked.Inv s.chunked) (hop : Sends op op') (hstep : s.step op = some s') :
    s.chunked.stepOf .brotli op' = some s'.chunked ∧ Intact s' ∧ s'.emitted = s.emitted ∧
      s'.encoder.availIn = s.encoder.availIn := by
  have hsame : SameBuffers s s' →
      Intact s' ∧ s'.emitted = s.emitted ∧ s'.encoder.availIn = s.encoder.availIn :=
    fun hsame => ⟨hsame.intact h, hsame.emitted, hsame.availIn⟩
  cases hop with
  | attach =>
    simp only [step] at hstep
    split_ifs at hstep with hphase
    cases hstep
    refine ⟨?_, hsame ⟨⟨_, _, true, rfl⟩, rfl, rfl, rfl⟩⟩
    have hdetached : s.chunked.phase = .detached := hphase
    simp only [Chunked.stepOf, Chunked.step, if_pos hdetached]
    rfl
  | startProduction =>
    simp only [step] at hstep
    split_ifs at hstep with hphase
    cases hstep
    have hattached : s.chunked.phase = .attached := hphase
    have hstarted := chunked_startProduction (s := { s with phase := .started }) h.avail
    refine ⟨?_, hsame ?_⟩
    · rw [hstarted]
      simp only [Chunked.stepOf, Chunked.step, if_pos hattached]
      rfl
    · rw [BrotliResponse.startProduction]
      split_ifs
      · exact SameBuffers.trans (t := { s with phase := .started })
          ⟨⟨_, _, _, rfl⟩, rfl, rfl, rfl⟩ (sameBuffers_producedData _)
      · exact ⟨⟨_, _, _, rfl⟩, rfl, rfl, rfl⟩
  | written =>
    rcases hinv.flight with hnil | ⟨d, hd, hprefix, -⟩ | ⟨hterminal, -⟩
    · have hflight : s.inFlight = [] := hnil
      rw [step, hflight] at hstep
      cases hstep
    · have hflight : s.inFlight = [.chunk d] := hd
      rw [step, hflight, Option.some.injEq] at hstep
      subst hstep
      have hrest : Intact { s with inFlight := [] } := h
      have hconsumed := sameBuffers_hasConsumed { s with inFlight := [] } d.length
      rw [erase_eq] at hconsumed
      refine ⟨?_, hrest.hasConsumed hprefix, hconsumed.emitted, hconsumed.availIn⟩
      rw [chunked_hasConsumed (s := { s with inFlight := [] }) h.avail]
      unfold Chunked.stepOf
      rw [hd]
      rfl
    · have hflight : s.inFlight = [.terminal] := hterminal
      rw [step, hflight, Option.some.injEq] at hstep
      subst hstep
      refine ⟨?_, hsame ⟨⟨_, _, false, rfl⟩, rfl, rfl, rfl⟩⟩
      simp only [Chunked.stepOf, Chunked.step, hterminal]
      rfl

end BrotliResponse

end Attender.Http
