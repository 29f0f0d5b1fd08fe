import Attender.Library.Bytes
import Attender.Library.Runs

/-!
# The brotli encoder

`brotli_encoder` keeps what is pushed in one vector and what the compression
emits in another. The compression is not modelled: a call of it consumes any
part of the input from the front and emits any bytes that there is room for.
-/

namespace Attender.Encoding

open Attender.Library

/-- `brotli_encoder`. -/
structure BrotliEncoder where
  input : Bytes := []
  output : Bytes := []
  inputStart : Nat := 0
  /-- Where the compression can write into the output. -/
  outputStartOffset : Nat := 0
  availIn : Nat := 0
  inputCutoff : Nat := 128000
  outputMinimumAvail : Nat := 32768
  avail : Nat := 0
  completed : Bool := false
  /-- `producer::consuming_`. -/
  consuming : Bool := false
  /-- `producer::on_produce_` is set. -/
  hasConsumerAttached : Bool := false
  deriving DecidableEq

/-- What a call of `BrotliEncoderCompressStream` does. -/
structure CompressStream where
  /-- How much of the input is consumed. -/
  consumed : Nat := 0
  emitted : Bytes := []
  /-- What it returns. -/
  ok : Bool := true
  deriving DecidableEq

namespace BrotliEncoder

/-- `producer::produced_data`. What the consumer does in the callback are steps of their own. -/
def producedData (e : BrotliEncoder) : BrotliEncoder :=
  if e.consuming then e
  else if e.hasConsumerAttached then { e with consuming := true }
  else e

/-- `producer::production_failure`, unless it throws `std::bad_function_call`. -/
def productionFailure (e : BrotliEncoder) : Option BrotliEncoder :=
  if e.hasConsumerAttached then some { e with consuming := true } else none

def shrinkInput (e : BrotliEncoder) : BrotliEncoder :=
  if e.input.length > e.inputCutoff ∧ e.inputStart > 0 then
    { e with input := e.input.drop e.inputStart, inputStart := 0 }
  else e

/-- The data is copied into the input, which has been made longer by as much. -/
def bufferizeInput (e : BrotliEncoder) (data : Bytes) : BrotliEncoder :=
  -- the first `if` has no body of its own
  let e := if e.availIn ≠ 0 then e.shrinkInput else e
  { e with
    input := overwrite (e.input ++ List.replicate data.length 0) e.inputStart data
    availIn := e.availIn + data.length }

def reserveOutput (e : BrotliEncoder) : BrotliEncoder :=
  if e.output.length - e.outputStartOffset < e.outputMinimumAvail then
    { e with output := e.output ++ List.replicate e.outputMinimumAvail 0 }
  else e

/-- What a call can do: `next_in` is the front of the input, and there is room in the output behind
the offset. -/
def Allows (e : BrotliEncoder) (call : CompressStream) : Prop :=
  call.consumed ≤ e.availIn ∧ call.emitted.length ≤ e.output.length - e.outputStartOffset

instance (e : BrotliEncoder) (call : CompressStream) : Decidable (e.Allows call) :=
  inferInstanceAs (Decidable (_ ∧ _))

/-- The call of `BrotliEncoderCompressStream` in `push`: what it emits is written at the offset, and
`available` grows by as much. -/
def compress (e : BrotliEncoder) (call : CompressStream) : BrotliEncoder :=
  { e with
    output := overwrite e.output e.outputStartOffset call.emitted
    availIn := e.availIn - call.consumed
    avail := e.avail + call.emitted.length }

/-- What is done before the call. -/
def prepare (e : BrotliEncoder) (data : Bytes) : BrotliEncoder :=
  (if data ≠ [] then e.bufferizeInput data else e).reserveOutput

/-- `push`, and whether it returns. -/
def push (e : BrotliEncoder) (data : Bytes) (call : CompressStream) : BrotliEncoder × Bool :=
  let e := (e.prepare data).compress call
  if call.ok then (e.producedData, true)
  else
    match e.productionFailure with
    | some e => (e, true)
    | none => (e, false)

/-- `brotli_encoder::has_consumed`, and that of `producer`. -/
def hasConsumed (e : BrotliEncoder) (size : Nat) : BrotliEncoder :=
  let e :=
    if size > 0 then { e with avail := e.avail - size, output := e.output.drop size } else e
  let e :=
    if e.avail > 0 then if e.hasConsumerAttached then { e with consuming := true } else e
    else { e with consuming := false }
  if ¬ e.consuming ∧ e.completed then e.producedData else e

/-- `start_production`. -/
def startProduction (e : BrotliEncoder) : BrotliEncoder :=
  if e.avail > 0 then e.producedData else e

/-- `data()[0, available())`. -/
def available (e : BrotliEncoder) : Bytes := e.output.take e.avail

end BrotliEncoder

/-! ### An encoder in use -/

/-- The loops that push nothing until the input has been consumed. -/
inductive EncoderLoop where
  | flush
  | finish
  deriving DecidableEq

/-- An encoder in use, with what has gone through it. -/
structure Compression where
  encoder : BrotliEncoder := {}
  /-- The loop that is running. -/
  looping : Option EncoderLoop := none
  /-- The chunk that the consumer has copied and not consumed. -/
  copied : Option Bytes := none
  /-- What has been pushed. -/
  pushed : Bytes := []
  /-- What the compression has consumed. -/
  consumed : Bytes := []
  /-- What the compression has emitted. -/
  emitted : Bytes := []
  /-- What has been copied and then consumed. -/
  read : Bytes := []
  deriving DecidableEq

/-- What happens to an encoder. -/
inductive CompressionOp where
  | push (data : Bytes) (call : CompressStream)
  | flush (call : CompressStream)
  | finish (call : CompressStream)
  /-- The loop that is running goes round once more. -/
  | again (call : CompressStream)
  /-- The consumer copies `data()[0, available())`. -/
  | copy
  | hasConsumed (size : Nat)
  | setOnProduceCb
  | startProduction
  | endProduction
  deriving DecidableEq

namespace Compression

/-- `push`, and whether it returns. -/
def push (s : Compression) (data : Bytes) (call : CompressStream) : Option (Compression × Bool) :=
  if (s.encoder.prepare data).Allows call then
    some ({ s with
      encoder := (s.encoder.push data call).1
      pushed := s.pushed ++ data
      consumed := s.consumed ++ (s.encoder.prepare data).input.take call.consumed
      emitted := s.emitted ++ call.emitted }, (s.encoder.push data call).2)
  else none

/-- One round of a loop, and what is done after the last. An exception leaves the loop. -/
def iterate (s : Compression) (loop : EncoderLoop) (call : CompressStream) : Option Compression :=
  (s.push [] call).map fun (s, returned) =>
    if ¬ returned then { s with looping := none }
    else if s.encoder.availIn ≠ 0 then { s with looping := some loop }
    else
      match loop with
      | .flush => { s with encoder := s.encoder.producedData, looping := none }
      | .finish =>
        { s with encoder := { s.encoder with completed := true }.producedData, looping := none }

/-- One step of an encoder in use. Nothing is pushed while a loop is running. -/
def step (s : Compression) : CompressionOp → Option Compression
  | .push data call => if s.looping = none then (s.push data call).map Prod.fst else none
  | .flush call => if s.looping = none then s.iterate .flush call else none
  | .finish call => if s.looping = none then s.iterate .finish call else none
  | .again call =>
    match s.looping with
    | some loop => s.iterate loop call
    | none => none
  | .copy =>
    if s.copied = none then some { s with copied := some s.encoder.available } else none
  | .hasConsumed size =>
    match s.copied with
    | some chunk =>
      if size ≤ chunk.length then
        some { s with
          encoder := s.encoder.hasConsumed size
          copied := none
          read := s.read ++ chunk.take size }
      else none
    | none => none
  | .setOnProduceCb => some { s with encoder := { s.encoder with hasConsumerAttached := true } }
  | .startProduction => some { s with encoder := s.encoder.startProduction }
  | .endProduction => some { s with encoder := { s.encoder with hasConsumerAttached := false } }

end Compression

/-! ### What the signals leave alone -/

namespace BrotliEncoder

variable (e : BrotliEncoder)

theorem producedData_eq : ∃ b, e.producedData = { e with consuming := b } := by
  unfold producedData
  split_ifs
  · exact ⟨e.consuming, rfl⟩
  · exact ⟨true, rfl⟩
  · exact ⟨e.consuming, rfl⟩

theorem startProduction_eq : ∃ b, e.startProduction = { e with consuming := b } := by
  unfold startProduction
  split_ifs
  · exact e.producedData_eq
  · exact ⟨e.consuming, rfl⟩

theorem push_eq (data : Bytes) (call : CompressStream) :
    ∃ b, (e.push data call).1 = { (e.prepare data).compress call with consuming := b } := by
  unfold push
  dsimp only
  split_ifs
  · exact producedData_eq _
  · unfold productionFailure
    split_ifs
    · exact ⟨true, rfl⟩
    · exact ⟨((e.prepare data).compress call).consuming, rfl⟩

theorem hasConsumed_eq (size : Nat) :
    ∃ b, e.hasConsumed size =
      { e with avail := e.avail - size, output := e.output.drop size, consuming := b } := by
  have herase : (if size > 0 then
      { e with avail := e.avail - size, output := e.output.drop size } else e) =
        { e with avail := e.avail - size, output := e.output.drop size } := by
    split_ifs with hsize
    · rfl
    · obtain rfl : size = 0 := by omega
      rw [List.drop_zero, Nat.sub_zero]
  unfold hasConsumed
  rw [herase]
  dsimp only
  generalize hsignalled : (if e.avail - size > 0 then
      if e.hasConsumerAttached = true then
        { e with avail := e.avail - size, output := e.output.drop size, consuming := true }
      else { e with avail := e.avail - size, output := e.output.drop size }
    else { e with avail := e.avail - size, output := e.output.drop size, consuming := false }) =
      signalled
  have hsame : ∃ b, signalled =
      { e with avail := e.avail - size, output := e.output.drop size, consuming := b } := by
    rw [← hsignalled]
    split_ifs
    · exact ⟨true, rfl⟩
    · exact ⟨e.consuming, rfl⟩
    · exact ⟨false, rfl⟩
  obtain ⟨b, rfl⟩ := hsame
  split_ifs
  · exact producedData_eq _
  · exact ⟨b, rfl⟩

end BrotliEncoder

/-! ### Integrity -/

namespace Compression

/-- **Buffer integrity**: what has been read and what is available make up all that has been
emitted, and what has been consumed and what is waiting in the input make up all that has been
pushed. -/
structure Intact (s : Compression) : Prop where
  read : s.read ++ s.encoder.available = s.emitted
  consumed : s.consumed ++ s.encoder.input.take s.encoder.availIn = s.pushed

/-- What an intact encoder keeps. -/
structure Inv (s : Compression) : Prop extends Intact s where
  inputStart : s.encoder.inputStart = 0
  outputStartOffset : s.encoder.outputStartOffset = 0
  availIn : s.encoder.availIn ≤ s.encoder.input.length
  avail : s.encoder.avail ≤ s.encoder.output.length
  copied : ∀ chunk, s.copied = some chunk → chunk <+: s.encoder.available

/-- A push that neither writes over what is waiting in the input nor over what is available, and
that does not leave a part of the input behind. -/
def Keeps (s : Compression) (data : Bytes) (call : CompressStream) : Prop :=
  (data = [] ∨ s.encoder.availIn = 0) ∧ (call.emitted = [] ∨ s.encoder.avail = 0) ∧
    (call.consumed = 0 ∨ call.consumed = s.encoder.availIn + data.length)

/-- The steps that keep the buffers intact. -/
def Sound (s : Compression) : CompressionOp → Prop
  | .push data call => s.Keeps data call
  | .flush call | .finish call | .again call => s.Keeps [] call
  | .copy | .hasConsumed _ | .setOnProduceCb | .startProduction | .endProduction => True

variable {s : Compression} {data : Bytes} {call : CompressStream}

theorem inv_init (inputCutoff outputMinimumAvail : Nat) :
    Inv { encoder :=
      { inputCutoff := inputCutoff, outputMinimumAvail := outputMinimumAvail } } where
  read := rfl
  consumed := rfl
  inputStart := rfl
  outputStartOffset := rfl
  availIn := Nat.le_refl 0
  avail := Nat.le_refl 0
  copied := nofun

/-- **The input of a call** is what was waiting, or what is pushed, and the output is as it was with
room behind it. -/
theorem Inv.prepare (h : s.Inv) (hdata : data = [] ∨ s.encoder.availIn = 0) :
    ∃ input room, s.encoder.prepare data = { s.encoder with
        input := input
        output := s.encoder.output ++ List.replicate room 0
        availIn := s.encoder.availIn + data.length } ∧
      s.encoder.availIn + data.length ≤ input.length ∧
        input.take (s.encoder.availIn + data.length) =
          s.encoder.input.take s.encoder.availIn ++ data := by
  have hreserve : ∀ e : BrotliEncoder, ∃ room,
      e.reserveOutput = { e with output := e.output ++ List.replicate room 0 } := by
    intro e
    unfold BrotliEncoder.reserveOutput
    split_ifs
    · exact ⟨e.outputMinimumAvail, rfl⟩
    · exact ⟨0, by rw [List.replicate_zero, List.append_nil]⟩
  by_cases hnil : data = []
  · subst hnil
    obtain ⟨room, hroom⟩ := hreserve s.encoder
    refine ⟨s.encoder.input, room, ?_, h.availIn, ?_⟩
    · rw [BrotliEncoder.prepare, if_neg (not_not.mpr rfl), hroom]
      rfl
    · rw [List.append_nil]
      rfl
  · have hzero := hdata.resolve_left hnil
    obtain ⟨room, hroom⟩ := hreserve (s.encoder.bufferizeInput data)
    refine ⟨overwrite (s.encoder.input ++ List.replicate data.length 0) s.encoder.inputStart data,
      room, ?_, ?_, ?_⟩
    · rw [BrotliEncoder.prepare, if_pos hnil, hroom, BrotliEncoder.bufferizeInput,
        if_neg (not_not.mpr hzero)]
    · have hlength : data.length ≤ (s.encoder.input ++ List.replicate data.length 0).length := by
        rw [List.length_append, List.length_replicate]
        omega
      rw [h.inputStart, length_overwrite_zero hlength]
      omega
    · rw [h.inputStart, hzero, Nat.zero_add, take_overwrite_zero, List.take_zero, List.nil_append]

/-- **A push** keeps the buffers intact under its condition. -/
theorem Inv.push (h : s.Inv) (hkeeps : s.Keeps data call) {s' : Compression} {returned : Bool}
    (hpush : s.push data call = some (s', returned)) : s'.Inv := by
  obtain ⟨hdata, hemitted, hconsumed⟩ := hkeeps
  obtain ⟨input, room, hprepare, hlength, htake⟩ := h.prepare hdata
  obtain ⟨b, hb⟩ := s.encoder.push_eq data call
  unfold Compression.push at hpush
  split_ifs at hpush with hallows
  rw [Option.some.injEq, Prod.mk.injEq] at hpush
  obtain ⟨rfl, -⟩ := hpush
  rw [hprepare, BrotliEncoder.Allows, h.outputStartOffset, Nat.sub_zero] at hallows
  dsimp only at hallows
  obtain ⟨hcall, hroom⟩ := hallows
  rw [hb, hprepare, BrotliEncoder.compress, h.outputStartOffset]
  -- what is available afterwards
  have havailable : (overwrite (s.encoder.output ++ List.replicate room 0) 0 call.emitted).take
      (s.encoder.avail + call.emitted.length) = s.encoder.available ++ call.emitted := by
    rcases hemitted with hnil | hzero
    · rw [hnil, overwrite, List.take_zero, List.nil_append, List.append_nil, List.nil_append,
        List.length_nil, Nat.add_zero, Nat.add_zero, List.drop_zero,
        List.take_append_of_le_length h.avail]
      rfl
    · rw [hzero, Nat.zero_add, take_overwrite_zero, BrotliEncoder.available, hzero, List.take_zero,
        List.nil_append]
  refine ⟨⟨?_, ?_⟩, h.inputStart, rfl, ?_, ?_, ?_⟩
  · rw [BrotliEncoder.available]
    dsimp only
    rw [havailable, ← List.append_assoc, h.read]
  · dsimp only
    rcases hconsumed with hzero | hall
    · rw [hzero, List.take_zero, List.append_nil, Nat.sub_zero, htake, ← List.append_assoc,
        h.consumed]
    · rw [hall, Nat.sub_self, List.take_zero, List.append_nil, htake, ← List.append_assoc,
        h.consumed]
  · dsimp only
    omega
  · dsimp only
    rw [length_overwrite_zero hroom]
    rcases hemitted with hnil | hzero
    · rw [hnil, List.length_append]
      have havail := h.avail
      simp only [List.length_nil]
      omega
    · omega
  · intro chunk hchunk
    rw [BrotliEncoder.available]
    dsimp only
    rw [havailable]
    exact (h.copied chunk hchunk).trans (List.prefix_append ..)

/-- The flags of the encoder are not its buffers. -/
theorem Inv.flags (h : s.Inv) (consuming completed attached : Bool) (loop : Option EncoderLoop) :
    Inv { s with
      encoder := { s.encoder with
        consuming := consuming
        completed := completed
        hasConsumerAttached := attached }
      looping := loop } :=
  ⟨⟨h.read, h.consumed⟩, h.inputStart, h.outputStartOffset, h.availIn, h.avail, h.copied⟩

theorem Inv.iterate (h : s.Inv) {loop : EncoderLoop} (hkeeps : s.Keeps [] call) {s' : Compression}
    (hiterate : s.iterate loop call = some s') : s'.Inv := by
  rw [Compression.iterate, Option.map_eq_some_iff] at hiterate
  obtain ⟨⟨pushed, returned⟩, hpush, rfl⟩ := hiterate
  have hpushed := h.push hkeeps hpush
  dsimp only
  by_cases hthrown : ¬ returned
  · rw [if_pos hthrown]
    exact hpushed.flags _ _ _ _
  rw [if_neg hthrown]
  by_cases hwaiting : pushed.encoder.availIn ≠ 0
  · rw [if_pos hwaiting]
    exact hpushed.flags _ _ _ _
  rw [if_neg hwaiting]
  cases loop with
  | flush =>
    obtain ⟨b, hb⟩ := pushed.encoder.producedData_eq
    rw [hb]
    exact hpushed.flags _ _ _ _
  | finish =>
    obtain ⟨b, hb⟩ := { pushed.encoder with completed := true }.producedData_eq
    rw [hb]
    exact hpushed.flags _ _ _ _

/-- **What is consumed of the output** is the front of what is available. -/
theorem Inv.hasConsumed (h : s.Inv) {chunk : Bytes} (hchunk : s.copied = some chunk) {size : Nat}
    (hsize : size ≤ chunk.length) :
    Inv { s with
      encoder := s.encoder.hasConsumed size
      copied := none
      read := s.read ++ chunk.take size } := by
  obtain ⟨b, hb⟩ := s.encoder.hasConsumed_eq size
  have hprefix := h.copied chunk hchunk
  have htake : chunk.take size = s.encoder.available.take size := by
    obtain ⟨rest, hrest⟩ := hprefix
    rw [← hrest, List.take_append_of_le_length hsize]
  have hrest : (s.encoder.output.drop size).take (s.encoder.avail - size) =
      s.encoder.available.drop size := by
    rw [BrotliEncoder.available, List.drop_take]
  rw [hb]
  refine ⟨⟨?_, h.consumed⟩, h.inputStart, h.outputStartOffset, h.availIn, ?_, nofun⟩
  · rw [BrotliEncoder.available]
    dsimp only
    rw [hrest, htake, List.append_assoc, List.take_append_drop, h.read]
  · have havail := h.avail
    dsimp only
    rw [List.length_drop]
    omega

theorem Inv.step (h : s.Inv) {op : CompressionOp} (hsound : s.Sound op) {s' : Compression}
    (hstep : s.step op = some s') : s'.Inv := by
  cases op with
  | push data call =>
    rw [Compression.step] at hstep
    split_ifs at hstep
    rw [Option.map_eq_some_iff] at hstep
    obtain ⟨⟨pushed, returned⟩, hpush, rfl⟩ := hstep
    exact h.push hsound hpush
  | flush call =>
    rw [Compression.step] at hstep
    split_ifs at hstep
    exact h.iterate hsound hstep
  | finish call =>
    rw [Compression.step] at hstep
    split_ifs at hstep
    exact h.iterate hsound hstep
  | again call =>
    rw [Compression.step] at hstep
    split at hstep
    · exact h.iterate hsound hstep
    · cases hstep
  | copy =>
    rw [Compression.step] at hstep
    split_ifs at hstep
    cases hstep
    refine ⟨⟨h.read, h.consumed⟩, h.inputStart, h.outputStartOffset, h.availIn, h.avail, ?_⟩
    intro chunk hchunk
    cases hchunk
    exact List.prefix_rfl
  | hasConsumed size =>
    rw [Compression.step] at hstep
    split at hstep
    · next chunk hchunk =>
      split_ifs at hstep with hsize
      cases hstep
      exact h.hasConsumed hchunk hsize
    · cases hstep
  | setOnProduceCb =>
    cases hstep
    exact h.flags _ _ _ _
  | startProduction =>
    cases hstep
    obtain ⟨b, hb⟩ := s.encoder.startProduction_eq
    rw [hb]
    exact h.flags _ _ _ _
  | endProduction =>
    cases hstep
    exact h.flags _ _ _ _

/-- **Integrity of the buffers**: after a run in which nothing is pushed while input is waiting, no
call emits while there is output available, and every call consumes all of its input or nothing,
the buffers are intact. -/
theorem intact_of_sound (inputCutoff outputMinimumAvail : Nat) (ops : List CompressionOp)
    (hsound : Along step Sound
      { encoder := { inputCutoff := inputCutoff, outputMinimumAvail := outputMinimumAvail } } ops)
    (s : Compression)
    (hrun : run step
      { encoder := { inputCutoff := inputCutoff, outputMinimumAvail := outputMinimumAvail } } ops =
        some s) : s.Intact := by
  have hinv : s.Inv :=
    run_invariant_along (fun _ _ _ h hsound hstep => h.step hsound hstep)
      (inv_init inputCutoff outputMinimumAvail) hsound hrun
  exact hinv.toIntact

/-- A push that emits, the chunk of it that is copied and consumed, and the end of the stream. -/
theorem intact_of_sound_streamed :
    ∃ s, run step { encoder := { inputCutoff := 1, outputMinimumAvail := 4 } }
        [.push [1, 2] { consumed := 2, emitted := [7] }, .copy, .hasConsumed 1,
          .finish { emitted := [8, 9] }] = some s ∧ s.Intact := by
  refine ⟨_, rfl, intact_of_sound 1 4 [.push [1, 2] { consumed := 2, emitted := [7] }, .copy,
    .hasConsumed 1, .finish { emitted := [8, 9] }] ?_ _ rfl⟩
  refine along_cons rfl ⟨Or.inr rfl, Or.inr rfl, Or.inr rfl⟩ (along_cons rfl trivial
    (along_cons rfl trivial (along_cons rfl ⟨Or.inl rfl, Or.inr rfl, Or.inl rfl⟩ trivial)))

/-- What is emitted before the last chunk has been consumed is written over it. -/
theorem not_intact_emitted_twice :
    ¬ ∀ (inputCutoff outputMinimumAvail : Nat) (ops : List CompressionOp) (s : Compression),
      run step
        { encoder := { inputCutoff := inputCutoff, outputMinimumAvail := outputMinimumAvail } }
          ops = some s → s.Intact := by
  intro h
  have hintact := h 1 4 [.push [1] { consumed := 1, emitted := [7] },
    .push [2] { consumed := 1, emitted := [8] }] _ rfl
  have hread := hintact.read
  cases hread

end Compression

end Attender.Encoding
