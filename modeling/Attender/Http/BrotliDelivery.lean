import Attender.Http.BrotliResponse
import Attender.Http.ChunkedEnd

/-!
# The delivery of a brotli encoder

A run that keeps to the encoder is one of the abstract response, in which each
push finds the buffer empty. So a chunk in flight has all that there is, and
everything is on the wire in the end exactly if the stream has been completed
after there was a consumer (`brotli_delivery`).
-/

namespace Attender.Http

open Attender.Library Attender.Utility Attender.Encoding

namespace Chunked

/-! ### A producer that waits for the consumer -/

variable {s s' : Chunked} {op : ChunkedOp}

/-- A chunk in flight has all that is in the buffer. -/
def Caught (s : Chunked) : Prop := ∀ d rest, s.inFlight = .chunk d :: rest → s.buffer = d ∧ d ≠ []

theorem Caught.pending (h : Caught s) (hinv : Inv s) (hends : Ends s) (hflight : s.inFlight ≠ [])
    (hcompleted : ¬ s.completed) : s.pending = [] := by
  rcases hinv.flight with hnil | ⟨d, hd, -⟩ | ⟨-, hterminal, -⟩
  · exact absurd hnil hflight
  · rw [Chunked.pending, hd, payload_chunk, (h d [] hd).1, List.drop_length]
  · exact absurd (hends hterminal) hcompleted

theorem caught_onProduce (h : s.inFlight = []) : Caught s.onProduce := by
  intro d rest hflight
  rcases onProduce_cases s with ⟨-, e⟩ | ⟨-, -, e⟩ | ⟨-, hbuffer, e⟩
  · rw [e, write, h] at hflight
    cases hflight
  · rw [e, h] at hflight
    cases hflight
  · rw [e] at hflight ⊢
    rw [write, h] at hflight
    cases hflight
    exact ⟨rfl, hbuffer⟩

theorem Caught.producedData (h : Caught s) (hinv : Inv s) : Caught s.producedData := by
  unfold Chunked.producedData
  split_ifs with hconsuming hattached
  · exact h
  · exact caught_onProduce (hinv.idle hconsuming).flight
  · exact h

/-- The consumer has all that there is. -/
theorem Caught.pending_producedData (h : Caught s) (hinv : Inv s) (hends : Ends s)
    (hcompleted : ¬ s.completed) (hended : s.ended = 0) (hattached : s.hasConsumerAttached) :
    s.producedData.pending = [] := by
  unfold Chunked.producedData
  split_ifs with hconsuming
  · refine h.pending hinv hends ?_ hcompleted
    rcases hinv.consuming.mp hconsuming with hflight | hpositive
    · exact hflight
    · omega
  · have hflight := (hinv.idle hconsuming).flight
    rcases onProduce_cases s with ⟨hc, -⟩ | ⟨-, hbuffer, e⟩ | ⟨-, -, e⟩
    · exact absurd hc hcompleted
    · rw [e, Chunked.pending, hflight]
      exact hbuffer
    · rw [e, Chunked.pending, write, hflight, List.nil_append, payload_chunk, List.drop_length]

theorem Undisturbed.producedData (h : Undisturbed s) : Undisturbed s.producedData := by
  obtain ⟨hended, hframes⟩ := continues_producedData s
  exact ⟨h.inv.producedData, fun hpositive => hframes (h.ended (hended ▸ hpositive))⟩

/-- Nothing is lost so far: what a complete stream has is on the wire. -/
structure Settled (s : Chunked) : Prop where
  undisturbed : Undisturbed s
  caught : Caught s
  ends : Ends s
  detached : s.phase = .detached → s.frames = []
  completed : s.completed → s.consuming ∧ s.pending = []

theorem settled_init : Settled {} :=
  ⟨undisturbed_init, fun _ _ h => (List.cons_ne_nil _ _ h.symm).elim, ends_init, fun _ => rfl,
    fun h => absurd h Bool.false_ne_true⟩

theorem Settled.ended_eq (h : Settled s) (hcompleted : ¬ s.completed) : s.ended = 0 := by
  by_contra hended
  have hterminal := h.undisturbed.ended (Nat.pos_of_ne_zero hended)
  exact hcompleted (h.ends hterminal)

theorem Settled.producedData (h : Settled s) (hcompleted : ¬ s.completed) :
    Settled s.producedData where
  undisturbed := h.undisturbed.producedData
  caught := h.caught.producedData h.undisturbed.inv
  ends := h.ends.producedData
  detached hphase := by
    rw [phase_producedData] at hphase
    rw [producedData_of_unattached (h.undisturbed.inv.of_detached hphase).1]
    exact h.detached hphase
  completed hc := absurd (completed_producedData s ▸ hc) hcompleted

/-- **What is pushed** finds the buffer empty, or there is nothing pushed. -/
theorem Settled.push (h : Settled s) (hcompleted : ¬ s.completed) {data : Bytes}
    (hdata : data = [] ∨ s.buffer = []) : Settled { s with buffer := s.buffer ++ data } where
  undisturbed := ⟨h.undisturbed.inv.push data, h.undisturbed.ended⟩
  caught d rest hflight := by
    obtain ⟨hbuffer, hd⟩ := h.caught d rest hflight
    rcases hdata with rfl | hnil
    · exact ⟨(List.append_nil _).trans hbuffer, hd⟩
    · exact absurd (hbuffer.symm.trans hnil) hd
  ends := h.ends
  detached := h.detached
  completed hc := absurd hc hcompleted

/-- The stream is complete before there is a consumer: either its bytes are lost or its end. -/
structure Lost (s : Chunked) : Prop where
  inv : Inv s
  completed : s.completed
  payload : payload s.frames = []
  flight : ∀ d, .chunk d ∉ s.inFlight
  terminal : s.buffer = [] → .terminal ∉ s.frames

/-- **The end of the stream**, after everything has been given to the consumer, or without one. -/
theorem Settled.finish (h : Settled s) (hcompleted : ¬ s.completed)
    (hpending : s.phase ≠ .detached → s.pending = []) :
    Settled { s with completed := true }.producedData ∧ s.phase ≠ .detached ∨
      s.phase = .detached ∧ Lost { s with completed := true }.producedData := by
  have hinv : Inv { s with completed := true } := h.undisturbed.inv.complete
  have hended := h.ended_eq hcompleted
  by_cases hphase : s.phase = .detached
  · refine Or.inr ⟨hphase, ?_⟩
    obtain ⟨hunattached, hflight, -⟩ := h.undisturbed.inv.of_detached hphase
    rw [producedData_of_unattached (s := { s with completed := true }) hunattached]
    have hframes := h.detached hphase
    exact ⟨hinv, rfl, by simp [hframes], by simp [hflight], by simp [hframes]⟩
  · refine Or.inl ⟨?_, hphase⟩
    have hattached := h.undisturbed.inv.attached.mpr ⟨hphase, hended⟩
    refine ⟨Undisturbed.producedData ⟨hinv, h.undisturbed.ended⟩,
      Caught.producedData (s := { s with completed := true }) h.caught hinv,
      Ends.producedData (s := { s with completed := true }) fun _ => rfl, ?_, ?_⟩
    · intro hdetached
      rw [phase_producedData] at hdetached
      exact absurd hdetached hphase
    · intro _
      rw [Chunked.producedData]
      split_ifs with hconsuming
      · exact ⟨hconsuming, hpending hphase⟩
      · have hflight := (h.undisturbed.inv.idle hconsuming).flight
        have hbuffer : s.buffer = [] := by
          have hrest := hpending hphase
          rw [Chunked.pending, hflight] at hrest
          exact hrest
        rcases onProduce_cases { s with completed := true } with ⟨-, e⟩ | ⟨hn, -⟩ | ⟨hn, -⟩
        · rw [e]
          exact ⟨rfl, by simp [Chunked.pending, write, hflight, hbuffer]⟩
        · exact absurd rfl hn
        · exact absurd rfl hn

/-- A chunk that has been written had all there was. -/
theorem stepOf_written_chunk {d : Bytes} (hflight : s.inFlight = [.chunk d])
    (hbuffer : s.buffer = d) :
    s.stepOf .brotli (.written none) =
      some { s with inFlight := [], buffer := [], consuming := false }.wake := by
  unfold stepOf
  rw [hflight]
  dsimp only
  rw [hasConsumed_eq, hbuffer, List.drop_length, if_neg (not_not.mpr rfl)]

theorem Settled.written (h : Settled s) (hstep : s.stepOf .brotli (.written none) = some s') :
    Settled s' := by
  have hinv := inv_stepOf h.undisturbed.inv hstep
  rcases h.undisturbed.inv.flight with hnil | ⟨d, hd, -, -, hended⟩ | ⟨hterminal, hmem, -⟩
  · simp [stepOf, Chunked.step, hnil] at hstep
  · rw [stepOf_written_chunk hd (h.caught d [] hd).1, Option.some.injEq] at hstep
    have hphase : s.phase ≠ .detached := by
      refine h.undisturbed.inv.detached (h.undisturbed.inv.consuming.mpr (Or.inl ?_))
      rw [hd]
      exact List.cons_ne_nil _ _
    have hattached := h.undisturbed.inv.attached.mpr ⟨hphase, hended⟩
    by_cases hcompleted : s.completed
    · have hwake : s' = { s with
          inFlight := [.terminal], buffer := [], consuming := true
          frames := s.frames ++ [.terminal] } := by
        rw [← hstep]
        simp [wake, Chunked.producedData, onProduce, write, hcompleted, hattached]
      rw [hwake] at hinv ⊢
      refine ⟨⟨hinv, fun hpositive => ?_⟩, ?_, fun _ => hcompleted,
        fun hdetached => absurd hdetached hphase, ?_⟩
      · exact List.mem_append_right _ (List.mem_singleton_self _)
      · intro d' rest hflight
        cases hflight
      · exact fun _ => ⟨rfl, rfl⟩
    · have hwake : s' = { s with inFlight := [], buffer := [], consuming := false } := by
        rw [← hstep]
        simp [wake, hcompleted]
      rw [hwake] at hinv ⊢
      refine ⟨⟨hinv, h.undisturbed.ended⟩, ?_, h.ends, fun hdetached => absurd hdetached hphase, ?_⟩
      · intro d' rest hflight
        cases hflight
      · exact fun hc => absurd hc hcompleted
  · simp only [stepOf, Chunked.step, hterminal, Option.some.injEq] at hstep
    subst hstep
    refine ⟨⟨hinv, fun _ => hmem⟩, ?_, h.ends, h.detached, ?_⟩
    · intro d rest hflight
      cases hflight
    · intro hc
      obtain ⟨hconsuming, hpending⟩ := h.completed hc
      refine ⟨hconsuming, ?_⟩
      rw [Chunked.pending, hterminal] at hpending
      exact hpending

/-- **The steps of `send_chunked`** lose nothing. -/
theorem Settled.send (h : Settled s) (hop : op = .attach ∨ op = .startProduction)
    (hstep : s.stepOf .brotli op = some s') : Settled s' := by
  have hinv := inv_stepOf h.undisturbed.inv hstep
  have hidle : s.completed → s.phase ≠ .detached := fun hc =>
    h.undisturbed.inv.detached (h.completed hc).1
  rcases hop with rfl | rfl
  · simp only [stepOf, Chunked.step] at hstep
    split_ifs at hstep with hphase
    cases hstep
    refine ⟨⟨hinv, h.undisturbed.ended⟩, h.caught, h.ends, fun hd => ?_,
      fun hc => absurd hphase (hidle hc)⟩
    cases hd
  · simp only [stepOf, Chunked.step] at hstep
    split_ifs at hstep with hphase
    have hstarted : Settled { s with phase := .started } := by
      refine ⟨⟨h.undisturbed.inv.start hphase, h.undisturbed.ended⟩, h.caught, h.ends,
        fun hd => ?_, h.completed⟩
      cases hd
    cases hstep
    rw [startProduction]
    split_ifs
    · by_cases hcompleted : s.completed
      · rw [Chunked.producedData, if_pos (h.completed hcompleted).1]
        exact hstarted
      · exact hstarted.producedData hcompleted
    · exact hstarted

/-- What is lost stays lost. -/
theorem Lost.step (h : Lost s)
    (hop : op = .attach ∨ op = .startProduction ∨ op = .written none)
    (hstep : s.stepOf .brotli op = some s') : Lost s' ∧ s'.buffer = s.buffer := by
  have hinv := inv_stepOf h.inv hstep
  rcases hop with rfl | rfl | rfl
  · simp only [stepOf, Chunked.step] at hstep
    split_ifs at hstep
    cases hstep
    exact ⟨⟨hinv, h.completed, h.payload, h.flight, h.terminal⟩, rfl⟩
  · simp only [stepOf, Chunked.step] at hstep
    split_ifs at hstep
    have hstarted := hstep
    rw [startProduction] at hstep
    split_ifs at hstep with hbuffer
    · rw [Option.some.injEq, Chunked.producedData] at hstep
      split_ifs at hstep
      · subst hstep
        exact ⟨⟨hinv, h.completed, h.payload, h.flight, h.terminal⟩, rfl⟩
      · -- the terminal chunk comes first
        rcases onProduce_cases { s with phase := .started } with ⟨-, e⟩ | ⟨hn, -⟩ | ⟨hn, -⟩
        · rw [e] at hstep
          subst hstep
          refine ⟨⟨hinv, h.completed, ?_, ?_, fun hnil => absurd hnil hbuffer⟩, rfl⟩
          · rw [write, payload_append, payload_terminal, List.append_nil]
            exact h.payload
          · simpa [write] using h.flight
        · exact absurd h.completed hn
        · exact absurd h.completed hn
      · subst hstep
        exact ⟨⟨hinv, h.completed, h.payload, h.flight, h.terminal⟩, rfl⟩
    · cases hstep
      exact ⟨⟨hinv, h.completed, h.payload, h.flight, h.terminal⟩, rfl⟩
  · rcases h.inv.flight with hnil | ⟨d, hd, -⟩ | ⟨hterminal, -⟩
    · simp [stepOf, Chunked.step, hnil] at hstep
    · exact absurd (hd ▸ List.mem_singleton_self _) (h.flight d)
    · simp only [stepOf, Chunked.step, hterminal, Option.some.injEq] at hstep
      subst hstep
      exact ⟨⟨hinv, h.completed, h.payload, fun d => List.not_mem_nil, h.terminal⟩, rfl⟩

theorem completed_stepOf {kind : ProducerKind} (h : Inv s) (hop : op ≠ .finish)
    (hstep : s.stepOf kind op = some s') : s'.completed = s.completed := by
  rcases stepOf_cases hstep with ⟨hsame, -⟩ | ⟨-, -, t, ht, rfl⟩
  · exact completed_step h hop hsame
  · rw [← completed_step h hop ht, wake]
    split_ifs
    · exact completed_producedData t
    · rfl

theorem accounted_stepOf {kind : ProducerKind} (h : Inv s) (hop : Succeeds op)
    (hstep : s.stepOf kind op = some s') : s'.accounted = s.accounted ++ pushed op := by
  rcases stepOf_cases hstep with ⟨hsame, -⟩ | ⟨-, -, t, ht, rfl⟩
  · exact accounted_step h hop hsame
  · rw [← accounted_step h hop ht, wake]
    split_ifs
    · exact accounted_producedData (inv_step h ht)
    · rfl

end Chunked

namespace BrotliResponse

variable {s s' : BrotliResponse}

/-! ### Whole runs -/

/-- The steps of a run that keeps to the encoder: the writes and the calls of the compression
succeed, nothing is pushed into a complete stream, and no call finds bytes in the output or leaves
a part of its input. -/
def Sound (s : BrotliResponse) : BrotliOp → Prop
  | .push data call => ¬ s.encoder.completed ∧ call.ok ∧ (s.compression []).Keeps data call
  | .flush call | .finish call | .again call =>
    ¬ s.encoder.completed ∧ call.ok ∧ (s.compression []).Keeps [] call
  | .attach | .startProduction => True
  | .written ec => ec = none

/-- Nothing is lost so far. -/
structure Good (s : BrotliResponse) : Prop where
  intact : Intact s
  settled : Chunked.Settled s.chunked
  accounted : s.chunked.accounted = s.emitted
  input : s.encoder.completed → s.encoder.availIn = 0

/-- The stream was complete before there was a consumer. -/
structure Bad (s : BrotliResponse) : Prop where
  intact : Intact s
  lost : Chunked.Lost s.chunked
  buffer : s.chunked.buffer = s.emitted

theorem good_init (inputCutoff outputMinimumAvail : Nat) :
    Good { encoder :=
      { inputCutoff := inputCutoff, outputMinimumAvail := outputMinimumAvail } } where
  intact := ⟨[], Compression.inv_init inputCutoff outputMinimumAvail⟩
  settled := Chunked.settled_init
  accounted := rfl
  input := fun h => absurd h Bool.false_ne_true

theorem Good.producedData (h : Good s) (hcompleted : ¬ s.encoder.completed) :
    Good s.producedData := by
  have hsame := sameBuffers_producedData s
  have hchunked := chunked_producedData h.intact.avail
  have hsettled := h.settled.producedData hcompleted
  refine ⟨hsame.intact h.intact, hchunked ▸ hsettled, ?_, fun hc => ?_⟩
  · rw [hchunked, Chunked.accounted_producedData h.settled.undisturbed.inv, h.accounted,
      hsame.emitted]
  · have hstill : s.producedData.chunked.completed = s.chunked.completed := by
      rw [hchunked, Chunked.completed_producedData]
    exact absurd (hstill.symm.trans hc) hcompleted

theorem Good.looping (h : Good s) (loop : Option EncoderLoop) : Good { s with looping := loop } :=
  ⟨SameBuffers.intact (s := s) ⟨⟨_, _, _, rfl⟩, rfl, rfl, rfl⟩ h.intact, h.settled, h.accounted,
    h.input⟩

/-- **A push** leaves nothing behind that the consumer has not got, if there is one. -/
theorem Good.push (h : Good s) (hcompleted : ¬ s.encoder.completed) {data : Bytes}
    {call : CompressStream} (hok : call.ok) (hkeeps : (s.compression []).Keeps data call)
    {returned : Bool} (hpush : s.push data call = some (s', returned)) :
    Good s' ∧ returned ∧ ¬ s'.encoder.completed ∧ s'.phase = s.phase ∧
      (s'.phase ≠ .detached → s'.chunked.pending = []) := by
  rw [BrotliResponse.push] at hpush
  split_ifs at hpush with hallows
  dsimp only at hpush
  rw [Option.some.injEq, Prod.mk.injEq] at hpush
  obtain ⟨rfl, rfl⟩ := hpush
  obtain ⟨hintact, hchunked⟩ := h.intact.compress hkeeps hallows
  have hdata : call.emitted = [] ∨ s.chunked.buffer = [] :=
    hkeeps.2.1.imp_right (available_eq_nil_iff h.intact.avail).mpr
  have hsettled : Chunked.Settled (s.compress data call).chunked := by
    rw [hchunked]
    exact h.settled.push hcompleted hdata
  have hstill : ¬ (s.compress data call).encoder.completed := by
    have hsame : (s.compress data call).chunked.completed = s.chunked.completed := by rw [hchunked]
    exact fun hc => hcompleted (hsame.symm.trans hc)
  have hgood : Good (s.compress data call) := by
    refine ⟨hintact, hsettled, ?_, fun hc => absurd hc hstill⟩
    rw [hchunked, Chunked.accounted_push h.settled.undisturbed.inv, h.accounted]
    rfl
  have hphase : (s.compress data call).producedData.phase = s.phase := by
    have hsame := congrArg Chunked.phase (chunked_producedData hintact.avail)
    rw [Chunked.phase_producedData] at hsame
    exact hsame
  refine ⟨hgood.producedData hstill, rfl, ?_, hphase, fun hattached => ?_⟩
  · have hsame := congrArg Chunked.completed (chunked_producedData hintact.avail)
    rw [Chunked.completed_producedData] at hsame
    exact fun hc => hstill (hsame.symm.trans hc)
  · rw [chunked_producedData hintact.avail]
    have hended := hsettled.ended_eq hstill
    refine hsettled.caught.pending_producedData hsettled.undisturbed.inv hsettled.ends hstill
      hended ?_
    rw [hsettled.undisturbed.inv.attached]
    exact ⟨fun hd => hattached (hphase.trans hd), hended⟩

/-- The consumer is there when the stream is complete. -/
def Attended (s : BrotliResponse) : Prop := s.encoder.completed → s.phase ≠ .detached

theorem Good.attended (h : Good s) : Attended s := by
  intro hcompleted
  exact h.settled.undisturbed.inv.detached (h.settled.completed hcompleted).1

/-- **The end of `finish`**. -/
theorem Good.complete (h : Good s) (hcompleted : ¬ s.encoder.completed)
    (havailIn : s.encoder.availIn = 0)
    (hpending : s.phase ≠ .detached → s.chunked.pending = []) {t : BrotliResponse}
    (ht : t = { s with encoder := { s.encoder with completed := true }, looping := none }) :
    Good t.producedData ∨ ¬ Attended t.producedData ∧ Bad t.producedData := by
  have hsame : SameBuffers s t := by
    rw [ht]
    exact ⟨⟨_, _, _, rfl⟩, rfl, rfl, rfl⟩
  have hintact := hsame.intact h.intact
  have hchunked : t.chunked = { s.chunked with completed := true } := by
    rw [ht]
    rfl
  have hproduced : t.producedData.chunked =
      { s.chunked with completed := true }.producedData := by
    rw [chunked_producedData hintact.avail, hchunked]
  have hleft := sameBuffers_producedData t
  have hemitted : t.producedData.emitted = s.emitted := hleft.emitted.trans hsame.emitted
  have hcomplete := h.settled.undisturbed.inv.complete
  rcases h.settled.finish hcompleted hpending with ⟨hsettled, -⟩ | ⟨hphase, hlost⟩
  · refine Or.inl ⟨hleft.intact hintact, hproduced ▸ hsettled, ?_, fun _ => ?_⟩
    · rw [hproduced, Chunked.accounted_producedData hcomplete, hemitted]
      exact h.accounted
    · rw [hleft.availIn, hsame.availIn]
      exact havailIn
  · refine Or.inr ⟨fun hattended => ?_, hleft.intact hintact, hproduced ▸ hlost, ?_⟩
    · have hdetached : t.producedData.chunked.phase = .detached := by
        rw [hproduced, Chunked.phase_producedData]
        exact hphase
      have hdone : t.producedData.chunked.completed := by
        rw [hproduced]
        exact hlost.completed
      exact hattended hdone hdetached
    · obtain ⟨hunattached, hflight, -⟩ := h.settled.undisturbed.inv.of_detached hphase
      have haccounted := h.accounted
      rw [Chunked.accounted_of_idle hflight, h.settled.detached hphase, Chunked.payload_nil,
        List.nil_append] at haccounted
      rw [hproduced, hemitted, Chunked.producedData_of_unattached
        (s := { s.chunked with completed := true }) hunattached]
      exact haccounted

/-- **One round** of a loop. -/
theorem Good.iterate (h : Good s) (hcompleted : ¬ s.encoder.completed) {loop : EncoderLoop}
    {call : CompressStream} (hok : call.ok) (hkeeps : (s.compression []).Keeps [] call)
    (hiterate : s.iterate loop call = some s') : Good s' ∨ ¬ Attended s' ∧ Bad s' := by
  rw [BrotliResponse.iterate, Option.map_eq_some_iff] at hiterate
  obtain ⟨⟨t, returned⟩, hpush, rfl⟩ := hiterate
  obtain ⟨hgood, hreturned, hstill, -, hpending⟩ := h.push hcompleted hok hkeeps hpush
  dsimp only
  rw [if_neg (not_not.mpr hreturned)]
  by_cases hwaiting : t.encoder.availIn ≠ 0
  · rw [if_pos hwaiting]
    exact Or.inl (hgood.looping _)
  · rw [if_neg hwaiting]
    cases loop with
    | flush => exact Or.inl ((hgood.looping none).producedData hstill)
    | finish => exact hgood.complete hstill (not_not.mp hwaiting) hpending rfl

/-- **One step** loses nothing, or it completes the stream before there is a consumer. -/
theorem Good.step (h : Good s) {op : BrotliOp} (hsound : s.Sound op) (hstep : s.step op = some s') :
    Good s' ∨ ¬ Attended s' ∧ Bad s' := by
  have hsends : ∀ op', Sends op op' → Good s' := by
    intro op' hop
    obtain ⟨hchunked, hintact, hemitted, havailIn⟩ :=
      sends_step h.intact h.settled.undisturbed.inv hop hstep
    have hsettled : Chunked.Settled s'.chunked := by
      cases hop with
      | attach => exact h.settled.send (Or.inl rfl) hchunked
      | startProduction => exact h.settled.send (Or.inr rfl) hchunked
      | written => exact h.settled.written hchunked
    have hsame : Chunked.Succeeds op' ∧ op' ≠ .finish ∧ Chunked.pushed op' = [] := by
      cases hop <;> exact ⟨nofun, nofun, rfl⟩
    refine ⟨hintact, hsettled, ?_, fun hc => ?_⟩
    · rw [Chunked.accounted_stepOf h.settled.undisturbed.inv hsame.1 hchunked, hsame.2.2,
        List.append_nil, hemitted]
      exact h.accounted
    · have hstill := Chunked.completed_stepOf h.settled.undisturbed.inv hsame.2.1 hchunked
      rw [havailIn]
      exact h.input (hstill.symm.trans hc)
  cases op with
  | push data call =>
    obtain ⟨hcompleted, hok, hkeeps⟩ := hsound
    simp only [BrotliResponse.step] at hstep
    split_ifs at hstep
    rw [Option.map_eq_some_iff] at hstep
    obtain ⟨⟨t, returned⟩, hpush, rfl⟩ := hstep
    exact Or.inl (h.push hcompleted hok hkeeps hpush).1
  | flush call =>
    obtain ⟨hcompleted, hok, hkeeps⟩ := hsound
    simp only [BrotliResponse.step] at hstep
    split_ifs at hstep
    exact h.iterate hcompleted hok hkeeps hstep
  | finish call =>
    obtain ⟨hcompleted, hok, hkeeps⟩ := hsound
    simp only [BrotliResponse.step] at hstep
    split_ifs at hstep
    exact h.iterate hcompleted hok hkeeps hstep
  | again call =>
    obtain ⟨hcompleted, hok, hkeeps⟩ := hsound
    simp only [BrotliResponse.step] at hstep
    split at hstep
    · exact h.iterate hcompleted hok hkeeps hstep
    · cases hstep
  | attach => exact Or.inl (hsends _ .attach)
  | startProduction => exact Or.inl (hsends _ .startProduction)
  | written ec =>
    obtain rfl : ec = none := hsound
    exact Or.inl (hsends _ .written)

/-- What has been lost stays lost, for nothing is pushed into a complete stream. -/
theorem Bad.step (h : Bad s) {op : BrotliOp} (hsound : s.Sound op) (hstep : s.step op = some s') :
    Bad s' := by
  have hsends : ∀ op', Sends op op' → Bad s' := by
    intro op' hop
    obtain ⟨hchunked, hintact, hemitted, -⟩ := sends_step h.intact h.lost.inv hop hstep
    have hop' : op' = .attach ∨ op' = .startProduction ∨ op' = .written none := by
      cases hop <;> simp
    obtain ⟨hlost, hbuffer⟩ := h.lost.step hop' hchunked
    exact ⟨hintact, hlost, hbuffer.trans (h.buffer.trans hemitted.symm)⟩
  cases op with
  | push data call => exact absurd h.lost.completed hsound.1
  | flush call => exact absurd h.lost.completed hsound.1
  | finish call => exact absurd h.lost.completed hsound.1
  | again call => exact absurd h.lost.completed hsound.1
  | attach => exact hsends _ .attach
  | startProduction => exact hsends _ .startProduction
  | written ec =>
    obtain rfl : ec = none := hsound
    exact hsends _ .written

/-- All of the stream is on the wire, and its end. -/
def Delivered (s : BrotliResponse) : Prop :=
  .terminal ∈ s.frames ∧ Chunked.payload s.frames = s.emitted ∧ s.consumed = s.pushed

theorem Good.delivered (h : Good s) (hcompleted : s.encoder.completed) (hflight : s.inFlight = []) :
    Delivered s := by
  obtain ⟨hconsuming, hpending⟩ := h.settled.completed hcompleted
  refine ⟨?_, ?_, ?_⟩
  · rcases h.settled.undisturbed.inv.consuming.mp hconsuming with hwriting | hended
    · exact absurd hflight hwriting
    · exact h.settled.undisturbed.ended hended
  · have haccounted := h.accounted
    rw [Chunked.accounted, hpending, List.append_nil] at haccounted
    exact haccounted
  · obtain ⟨read, hread⟩ := h.intact
    have hconsumed : s.consumed ++ s.encoder.input.take s.encoder.availIn = s.pushed :=
      hread.consumed
    rw [h.input hcompleted, List.take_zero, List.append_nil] at hconsumed
    exact hconsumed

theorem Bad.not_delivered (h : Bad s) : ¬ Delivered s := by
  rintro ⟨hterminal, hpayload, -⟩
  refine h.lost.terminal ?_ hterminal
  rw [h.buffer, ← hpayload]
  exact h.lost.payload

/-- **The response of a brotli encoder**: in a run that keeps to it, at most one write is in flight,
chunks come before the terminal chunk, they hold a front of what the compression has emitted, and
none of what has been pushed gets lost before the compression. When the stream is complete and
nothing is in flight, all of it is on the wire exactly if there was a consumer when it was
completed. -/
theorem brotli_delivery (inputCutoff outputMinimumAvail : Nat) (ops : List BrotliOp)
    (hsound : Along step Sound
      { encoder := { inputCutoff := inputCutoff, outputMinimumAvail := outputMinimumAvail } } ops)
    (s : BrotliResponse)
    (hrun : run step
      { encoder := { inputCutoff := inputCutoff, outputMinimumAvail := outputMinimumAvail } } ops =
        some s) :
    s.inFlight.length ≤ 1 ∧
      (∃ chunks : List Bytes, s.frames =
        chunks.map .chunk ++ if .terminal ∈ s.frames then [.terminal] else []) ∧
      Chunked.payload s.frames <+: s.emitted ∧
      s.consumed ++ s.encoder.input.take s.encoder.availIn = s.pushed ∧
      (s.encoder.completed → s.inFlight = [] →
        (Delivered s ↔ Throughout step Attended
          { encoder := { inputCutoff := inputCutoff, outputMinimumAvail := outputMinimumAvail } }
          ops)) := by
  have hend := throughout_or (fun _ h => Good.attended h) (fun _ _ _ h ha => Good.step h ha)
    (fun _ _ _ h ha => Bad.step h ha) (good_init inputCutoff outputMinimumAvail) hsound hrun
  have hframing : ∀ c : Chunked, Chunked.Inv c → c.inFlight.length ≤ 1 := by
    intro c hinv
    rcases hinv.flight with hf | ⟨d, hf, -⟩ | ⟨hf, -⟩ <;> simp [hf]
  rcases hend with ⟨hattended, hgood⟩ | ⟨hattended, hbad⟩
  · have hinv := hgood.settled.undisturbed.inv
    refine ⟨hframing _ hinv, hinv.order, ?_, ?_, fun hcompleted hflight => ?_⟩
    · rw [← hgood.accounted]
      exact List.prefix_append _ _
    · exact hgood.intact.elim fun _ hread => hread.consumed
    · exact iff_of_true (hgood.delivered hcompleted hflight) hattended
  · have hinv := hbad.lost.inv
    refine ⟨hframing _ hinv, hinv.order, ?_, ?_, fun _ _ => ?_⟩
    · have hnone : Chunked.payload s.frames = [] := hbad.lost.payload
      rw [hnone]
      exact List.nil_prefix
    · exact hbad.intact.elim fun _ hread => hread.consumed
    · exact iff_of_false hbad.not_delivered hattended

/-- A chunk, and the end of the stream while nothing is in flight. -/
theorem brotli_delivery_streamed :
    ∃ s, run step { encoder := { inputCutoff := 1, outputMinimumAvail := 4 } }
        [.attach, .startProduction, .push [1, 2] { consumed := 2, emitted := [7] }, .written none,
          .finish { emitted := [8, 9] }, .written none, .written none] = some s ∧
      (Delivered s ↔ Throughout step Attended
        { encoder := { inputCutoff := 1, outputMinimumAvail := 4 } }
        [.attach, .startProduction, .push [1, 2] { consumed := 2, emitted := [7] }, .written none,
          .finish { emitted := [8, 9] }, .written none, .written none]) := by
  refine ⟨_, rfl, (brotli_delivery 1 4 _ ?_ _ rfl).2.2.2.2 rfl rfl⟩
  have hpush : ∀ s : BrotliResponse, s.encoder.completed = false → s.encoder.availIn = 0 →
      s.encoder.avail = 0 → Sound s (.push [1, 2] { consumed := 2, emitted := [7] }) := by
    intro s hcompleted hin hout
    exact ⟨by simp [hcompleted], rfl, Or.inr hin, Or.inr hout, Or.inr (by simp [compression, hin])⟩
  refine along_cons rfl trivial (along_cons rfl trivial (along_cons rfl (hpush _ rfl rfl rfl)
    (along_cons rfl rfl (along_cons rfl ?_ (along_cons rfl rfl (along_cons rfl rfl trivial))))))
  exact ⟨Bool.false_ne_true, rfl, Or.inl rfl, Or.inr rfl, Or.inl rfl⟩

end BrotliResponse

end Attender.Http
