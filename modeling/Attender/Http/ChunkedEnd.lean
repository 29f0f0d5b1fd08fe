import Attender.Http.ChunkedDelivery

/-!
# The end of a chunked response

`finish` calls `on_produce` unless a write is in flight or no consumer is there,
and then it is left to the completion of the write, or to `start_production`, to
call it. Both do so for the bytes in the buffer alone, so the terminal chunk is
lost when there are none.
-/

namespace Attender.Http.Chunked

open Attender.Library Attender.Utility

/-- The stream is complete, and nothing is left that would write the terminal chunk: the consumer is
attached, the production has started, and no write is in flight. -/
structure Stuck (s : Chunked) : Prop where
  attached : s.hasConsumerAttached
  started : s.phase = .started
  flight : s.inFlight = []
  completed : s.completed
  terminal : .terminal ∉ s.frames

/-- The steps that lose the end of a complete stream: the completion of a write that leaves no bytes
in the buffer, and a start of the production with no bytes in it. -/
def LosesEnd (s : Chunked) : ChunkedOp → Prop
  | .written _ =>
    s.completed ∧ s.phase = .started ∧ ∃ d, s.inFlight = [.chunk d] ∧ s.buffer.length ≤ d.length
  | .startProduction => s.completed ∧ s.buffer = [] ∧ ¬ s.consuming
  | _ => False

/-- What holds of a run without failing writes. -/
structure Undisturbed (s : Chunked) : Prop where
  inv : Inv s
  ended : 0 < s.ended → .terminal ∈ s.frames

theorem undisturbed_init : Undisturbed {} := ⟨inv_init, fun h => absurd h (Nat.lt_irrefl 0)⟩

/-! ### What is not stuck -/

/-- A write in flight will complete, and an end has been written. -/
theorem not_stuck_of_consuming {s : Chunked} (h : Undisturbed s) (hc : s.consuming) :
    ¬ Stuck s := by
  intro hstuck
  rcases h.inv.consuming.mp hc with hflight | hended
  · exact hflight hstuck.flight
  · exact hstuck.terminal (h.ended hended)

theorem not_stuck_onProduce (s : Chunked) : ¬ Stuck s.onProduce := by
  intro hstuck
  have hcompleted : s.completed := by simpa using hstuck.completed
  rcases onProduce_cases s with ⟨-, e⟩ | ⟨hn, -⟩ | ⟨hn, -⟩
  · have hterminal := hstuck.terminal
    rw [e] at hterminal
    exact hterminal (by simp [write])
  · exact hn hcompleted
  · exact hn hcompleted

/-- Whoever signals data to an attached consumer leaves nothing stuck. -/
theorem not_stuck_producedData {s : Chunked} (h : Undisturbed s) : ¬ Stuck s.producedData := by
  unfold producedData
  split_ifs with hc ha
  · exact not_stuck_of_consuming h hc
  · exact not_stuck_onProduce s
  · intro hstuck
    exact ha hstuck.attached

/-! ### One step -/

/-- The response goes on, and what has been written stays written. -/
structure Continues (s s' : Chunked) : Prop where
  ended : s'.ended = s.ended
  frames : s.frames ⊆ s'.frames

theorem continues_onProduce (s : Chunked) : Continues s s.onProduce := by
  rcases onProduce_cases s with ⟨-, e⟩ | ⟨-, -, e⟩ | ⟨-, -, e⟩
  · rw [e]
    exact ⟨rfl, List.subset_append_left _ _⟩
  · rw [e]
    exact ⟨rfl, List.Subset.refl _⟩
  · rw [e]
    exact ⟨rfl, List.subset_append_left _ _⟩

theorem continues_producedData (s : Chunked) : Continues s s.producedData := by
  unfold producedData
  split_ifs
  · exact ⟨rfl, List.Subset.refl _⟩
  · exact continues_onProduce s
  · exact ⟨rfl, List.Subset.refl _⟩

theorem continues_hasConsumed (s : Chunked) (size : Nat) : Continues s (s.hasConsumed size) := by
  rw [hasConsumed_eq]
  split_ifs
  · obtain ⟨hended, hframes⟩ := continues_onProduce { s with buffer := s.buffer.drop size }
    exact ⟨hended, hframes⟩
  · exact ⟨rfl, List.Subset.refl _⟩
  · exact ⟨rfl, List.Subset.refl _⟩

/-- A step without a failing write goes on, or it is the completion of the terminal chunk. -/
theorem continues_step {s s' : Chunked} {op : ChunkedOp} (hop : Succeeds op) (h : Inv s)
    (hstep : s.step op = some s') : Continues s s' ∨ .terminal ∈ s'.frames := by
  cases op with
  | push data =>
    cases hstep
    obtain ⟨hended, hframes⟩ := continues_producedData { s with buffer := s.buffer ++ data }
    exact Or.inl ⟨hended, hframes⟩
  | flush =>
    cases hstep
    exact Or.inl (continues_producedData s)
  | finish =>
    cases hstep
    obtain ⟨hended, hframes⟩ := continues_producedData { s with completed := true }
    exact Or.inl ⟨hended, hframes⟩
  | attach =>
    simp only [Chunked.step] at hstep
    split_ifs at hstep
    cases hstep
    exact Or.inl ⟨rfl, List.Subset.refl _⟩
  | startProduction =>
    simp only [Chunked.step] at hstep
    split_ifs at hstep
    cases hstep
    rw [startProduction]
    split_ifs
    · obtain ⟨hended, hframes⟩ := continues_producedData { s with phase := .started }
      exact Or.inl ⟨hended, hframes⟩
    · exact Or.inl ⟨rfl, List.Subset.refl _⟩
  | written ec =>
    rcases h.written_cases hstep with ⟨d, -, -, rfl⟩ | ⟨-, hf, rfl⟩
    · obtain ⟨hended, hframes⟩ := continues_hasConsumed { s with inFlight := [] } d.length
      exact Or.inl ⟨hended, hframes⟩
    · exact Or.inr (h.terminal_mem (hf.resolve_right (hop.ec_eq_none)))

theorem undisturbed_step {s s' : Chunked} {op : ChunkedOp} (hop : Succeeds op) (h : Undisturbed s)
    (hstep : s.step op = some s') : Undisturbed s' := by
  refine ⟨inv_step h.inv hstep, ?_⟩
  intro hended
  rcases continues_step hop h.inv hstep with hcontinues | hterminal
  · rw [hcontinues.ended] at hended
    exact hcontinues.frames (h.ended hended)
  · exact hterminal

/-- **One step** leads to a stuck state exactly if it loses the end. -/
theorem stuck_step_iff {s s' : Chunked} {op : ChunkedOp} (hop : Succeeds op) (h : Undisturbed s)
    (hstep : s.step op = some s') : Stuck s' ↔ LosesEnd s op := by
  have h' := undisturbed_step hop h hstep
  cases op with
  | push data =>
    cases hstep
    exact iff_of_false (not_stuck_producedData ⟨h.inv.push data, h.ended⟩) id
  | flush =>
    cases hstep
    exact iff_of_false (not_stuck_producedData h) id
  | finish =>
    cases hstep
    exact iff_of_false (not_stuck_producedData ⟨h.inv.complete, h.ended⟩) id
  | attach =>
    simp only [Chunked.step] at hstep
    split_ifs at hstep
    cases hstep
    refine iff_of_false ?_ id
    intro hstuck
    cases hstuck.started
  | startProduction =>
    simp only [Chunked.step] at hstep
    split_ifs at hstep with hphase
    cases hstep
    have hstarted : Undisturbed { s with phase := .started } := ⟨h.inv.start hphase, h.ended⟩
    rw [startProduction]
    split_ifs with hbuffer
    · exact iff_of_false (not_stuck_producedData hstarted) fun hloses => hbuffer hloses.2.1
    · constructor
      · intro hstuck
        exact ⟨hstuck.completed, not_not.mp hbuffer,
          fun hc => not_stuck_of_consuming hstarted hc hstuck⟩
      · intro hloses
        have hidle := h.inv.idle hloses.2.2
        exact ⟨hidle.attached.mpr (by simp [hphase]), rfl, hidle.flight, hloses.1, hidle.terminal⟩
  | written ec =>
    rcases h.inv.written_cases hstep with ⟨d, hf, -, rfl⟩ | ⟨-, hf, rfl⟩
    · obtain ⟨-, -, hattached, hidle⟩ := h.inv.chunk hf
      rw [hasConsumed_eq]
      split_ifs with hbuffer
      · refine iff_of_false (not_stuck_onProduce _) fun hloses => hbuffer ?_
        obtain ⟨-, -, d', hf', hlength⟩ := hloses
        rw [hf, List.singleton_inj, Frame.chunk.injEq] at hf'
        exact List.drop_of_length_le (hf' ▸ hlength)
      · constructor
        · intro hstuck
          exact ⟨hstuck.completed, hstuck.started, d, hf,
            List.drop_eq_nil_iff.mp (not_not.mp hbuffer)⟩
        · intro hloses
          exact ⟨hattached, hloses.2.1, rfl, hloses.1, hidle.terminal⟩
    · have hterminal := hf.resolve_right hop.ec_eq_none
      refine iff_of_false (fun hstuck => hstuck.terminal (h.inv.terminal_mem hterminal))
        ?_
      intro hloses
      obtain ⟨-, -, d, hf', -⟩ := hloses
      rw [hterminal] at hf'
      cases hf'

/-! ### Either producer -/

/-- The steps that lose the end: a `brotli_encoder` does not when a write completes. -/
def LosesEndOf (kind : ProducerKind) (s : Chunked) (op : ChunkedOp) : Prop :=
  LosesEnd s op ∧ (kind = .streaming ∨ op = .startProduction)

/-- A stuck response is one that the end of the stream would wake. -/
theorem not_stuck_wake {s : Chunked} (h : Undisturbed s) : ¬ Stuck s.wake := by
  rw [wake]
  split_ifs with hwake
  · exact not_stuck_producedData h
  · intro hstuck
    refine hwake ⟨?_, hstuck.completed⟩
    rw [← Bool.not_eq_true]
    intro hconsuming
    exact not_stuck_of_consuming h hconsuming hstuck

/-- A step that does not lose the end leaves nothing stuck. -/
theorem not_stuck_stepOf {kind : ProducerKind} {s s' : Chunked} {op : ChunkedOp} (hop : Succeeds op)
    (h : Undisturbed s) (hloses : ¬ LosesEndOf kind s op) (hstep : s.stepOf kind op = some s') :
    ¬ Stuck s' := by
  rcases stepOf_cases hstep with ⟨hsame, hchunk⟩ | ⟨-, -, t, ht, rfl⟩
  · rw [stuck_step_iff hop h hsame]
    intro hlost
    refine hloses ⟨hlost, ?_⟩
    cases kind with
    | streaming => exact Or.inl rfl
    | brotli =>
      cases op with
      | startProduction => exact Or.inr rfl
      | written ec =>
        obtain ⟨-, -, d, hflight, -⟩ := hlost
        have hnone : ec = none := not_not.mp hop.ec_eq_none
        exact absurd hflight (hchunk rfl (congrArg ChunkedOp.written hnone) d [])
      | push data => exact hlost.elim
      | flush => exact hlost.elim
      | finish => exact hlost.elim
      | attach => exact hlost.elim
  · exact not_stuck_wake (undisturbed_step hop h ht)

/-! ### Whole runs -/

/-- **The end of a chunked response**: a run without failing writes is in no state stuck exactly if
none of its steps loses the end. -/
theorem no_lost_end_iff (ops : List ChunkedOp) (hops : ∀ op ∈ ops, Succeeds op) (s : Chunked)
    (hrun : run Chunked.step {} ops = some s) :
    Throughout Chunked.step (fun s => ¬ Stuck s) {} ops ↔
      Along Chunked.step (fun s op => ¬ LosesEnd s op) {} ops := by
  refine throughout_iff_along (fun t op t' hop ht _ hstep _ => undisturbed_step hop ht hstep)
    (fun t op t' hop ht _ hstep => not_congr (stuck_step_iff hop ht hstep)) undisturbed_init ?_
    hops hrun
  intro hstuck
  exact nomatch hstuck.started

/-- A stream that is finished after its only chunk has been written. -/
theorem no_lost_end_iff_flushed :
    Throughout Chunked.step (fun s => ¬ Stuck s) {}
        [.attach, .startProduction, .push (bytes "ab"), .written none, .finish, .written none] ↔
      Along Chunked.step (fun s op => ¬ LosesEnd s op) {}
        [.attach, .startProduction, .push (bytes "ab"), .written none, .finish, .written none] :=
  no_lost_end_iff _ (by simp [Succeeds])
    { completed := true, consuming := true, phase := .started
      frames := [.chunk (bytes "ab"), .terminal], ended := 1 }
    (by decide)

/-- The stream is finished while its last chunk is written, and then nothing ends it. -/
theorem lost_end :
    ¬ ∀ (ops : List ChunkedOp), (∀ op ∈ ops, Succeeds op) → ∀ s, run Chunked.step {} ops = some s →
      ¬ Stuck s := by
  intro hclaim
  refine hclaim [.attach, .startProduction, .push (bytes "ab"), .finish, .written none]
    (by simp [Succeeds])
    { completed := true, hasConsumerAttached := true, phase := .started
      frames := [.chunk (bytes "ab")] } (by decide) ?_
  exact ⟨rfl, rfl, rfl, rfl, by decide⟩

end Attender.Http.Chunked
