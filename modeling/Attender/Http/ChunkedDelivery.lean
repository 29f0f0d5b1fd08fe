import Attender.Http.ChunkedResponse

/-!
# The delivery of a chunked response

What is pushed is put on the wire in order, as long as the stream is not
complete. `on_produce` tests `complete()` before it looks at the buffer, so what
has not been put in a chunk when `finish` is called never is.
-/

namespace Attender.Http.Chunked

open Attender.Library Attender.Utility

/-- A step that does not fail. -/
def Succeeds (op : ChunkedOp) : Prop := ∀ ec, op ≠ .written (some ec)

theorem Succeeds.ec_eq_none {ec : Option ErrorCode} (h : Succeeds (.written ec)) : ¬ ec ≠ none := by
  cases ec with
  | none => exact not_not.mpr rfl
  | some ec => exact absurd rfl (h ec)

/-! ### The bytes on the wire -/

/-- The bytes of the chunks. -/
def payload (fs : List Frame) : Bytes :=
  fs.flatMap fun f => match f with
    | .chunk d => d
    | .terminal => []

theorem payload_append (fs gs : List Frame) : payload (fs ++ gs) = payload fs ++ payload gs :=
  List.flatMap_append

@[simp] theorem payload_nil : payload [] = [] := rfl

@[simp] theorem payload_chunk (d : Bytes) : payload [.chunk d] = d := by simp [payload]

@[simp] theorem payload_terminal : payload [.terminal] = [] := rfl

/-- The bytes of the buffer that are in no chunk. -/
def pending (s : Chunked) : Bytes := s.buffer.drop (payload s.inFlight).length

/-- The bytes a step pushes. -/
def pushed : ChunkedOp → Bytes
  | .push data => data
  | _ => []

/-- The bytes put in chunks, and those that wait for it. -/
def accounted (s : Chunked) : Bytes := payload s.frames ++ s.pending

theorem accounted_of_idle {s : Chunked} (h : s.inFlight = []) :
    s.accounted = payload s.frames ++ s.buffer := by
  rw [accounted, pending, h, payload_nil, List.length_nil, List.drop_zero]

theorem accounted_onProduce {s : Chunked} (h : s.inFlight = []) :
    s.onProduce.accounted = payload s.frames ++ s.buffer := by
  rcases onProduce_cases s with ⟨-, e⟩ | ⟨-, -, e⟩ | ⟨-, -, e⟩
  · rw [e]
    simp [accounted, pending, write, h, payload_append]
  · rw [e]
    exact accounted_of_idle h
  · rw [e]
    simp [accounted, pending, write, h, payload_append]

theorem accounted_producedData {s : Chunked} (h : Inv s) :
    s.producedData.accounted = s.accounted := by
  unfold producedData
  split_ifs with hc ha
  · rfl
  · have hf := (h.idle hc).flight
    rw [accounted_onProduce hf, accounted_of_idle hf]
  · rfl

theorem accounted_push {s : Chunked} (h : Inv s) (data : Bytes) :
    { s with buffer := s.buffer ++ data }.accounted = s.accounted ++ data := by
  have hlength : (payload s.inFlight).length ≤ s.buffer.length := by
    rcases h.flight with hf | ⟨d, hf, hd, -⟩ | ⟨hf, -⟩
    · simp [hf]
    · rw [hf, payload_chunk]
      exact hd.length_le
    · simp [hf]
  rw [accounted, accounted, pending, pending, List.drop_append_of_le_length hlength,
    List.append_assoc]

/-- What has been consumed was in a chunk. -/
theorem accounted_hasConsumed {s : Chunked} {d : Bytes} (hf : s.inFlight = [.chunk d]) :
    ({ s with inFlight := [] }.hasConsumed d.length).accounted = s.accounted := by
  have haccounted : s.accounted = payload s.frames ++ s.buffer.drop d.length := by
    rw [accounted, pending, hf, payload_chunk]
  rw [hasConsumed_eq, haccounted]
  split_ifs
  · exact accounted_onProduce rfl
  · exact accounted_of_idle rfl
  · exact accounted_of_idle rfl

/-- **One step** puts what it pushes behind what was there. -/
theorem accounted_step {s s' : Chunked} {op : ChunkedOp} (h : Inv s) (hop : Succeeds op)
    (hstep : s.step op = some s') : s'.accounted = s.accounted ++ pushed op := by
  cases op with
  | push data =>
    cases hstep
    rw [accounted_producedData (h.push data), accounted_push h, pushed]
  | flush =>
    cases hstep
    exact (accounted_producedData h).trans (List.append_nil _).symm
  | finish =>
    cases hstep
    exact (accounted_producedData h.complete).trans (List.append_nil _).symm
  | attach =>
    simp only [Chunked.step] at hstep
    split_ifs at hstep
    cases hstep
    exact (List.append_nil s.accounted).symm
  | startProduction =>
    simp only [Chunked.step] at hstep
    split_ifs at hstep with hphase
    cases hstep
    rw [startProduction]
    split_ifs
    · exact (accounted_producedData (h.start hphase)).trans (List.append_nil _).symm
    · exact (List.append_nil s.accounted).symm
  | written ec =>
    rcases h.written_cases hstep with ⟨d, hf, -, rfl⟩ | ⟨-, hf, rfl⟩
    · exact (accounted_hasConsumed hf).trans (List.append_nil _).symm
    · have hterminal : s.inFlight = [.terminal] := hf.resolve_right hop.ec_eq_none
      have haccounted : s.accounted = payload s.frames ++ s.buffer := by
        rw [accounted, pending, hterminal, payload_terminal, List.length_nil, List.drop_zero]
      rw [accounted_of_idle rfl, haccounted]
      exact (List.append_nil _).symm

/-! ### The end of the stream -/

section Completed

variable {s : Chunked}

/-- Once the stream is complete, `on_produce` writes no chunk. -/
theorem payload_onProduce (hc : s.completed) : payload s.onProduce.frames = payload s.frames := by
  rcases onProduce_cases s with ⟨-, e⟩ | ⟨hn, -⟩ | ⟨hn, -⟩
  · rw [e, write, payload_append, payload_terminal, List.append_nil]
  · exact absurd hc hn
  · exact absurd hc hn

theorem payload_producedData (hc : s.completed) :
    payload s.producedData.frames = payload s.frames := by
  unfold producedData
  split_ifs
  · rfl
  · exact payload_onProduce hc
  · rfl

theorem payload_hasConsumed (hc : s.completed) (size : Nat) :
    payload (s.hasConsumed size).frames = payload s.frames := by
  rw [hasConsumed_eq]
  split_ifs
  · exact payload_onProduce hc
  · rfl
  · rfl

end Completed

/-- Only `finish` completes the stream. -/
theorem completed_step {s s' : Chunked} {op : ChunkedOp} (h : Inv s) (hop : op ≠ .finish)
    (hstep : s.step op = some s') : s'.completed = s.completed := by
  cases op with
  | push data => cases hstep; simp
  | flush => cases hstep; simp
  | finish => exact absurd rfl hop
  | attach =>
    simp only [Chunked.step] at hstep
    split_ifs at hstep
    cases hstep
    rfl
  | startProduction =>
    simp only [Chunked.step] at hstep
    split_ifs at hstep
    cases hstep
    rw [startProduction]
    split_ifs <;> simp
  | written ec =>
    rcases h.written_cases hstep with ⟨d, -, -, rfl⟩ | ⟨-, -, rfl⟩
    · simp
    · rfl

/-- The terminal chunk has been written for a complete stream alone. -/
def Ends (s : Chunked) : Prop := .terminal ∈ s.frames → s.completed

theorem ends_init : Ends {} := fun h => absurd h List.not_mem_nil

section Ends

variable {s : Chunked}

theorem Ends.onProduce (h : Ends s) : Ends s.onProduce := by
  intro hterminal
  rw [completed_onProduce]
  rcases onProduce_cases s with ⟨hc, -⟩ | ⟨-, -, e⟩ | ⟨-, -, e⟩
  · exact hc
  · rw [e] at hterminal
    exact h hterminal
  · rw [e] at hterminal
    refine h ?_
    simpa [write] using hterminal

theorem Ends.producedData (h : Ends s) : Ends s.producedData := by
  unfold Chunked.producedData
  split_ifs
  · exact h
  · exact h.onProduce
  · exact h

theorem Ends.hasConsumed (h : Ends s) (size : Nat) : Ends (s.hasConsumed size) := by
  have hrest : Ends { s with buffer := s.buffer.drop size } := h
  rw [hasConsumed_eq]
  split_ifs
  · exact hrest.onProduce
  · exact hrest
  · exact h

theorem Ends.step {s' : Chunked} {op : ChunkedOp} (h : Ends s) (hinv : Inv s)
    (hstep : s.step op = some s') : Ends s' := by
  cases op with
  | push data =>
    cases hstep
    exact Ends.producedData (s := { s with buffer := s.buffer ++ data }) h
  | flush =>
    cases hstep
    exact h.producedData
  | finish =>
    cases hstep
    exact Ends.producedData (s := { s with completed := true }) fun _ => rfl
  | attach =>
    simp only [Chunked.step] at hstep
    split_ifs at hstep
    cases hstep
    exact h
  | startProduction =>
    have hstarted : Ends { s with phase := .started } := h
    simp only [Chunked.step] at hstep
    split_ifs at hstep
    cases hstep
    unfold startProduction
    split_ifs
    · exact hstarted.producedData
    · exact hstarted
  | written ec =>
    rcases hinv.written_cases hstep with ⟨d, -, -, rfl⟩ | ⟨-, -, rfl⟩
    · exact Ends.hasConsumed (s := { s with inFlight := [] }) h _
    · exact h

end Ends

/-- **The end**: once the stream is complete, a step writes no chunk. -/
theorem payload_step {s s' : Chunked} {op : ChunkedOp} (h : Inv s) (hc : s.completed)
    (hstep : s.step op = some s') : payload s'.frames = payload s.frames := by
  cases op with
  | push data => cases hstep; exact payload_producedData hc
  | flush => cases hstep; exact payload_producedData hc
  | finish => cases hstep; exact payload_producedData rfl
  | attach =>
    simp only [Chunked.step] at hstep
    split_ifs at hstep
    cases hstep
    rfl
  | startProduction =>
    simp only [Chunked.step] at hstep
    split_ifs at hstep
    cases hstep
    rw [startProduction]
    split_ifs
    · exact payload_producedData hc
    · rfl
  | written ec =>
    rcases h.written_cases hstep with ⟨d, -, -, rfl⟩ | ⟨-, -, rfl⟩
    · exact payload_hasConsumed (s := { s with inFlight := [] }) hc _
    · rfl

/-! ### Whole runs -/

/-- The bytes some steps push, in order. -/
def pushes (ops : List ChunkedOp) : Bytes := ops.flatMap pushed

theorem inv_run {ops : List ChunkedOp} {s s' : Chunked} (h : Inv s)
    (hrun : run Chunked.step s ops = some s') : Inv s' :=
  run_invariant (A := fun _ => True) (fun _ _ _ _ h hstep => inv_step h hstep)
    (fun _ _ => trivial) h hrun

theorem accounted_run {ops : List ChunkedOp} {s s' : Chunked} (h : Inv s)
    (hops : ∀ op ∈ ops, Succeeds op) (hrun : run Chunked.step s ops = some s') :
    s'.accounted = s.accounted ++ pushes ops := by
  induction ops generalizing s with
  | nil =>
    rw [run_nil, Option.some.injEq] at hrun
    rw [pushes, List.flatMap_nil, List.append_nil, hrun]
  | cons op ops ih =>
    obtain ⟨s₁, hstep, hrun⟩ := run_cons.mp hrun
    obtain ⟨hop, hops⟩ := List.forall_mem_cons.mp hops
    rw [ih (inv_step h hstep) hops hrun, accounted_step h hop hstep, pushes, pushes,
      List.flatMap_cons, List.append_assoc]

theorem ends_run {ops : List ChunkedOp} {s : Chunked} (hrun : run Chunked.step {} ops = some s) :
    Ends s :=
  (run_invariant (A := fun _ => True) (I := fun t => Inv t ∧ Ends t)
    (fun _ _ _ _ h hstep => ⟨inv_step h.1 hstep, h.2.step h.1 hstep⟩)
    (fun _ _ => trivial) ⟨inv_init, ends_init⟩ hrun).2

/-- A run without `finish` leaves the stream as complete as it is. -/
theorem completed_run {ops : List ChunkedOp} {s s' : Chunked} (h : Inv s) (hops : .finish ∉ ops)
    (hrun : run Chunked.step s ops = some s') : s'.completed = s.completed := by
  have hkeep : Inv s' ∧ s'.completed = s.completed :=
    run_invariant (A := fun op => op ≠ .finish) (I := fun t => Inv t ∧ t.completed = s.completed)
      (fun t op t' hop ht hstep =>
        ⟨inv_step ht.1 hstep, (completed_step ht.1 hop hstep).trans ht.2⟩)
      (fun op hmem hop => by subst hop; exact hops hmem) ⟨h, rfl⟩ hrun
  exact hkeep.2

/-- A run of a complete stream writes no chunk. -/
theorem payload_run {ops : List ChunkedOp} {s s' : Chunked} (h : Inv s) (hc : s.completed)
    (hrun : run Chunked.step s ops = some s') : payload s'.frames = payload s.frames := by
  have hstay : ∀ t op t', Inv t → t.completed → t.step op = some t' → t'.completed := by
    intro t op t' ht htc hstep
    by_cases hop : op = .finish
    · subst hop
      cases hstep
      simp
    · rw [completed_step ht hop hstep]
      exact htc
  have hkeep : Inv s' ∧ s'.completed ∧ payload s'.frames = payload s.frames :=
    run_invariant (A := fun _ => True)
      (I := fun t => Inv t ∧ t.completed ∧ payload t.frames = payload s.frames)
      (fun t op t' _ ht hstep => ⟨inv_step ht.1 hstep, hstay t op t' ht.1 ht.2.1 hstep,
        (payload_step ht.1 ht.2.1 hstep).trans ht.2.2⟩)
      (fun _ _ => trivial) ⟨h, hc, rfl⟩ hrun
  exact hkeep.2.2

/-- The chunks before the terminal chunk are all chunks. -/
theorem payload_takeWhile {s : Chunked} (h : Inv s) :
    payload (s.frames.takeWhile (· ≠ .terminal)) = payload s.frames := by
  obtain ⟨ds, hds⟩ := h.order
  have hchunks : ∀ f ∈ ds.map Frame.chunk, decide (f ≠ .terminal) = true := by
    intro f hf
    obtain ⟨d, -, rfl⟩ := List.mem_map.mp hf
    simp
  rw [hds, List.takeWhile_append_of_pos hchunks, payload_append, payload_append]
  split_ifs <;> rfl

/-- Every byte pushed before `finish` has been put in a chunk when it is called. -/
def NothingPending (ops : List ChunkedOp) : Prop :=
  ∀ s, run Chunked.step {} (ops.takeWhile (· ≠ .finish)) = some s → s.pending = []

/-- **The delivery of a chunked response**: in a run without failing writes that has put the
terminal chunk on the wire, the chunks before it hold all that was pushed before `finish` exactly if
all of it had been put in chunks when `finish` was called. -/
theorem chunked_delivery_iff (ops : List ChunkedOp) (hops : ∀ op ∈ ops, Succeeds op) (s : Chunked)
    (hrun : run Chunked.step {} ops = some s) (hterminal : .terminal ∈ s.frames) :
    payload (s.frames.takeWhile (· ≠ .terminal)) = pushes (ops.takeWhile (· ≠ .finish)) ↔
      NothingPending ops := by
  have hinv : Inv s := inv_run inv_init hrun
  have hfinish : .finish ∈ ops := by
    by_contra hno
    have hcompleted := completed_run inv_init hno hrun
    rw [ends_run hrun hterminal] at hcompleted
    cases hcompleted
  -- the run up to `finish`, and from there on
  obtain ⟨after, hsplit⟩ := eq_takeWhile_append hfinish
  rw [hsplit] at hrun
  obtain ⟨s₁, hbefore, hrun⟩ := run_append.mp hrun
  obtain ⟨s₂, hstep, hafter⟩ := run_cons.mp hrun
  have hinv₁ : Inv s₁ := inv_run inv_init hbefore
  have hsucceeds : ∀ op ∈ ops.takeWhile (· ≠ .finish), Succeeds op :=
    fun op hop => hops op (List.takeWhile_subset _ hop)
  have haccounted : payload s₁.frames ++ s₁.pending = pushes (ops.takeWhile (· ≠ .finish)) :=
    accounted_run inv_init hsucceeds hbefore
  have hfinal : payload s.frames = payload s₁.frames := by
    cases hstep
    rw [payload_run hinv₁.complete.producedData (by simp) hafter, payload_producedData rfl]
  have hpending : NothingPending ops ↔ s₁.pending = [] := by
    constructor
    · intro h
      exact h s₁ hbefore
    · intro h t ht
      rw [hbefore, Option.some.injEq] at ht
      exact ht ▸ h
  rw [payload_takeWhile hinv, hfinal, hpending, ← haccounted]
  exact List.self_eq_append_right

/-- A stream that is finished when all of it is in a chunk. -/
theorem chunked_delivery_iff_flushed :
    payload ([Frame.chunk (bytes "ab"), .terminal].takeWhile (· ≠ .terminal)) =
        pushes ([ChunkedOp.attach, .startProduction, .push (bytes "ab"), .written none, .finish,
          .written none].takeWhile (· ≠ .finish)) ↔
      NothingPending
        [.attach, .startProduction, .push (bytes "ab"), .written none, .finish, .written none] :=
  chunked_delivery_iff _ (by simp [Succeeds])
    { completed := true, consuming := true, phase := .started
      frames := [.chunk (bytes "ab"), .terminal], ended := 1 }
    (by decide) (by decide)

/-- What is pushed while a chunk is written is lost when `finish` follows before the write
completes. -/
theorem chunked_delivery_loses :
    ¬ ∀ (ops : List ChunkedOp), (∀ op ∈ ops, Succeeds op) → ∀ s, run Chunked.step {} ops = some s →
      .terminal ∈ s.frames →
      payload (s.frames.takeWhile (· ≠ .terminal)) = pushes (ops.takeWhile (· ≠ .finish)) := by
  intro hclaim
  have h := hclaim
    [.attach, .startProduction, .push (bytes "a"), .push (bytes "b"), .finish, .written none]
    (by simp [Succeeds])
    { buffer := bytes "b", completed := true, consuming := true, hasConsumerAttached := true
      phase := .started, inFlight := [.terminal], frames := [.chunk (bytes "a"), .terminal] }
    (by decide) (by decide)
  exact absurd h (by decide)

end Attender.Http.Chunked
