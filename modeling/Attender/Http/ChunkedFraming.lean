import Attender.Http.ChunkedDelivery
import Attender.Library.Hex

/-!
# The framing of a chunked response

The bytes that `on_produce` assembles for a chunk, and what all that is written
behind the header reads as. Failing writes are among the steps: after one the
response has ended, and nothing is written any more.
-/

namespace Attender.Http

open Attender.Library

/-! ### The bytes of a chunk -/

/-- `producer::hexlen`, where `LOG2` is the position of the highest bit. -/
def hexlen (n : Nat) : Nat := if n = 0 then 1 else 1 + Nat.log2 n / 4

/-- `std::to_chars` in base 16 at the front of a vector, with room for `room` characters: the
vector, and the position behind the last character. Without enough room it reports
`value_too_large` and the end of the room. -/
def toChars (v : Bytes) (room n : Nat) : Bytes × Nat :=
  if (toHex n).length ≤ room then (overwrite v 0 (toHex n), (toHex n).length) else (v, room)

/-- The bytes that `on_produce` gives to the connection for what is available. -/
def chunkBytes (data : Bytes) : Bytes :=
  let avail := data.length
  let sizeLen := hexlen avail
  let (availBytes, p) := toChars (List.replicate (avail + sizeLen + 4) 0) sizeLen avail
  let availBytes := overwrite availBytes p CRLF
  let iter := sizeLen + 2
  let availBytes := overwrite availBytes iter data
  overwrite availBytes (iter + avail) CRLF

theorem length_toHex_hexlen (n : Nat) : (toHex n).length = hexlen n := by
  unfold hexlen
  split_ifs with hn
  · subst hn
    rfl
  · rw [length_toHex hn, log_sixteen hn, Nat.add_comm]

/-- What `std::to_chars` reports without enough room. -/
def valueTooLarge (room n : Nat) : Prop := room < (toHex n).length

instance (room n : Nat) : Decidable (valueTooLarge room n) := inferInstanceAs (Decidable (_ < _))

/-- The pieces that `on_produce` writes to the vector, with room for `sizeLen` digits, and where. -/
def chunkWrites (sizeLen : Nat) (data : Bytes) : List (Nat × Bytes) :=
  let avail := data.length
  let digits := if valueTooLarge sizeLen avail then [] else toHex avail
  let p := if valueTooLarge sizeLen avail then sizeLen else (toHex avail).length
  [(0, digits), (p, CRLF), (sizeLen + 2, data), (sizeLen + 2 + avail, CRLF)]

theorem chunkBytes_eq_writePieces (data : Bytes) :
    chunkBytes data =
      writePieces (List.replicate (data.length + hexlen data.length + 4) 0)
        (chunkWrites (hexlen data.length) data) := by
  have hlength := (length_toHex_hexlen data.length).le
  have hroom : ¬ valueTooLarge (hexlen data.length) data.length := Nat.not_lt.mpr hlength
  simp only [chunkBytes, toChars, if_pos hlength, chunkWrites, if_neg hroom]
  rfl

/-- With as much room as there are digits, no byte of the vector is left out or written twice. -/
theorem fills_chunkWrites {sizeLen : Nat} {data : Bytes}
    (h : sizeLen = (toHex data.length).length) :
    Fills (data.length + sizeLen + 4) 0 (chunkWrites sizeLen data) := by
  have hroom : ¬ valueTooLarge sizeLen data.length := Nat.not_lt.mpr h.ge
  have hcrlf : CRLF.length = 2 := rfl
  simp only [chunkWrites, if_neg hroom, Fills, hcrlf, true_and]
  omega

/-- **A chunk is assembled without gap or overrun.** -/
theorem chunkBytes_eq (data : Bytes) :
    chunkBytes data = toHex data.length ++ CRLF ++ data ++ CRLF := by
  have hlength := length_toHex_hexlen data.length
  have hroom : ¬ valueTooLarge (hexlen data.length) data.length := Nat.not_lt.mpr hlength.le
  have hfills := (fills_chunkWrites hlength.symm).writePieces_eq (v := [])
  rw [List.length_nil, Nat.sub_zero, List.nil_append, List.nil_append] at hfills
  rw [chunkBytes_eq_writePieces, hfills, chunkWrites, if_neg hroom]
  simp

/-! ### Streams of chunks -/

/-- A hexadecimal length without leading zeros. -/
structure IsChunkSize (size : Bytes) (n : Nat) : Prop where
  digits : ∀ b ∈ size, isHexDigit b
  leading : ∃ b s, size = b :: s ∧ b ≠ 48
  value : hexValue size = n

/-- What all that is written behind the header of a chunked response reads as: chunks with some
payloads, and at most one terminal chunk with nothing behind it. -/
inductive ChunkStream : List Bytes → Bytes → Prop where
  /-- Nothing has been written. -/
  | nil : ChunkStream [] []
  /-- The terminal chunk. -/
  | terminal : ChunkStream [] (bytes "0\r\n\r\n")
  /-- A chunk that is not empty, and more. -/
  | chunk {size d : Bytes} {ds : List Bytes} {t : Bytes} : IsChunkSize size d.length → d ≠ [] →
      ChunkStream ds t → ChunkStream (d :: ds) (size ++ CR :: LF :: (d ++ CR :: LF :: t))

theorem IsChunkSize.not_mem_cr {size : Bytes} {n : Nat} (h : IsChunkSize size n) : CR ∉ size := by
  intro hmem
  have hdigit := h.digits CR hmem
  exact absurd hdigit (by decide)

/-- A size begins with a digit that is not zero, so no terminal chunk does. -/
theorem IsChunkSize.ne_terminal {size t : Bytes} {n : Nat} (h : IsChunkSize size n) :
    size ++ t ≠ bytes "0\r\n\r\n" := by
  obtain ⟨b, s, rfl, hb⟩ := h.leading
  intro heq
  exact hb (List.cons.inj heq).1

/-- **A stream of chunks reads in one way.** -/
theorem ChunkStream.unique {ds ds' : List Bytes} {t : Bytes} (h : ChunkStream ds t)
    (h' : ChunkStream ds' t) : ds = ds' := by
  induction h generalizing ds' with
  | nil =>
    generalize ht : ([] : Bytes) = t at h'
    cases h' with
    | nil => rfl
    | terminal => rfl
    | chunk hsize =>
      obtain ⟨b, s, rfl, -⟩ := hsize.leading
      cases ht
  | terminal =>
    generalize ht : bytes "0\r\n\r\n" = t at h'
    cases h' with
    | nil => rfl
    | terminal => rfl
    | chunk hsize => exact absurd ht.symm hsize.ne_terminal
  | @chunk size d ds t hsize hd _ ih =>
    generalize ht : size ++ CR :: LF :: (d ++ CR :: LF :: t) = u at h'
    cases h' with
    | nil => simp at ht
    | terminal => exact absurd ht hsize.ne_terminal
    | @chunk size' d' ds' t' hsize' hd' hrest' =>
      have hcut := cut_eq_some_iff.mpr ⟨ht, hsize'.not_mem_cr⟩
      rw [cut_eq_some_iff.mpr ⟨rfl, hsize.not_mem_cr⟩, Option.some.injEq, Prod.mk.injEq] at hcut
      obtain ⟨rfl, hbody⟩ := hcut
      have hlength : d.length = d'.length := by rw [← hsize.value, hsize'.value]
      obtain ⟨rfl, htail⟩ := List.append_inj (List.cons.inj hbody).2 hlength
      rw [ih ((List.cons.inj (List.cons.inj htail).2).2 ▸ hrest')]

/-! ### What is on the wire -/

/-- The bytes of what is written. -/
def frameBytes : Frame → Bytes
  | .chunk payload => chunkBytes payload
  | .terminal => bytes "0\r\n\r\n"

/-- All that has been given to the connection behind the header. -/
def wire (fs : List Frame) : Bytes := fs.flatMap frameBytes

/-- Chunks that are not empty, and perhaps a terminal chunk behind them, are a stream. -/
theorem chunkStream_wire {ds : List Bytes} (hds : ∀ d ∈ ds, d ≠ []) {fs : List Frame}
    (hfs : fs = [] ∨ fs = [.terminal]) : ChunkStream ds (wire (ds.map .chunk ++ fs)) := by
  induction ds with
  | nil =>
    rcases hfs with rfl | rfl
    · exact .nil
    · exact .terminal
  | cons d ds ih =>
    rw [List.forall_mem_cons] at hds
    have hsize : IsChunkSize (toHex d.length) d.length :=
      ⟨fun b hb => isHexDigit_of_mem_toHex hb,
        head_toHex fun h => hds.1 (List.length_eq_zero_iff.mp h), hexValue_toHex _⟩
    have hwire : wire ((d :: ds).map .chunk ++ fs) =
        toHex d.length ++ CR :: LF :: (d ++ CR :: LF :: wire (ds.map .chunk ++ fs)) := by
      simp [wire, frameBytes, chunkBytes_eq]
    rw [hwire]
    exact .chunk hsize hds.1 (ih hds.2)

namespace Chunked

/-! ### What a step writes -/

/-- Nothing is written, or the terminal chunk, or a chunk that is not empty. -/
def Writes (s s' : Chunked) : Prop :=
  s'.frames = s.frames ∨ s'.frames = s.frames ++ [.terminal] ∨
    ∃ d, d ≠ [] ∧ s'.frames = s.frames ++ [.chunk d]

theorem writes_onProduce (s : Chunked) : Writes s s.onProduce := by
  rcases onProduce_cases s with ⟨-, e⟩ | ⟨-, -, e⟩ | ⟨-, hb, e⟩ <;> rw [e]
  · exact Or.inr (Or.inl rfl)
  · exact Or.inl rfl
  · exact Or.inr (Or.inr ⟨s.buffer, hb, rfl⟩)

theorem writes_producedData (s : Chunked) : Writes s s.producedData := by
  unfold producedData
  split_ifs
  · exact Or.inl rfl
  · exact writes_onProduce s
  · exact Or.inl rfl

theorem writes_hasConsumed (s : Chunked) (size : Nat) : Writes s (s.hasConsumed size) := by
  rw [hasConsumed_eq]
  split_ifs
  · exact writes_onProduce { s with buffer := s.buffer.drop size }
  · exact Or.inl rfl
  · exact Or.inl rfl

/-- **One step** writes at most one chunk. -/
theorem writes_step {s s' : Chunked} {op : ChunkedOp} (h : Inv s) (hstep : s.step op = some s') :
    Writes s s' := by
  cases op with
  | push data =>
    cases hstep
    exact writes_producedData { s with buffer := s.buffer ++ data }
  | flush =>
    cases hstep
    exact writes_producedData s
  | finish =>
    cases hstep
    exact writes_producedData { s with completed := true }
  | attach =>
    simp only [Chunked.step] at hstep
    split_ifs at hstep
    cases hstep
    exact Or.inl rfl
  | startProduction =>
    simp only [Chunked.step] at hstep
    split_ifs at hstep
    cases hstep
    rw [startProduction]
    split_ifs
    · exact writes_producedData { s with phase := .started }
    · exact Or.inl rfl
  | written ec =>
    rcases h.written_cases hstep with ⟨d, -, -, rfl⟩ | ⟨-, -, rfl⟩
    · exact writes_hasConsumed { s with inFlight := [] } d.length
    · exact Or.inl rfl

/-- **The end of the response**: nothing is written any more. -/
theorem frames_step_of_ended {s s' : Chunked} {op : ChunkedOp} (h : Inv s) (hended : 0 < s.ended)
    (hstep : s.step op = some s') : s'.frames = s.frames ∧ 0 < s'.ended := by
  have hconsumer : s.hasConsumerAttached = false := by
    rw [← Bool.not_eq_true, h.attached]
    omega
  have hconsuming : s.consuming := h.consuming.mpr (Or.inr hended)
  have hphase := h.detached hconsuming
  cases op with
  | push data =>
    cases hstep
    rw [producedData_of_unattached (s := { s with buffer := s.buffer ++ data }) hconsumer]
    exact ⟨rfl, hended⟩
  | flush =>
    cases hstep
    rw [producedData_of_unattached hconsumer]
    exact ⟨rfl, hended⟩
  | finish =>
    cases hstep
    rw [producedData_of_unattached (s := { s with completed := true }) hconsumer]
    exact ⟨rfl, hended⟩
  | attach =>
    rw [Chunked.step, if_neg hphase] at hstep
    cases hstep
  | startProduction =>
    simp only [Chunked.step] at hstep
    split_ifs at hstep
    cases hstep
    rw [startProduction]
    split_ifs
    · rw [producedData_of_unattached (s := { s with phase := .started }) hconsumer]
      exact ⟨rfl, hended⟩
    · exact ⟨rfl, hended⟩
  | written ec =>
    rcases h.written_cases hstep with ⟨d, hf, -, -⟩ | ⟨-, -, rfl⟩
    · rcases h.flight with hf' | ⟨d', -, -, -, hzero⟩ | ⟨-, -, hzero⟩
      · rw [hf'] at hf
        cases hf
      · omega
      · omega
    · exact ⟨rfl, Nat.succ_pos _⟩

/-! ### Whole runs -/

/-- What holds of the bytes pushed so far: they are accounted for as long as the response has not
ended, and the chunks hold the first of them. -/
structure Framed (pushed : Bytes) (s : Chunked) : Prop where
  inv : Inv s
  accounted : s.ended = 0 → s.accounted = pushed
  order : payload s.frames <+: pushed
  nonempty : ∀ d, .chunk d ∈ s.frames → d ≠ []

theorem framed_init : Framed [] {} :=
  ⟨inv_init, fun _ => rfl, List.prefix_refl _, fun _ hd => absurd hd List.not_mem_nil⟩

theorem framed_step {s s' : Chunked} {op : ChunkedOp} {before : Bytes} (h : Framed before s)
    (hstep : s.step op = some s') : Framed (before ++ pushed op) s' := by
  have hinv := inv_step h.inv hstep
  have hnonempty : ∀ d, .chunk d ∈ s'.frames → d ≠ [] := by
    intro d hd
    rcases writes_step h.inv hstep with e | e | ⟨d', hd', e⟩
    · exact h.nonempty d (e ▸ hd)
    · rw [e, List.mem_append, List.mem_singleton] at hd
      exact h.nonempty d (hd.resolve_right nofun)
    · rw [e, List.mem_append, List.mem_singleton] at hd
      rcases hd with hd | hd
      · exact h.nonempty d hd
      · cases hd
        exact hd'
  by_cases hended : 0 < s.ended
  · obtain ⟨hframes, hended'⟩ := frames_step_of_ended h.inv hended hstep
    refine ⟨hinv, fun hzero => absurd hzero (Nat.pos_iff_ne_zero.mp hended'), ?_, hnonempty⟩
    rw [hframes]
    exact h.order.trans (List.prefix_append _ _)
  have hzero : s.ended = 0 := by omega
  by_cases hop : Succeeds op
  · have haccounted : s'.accounted = before ++ pushed op := by
      rw [accounted_step h.inv hop hstep, h.accounted hzero]
    exact ⟨hinv, fun _ => haccounted, haccounted ▸ List.prefix_append _ _, hnonempty⟩
  · -- the write that fails was the only one, and it ends the response
    obtain ⟨ec, rfl⟩ : ∃ ec, op = .written (some ec) := by
      simpa only [Succeeds, not_forall, not_not] using hop
    rcases h.inv.written_cases hstep with ⟨-, -, hnone, -⟩ | ⟨-, -, rfl⟩
    · cases hnone
    · refine ⟨hinv, fun hzero => absurd hzero (Nat.succ_ne_zero _), ?_, hnonempty⟩
      exact h.order.trans (List.prefix_append _ _)

theorem framed_run {ops : List ChunkedOp} {s s' : Chunked} {before : Bytes} (h : Framed before s)
    (hrun : run Chunked.step s ops = some s') : Framed (before ++ pushes ops) s' := by
  induction ops generalizing s before with
  | nil =>
    rw [run_nil, Option.some.injEq] at hrun
    rw [pushes, List.flatMap_nil, List.append_nil, ← hrun]
    exact h
  | cons op ops ih =>
    obtain ⟨s₁, hstep, hrun⟩ := run_cons.mp hrun
    have htail := ih (framed_step h hstep) hrun
    rw [List.append_assoc] at htail
    exact htail

theorem payload_chunks (ds : List Bytes) {fs : List Frame} (hfs : fs = [] ∨ fs = [.terminal]) :
    payload (ds.map .chunk ++ fs) = ds.flatten := by
  have hend : payload fs = [] := by rcases hfs with rfl | rfl <;> rfl
  rw [payload_append, hend, List.append_nil]
  induction ds with
  | nil => rfl
  | cons d ds ih =>
    rw [List.map_cons, List.flatten_cons, ← ih]
    rfl

/-- **The framing of a chunked response**: at every moment at most one write is in flight, and none
before the header is written; and what has been written behind the header reads, in one way, as
chunks and at most one terminal chunk at the end, whose payloads are the first of the bytes
pushed. -/
theorem chunked_framing (ops : List ChunkedOp) (s : Chunked)
    (hrun : run Chunked.step {} ops = some s) :
    s.inFlight.length ≤ 1 ∧ (s.phase = .detached → s.inFlight = []) ∧
      ∃! ds, ChunkStream ds (wire s.frames) ∧ ds.flatten <+: pushes ops := by
  have hframed : Framed (pushes ops) s := framed_run framed_init hrun
  refine ⟨?_, fun hphase => (hframed.inv.of_detached hphase).2.1, ?_⟩
  · rcases hframed.inv.flight with hf | ⟨d, hf, -⟩ | ⟨hf, -⟩ <;> rw [hf] <;> simp
  · obtain ⟨ds, hds⟩ := hframed.inv.order
    generalize hend : (if Frame.terminal ∈ s.frames then [Frame.terminal] else []) = fs at hds
    have hfs : fs = [] ∨ fs = [.terminal] := by
      split_ifs at hend
      · exact Or.inr hend.symm
      · exact Or.inl hend.symm
    have hnonempty : ∀ d ∈ ds, d ≠ [] := by
      intro d hd
      refine hframed.nonempty d ?_
      rw [hds]
      exact List.mem_append_left _ (List.mem_map_of_mem hd)
    have hstream : ChunkStream ds (wire s.frames) := hds ▸ chunkStream_wire hnonempty hfs
    refine ⟨ds, ⟨hstream, ?_⟩, fun ds' h' => h'.1.unique hstream⟩
    rw [← payload_chunks ds hfs, ← hds]
    exact hframed.order

/-- A chunk whose write fails while more is pushed. -/
theorem chunked_framing_fails :
    ∃! ds, ChunkStream ds (wire [.chunk (bytes "ab")]) ∧
      ds.flatten <+: pushes [.attach, .startProduction, .push (bytes "ab"), .push (bytes "c"),
        .written (some .eof), .flush] :=
  (chunked_framing _ { buffer := bytes "abc", consuming := true, phase := .started,
                       frames := [.chunk (bytes "ab")], ended := 1 } (by decide)).2.2

end Chunked

end Attender.Http
