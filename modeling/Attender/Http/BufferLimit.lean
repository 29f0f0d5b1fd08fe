import Attender.Http.HeaderGrammar

/-!
# The limit of the header buffer

`feed` tests the size of `header_buffer_` with the bytes of the last read in it,
whether they belong to the header or to the body. What the buffer holds before
a read is what stands behind the last word or line that was complete, so where a
header is cut into reads says when a read is refused.
-/

namespace Attender.Http

open Attender.Library HeaderSection

variable {cfg : Config}

/-! ### What is off the buffer -/

/-- How much of the first `n` bytes is taken off, where a piece is the number of its bytes and
of the bytes behind it that must be there to see its end. -/
def consumed : List (Nat × Nat) → Nat → Nat
  | [], _ => 0
  | (length, ahead) :: pieces, n =>
    if length + ahead ≤ n then length + consumed pieces (n - length) else 0

/-- The lines of a header, each with its end. -/
def linePieces (lines : List Bytes) : List (Nat × Nat) := lines.map fun l => (l.length + 2, 0)

/-- The pieces of a header section up to its empty line: two words with the space behind
them, the protocol and the version, which end at the `CR`, the end of the start line, and
the lines. -/
def pieces (h : HeaderSection) : List (Nat × Nat) :=
  (h.method.length + 1, 0) :: (h.url.length + 1, 0) ::
    (h.protocol.length + 1 + h.version.length, 1) :: (2, 0) :: linePieces h.lines

/-- The reader `d` waits in `p` with the pieces taken off its buffer that are complete. -/
def WaitsBehind (d : RequestParser → FeedResult) (p : RequestParser) (ps : List (Nat × Nat)) :
    Prop :=
  ∃ p', d p = .waiting p' ∧
    p'.headerBuffer = p.headerBuffer.drop (consumed ps p.headerBuffer.length)

theorem WaitsBehind.stop {d : RequestParser → FeedResult} {p : RequestParser} {length ahead : Nat}
    {ps : List (Nat × Nat)} (hd : d p = .waiting p) (hlt : p.headerBuffer.length < length + ahead) :
    WaitsBehind d p ((length, ahead) :: ps) := by
  refine ⟨p, hd, ?_⟩
  rw [consumed, if_neg (by omega), List.drop_zero]

/-- A piece that is complete is taken off, and the next reader goes on. -/
theorem WaitsBehind.next {d d' : RequestParser → FeedResult} {p p₁ : RequestParser} {a : Bytes}
    {ahead : Nat} {ps : List (Nat × Nat)} (hd : d p = d' p₁)
    (hp : p.headerBuffer = a ++ p₁.headerBuffer) (hahead : ahead ≤ p₁.headerBuffer.length)
    (h : WaitsBehind d' p₁ ps) : WaitsBehind d p ((a.length, ahead) :: ps) := by
  obtain ⟨p', h, hbuffer⟩ := h
  refine ⟨p', hd.trans h, ?_⟩
  have hlength : p.headerBuffer.length = a.length + p₁.headerBuffer.length := by
    rw [hp, List.length_append]
  rw [consumed, if_pos (by omega), hbuffer, hlength, Nat.add_sub_cancel_left, hp, List.drop_append,
    List.drop_of_length_le (Nat.le_add_right _ _), List.nil_append, Nat.add_sub_cancel_left]

/-! ### A part of the header in the buffer -/

/-- What has come of `t` while it is not all there. -/
structure PartOf (s t : Bytes) : Prop where
  start : s <+: t
  short : s.length < t.length

/-- What has come of `a ++ b` is a part of `a`, or `a` and a part of `b`. -/
theorem PartOf.append {s a b : Bytes} (h : PartOf s (a ++ b)) :
    PartOf s a ∨ ∃ s', s = a ++ s' ∧ PartOf s' b := by
  rcases Nat.lt_or_ge s.length a.length with hlt | hge
  · exact Or.inl ⟨List.prefix_of_prefix_length_le h.start (List.prefix_append a b) hlt.le, hlt⟩
  · obtain ⟨s', rfl⟩ := List.prefix_of_prefix_length_le (List.prefix_append a b) h.start hge
    have hshort := h.short
    rw [List.length_append, List.length_append] at hshort
    exact Or.inr ⟨s', rfl, (List.prefix_append_right_inj a).mp h.start, by omega⟩

theorem PartOf.of_concat {s a : Bytes} {b : Byte} (h : PartOf s (a ++ [b])) : s <+: a :=
  List.prefix_of_prefix_length_le h.start (List.prefix_append a [b])
    (Nat.lt_succ_iff.mp (by simpa using h.short))

theorem getWord_of_start {w s : Bytes} (hw : IsWord w) (h : s <+: w) :
    getWordFromBuffer s = none := by
  cases hs : getWordFromBuffer s with
  | none => rfl
  | some wr =>
    obtain ⟨rfl, -, -⟩ := getWord_eq_some_iff.mp hs
    rcases getWord_rest hs with ⟨r, hr⟩ | ⟨r, hr⟩
    · exact absurd (h.subset (by simp [hr])) hw.1
    · exact absurd (h.subset (by simp [hr])) hw.2

theorem getLine_of_start {l s : Bytes} (hl : ¬ CRLF <:+: l) (h : s <+: l ++ [CR]) :
    getLineFromBuffer s = none := by
  refine getLine_eq_none_iff.mpr ?_
  intro hs
  rcases List.infix_concat_iff.mp (hs.trans h.isInfix) with hsuf | hinf
  · rcases List.suffix_concat_iff.mp hsuf with hnil | ⟨t, ht, -⟩
    · cases hnil
    · have : LF = CR := by simpa using congrArg List.getLast? ht
      exact absurd this (by decide)
  · exact hl hinf

/-- A word of the start line stays in the buffer until the space behind it is there. -/
theorem waitsBehind_word {at_ next : ParserProgress}
    {store : RequestHeaderIntermediate → Bytes → RequestHeaderIntermediate}
    {rest : RequestParser → FeedResult} {p : RequestParser} {w tail : Bytes} {ps : List (Nat × Nat)}
    (hat : p.progress = at_) (hw : IsWord w) (hp : PartOf p.headerBuffer (w ++ SP :: tail))
    (hrest : ∀ p₁ : RequestParser, p₁.progress = next → p₁.fieldParseCounter = p.fieldParseCounter →
      PartOf p₁.headerBuffer tail → WaitsBehind rest p₁ ps) :
    WaitsBehind (fun p => (parseWord at_ next store p).bind rest) p ((w.length + 1, 0) :: ps) := by
  rw [List.append_cons] at hp
  rcases hp.append with hp | ⟨s, e, hs⟩
  · refine WaitsBehind.stop ?_ (by simpa using hp.short)
    rw [parseWord_of_none hat (getWord_of_start hw hp.of_concat), Verdict.bind_waiting]
  · have hdone := (@parseWord_eq_done_iff _ next store _ _ hat).mpr
      ⟨w, s, by simpa using e, hw, rfl⟩
    rw [← List.length_singleton (a := SP), ← List.length_append]
    exact WaitsBehind.next (Verdict.bind_of_done hdone rest) e (Nat.zero_le _) (hrest _ rfl rfl hs)

theorem waitsBehind_protocol {rest : RequestParser → FeedResult} {p : RequestParser}
    {pr v tail : Bytes} {ps : List (Nat × Nat)} (hat : p.progress = .protocolAndVersion)
    (hpr : IsWord pr) (hslash : 47 ∉ pr) (hv : IsWord v)
    (hp : PartOf p.headerBuffer (pr ++ 47 :: (v ++ CR :: tail)))
    (hrest : ∀ p₁ : RequestParser, p₁.progress = .protocolAndVersionPhase2 →
      p₁.fieldParseCounter = p.fieldParseCounter → PartOf p₁.headerBuffer (CR :: tail) →
      WaitsBehind rest p₁ ps) :
    WaitsBehind (fun p => (parseProtocolAndVersion p).bind rest) p
      ((pr.length + 1 + v.length, 1) :: ps) := by
  have hword := slash_word hpr hv
  have hlength : (pr ++ 47 :: v).length = pr.length + 1 + v.length := by simp; omega
  have hsplit : pr ++ 47 :: (v ++ CR :: tail) = (pr ++ 47 :: v) ++ [CR] ++ tail := by simp
  rw [hsplit] at hp
  rcases hp.append with hp | ⟨s, e, hs⟩
  · have hshort : p.headerBuffer.length < pr.length + 1 + v.length + 1 := by
      rw [← hlength, ← List.length_singleton (a := CR), ← List.length_append]
      exact hp.short
    refine WaitsBehind.stop ?_ hshort
    have hw := getWord_of_start hword hp.of_concat
    rw [parseProtocolAndVersion, onlyIf, if_pos hat,
      token_of_none (by rw [RequestParser.getWord, hw]; rfl), Verdict.bind_waiting]
  · have hdone := (parseProtocolAndVersion_eq_done_iff hat).mpr
      ⟨pr, v, CR :: s, by simpa using e, ⟨hpr, hslash, hv⟩, Or.inr rfl, rfl⟩
    rw [← hlength]
    exact WaitsBehind.next (Verdict.bind_of_done hdone rest) (by simpa using e) (by simp)
      (hrest _ rfl rfl ⟨(List.prefix_cons_inj CR).mpr hs.start, by simpa using hs.short⟩)

theorem waitsBehind_end {rest : RequestParser → FeedResult} {p : RequestParser} {tail : Bytes}
    {ps : List (Nat × Nat)} (hat : p.progress = .protocolAndVersionPhase2)
    (hp : PartOf p.headerBuffer (CR :: LF :: tail))
    (hrest : ∀ p₁ : RequestParser, p₁.progress = .fields →
      p₁.fieldParseCounter = p.fieldParseCounter → PartOf p₁.headerBuffer tail →
      WaitsBehind rest p₁ ps) :
    WaitsBehind (fun p => (parsePhase2 p).bind rest) p ((2, 0) :: ps) := by
  rcases PartOf.append (a := CRLF) hp with hp | ⟨s, e, hs⟩
  · refine WaitsBehind.stop ?_ (by simpa using hp.short)
    have hl := getLine_of_start (l := []) (fun h => by simpa using h.length_le)
      (hp.of_concat (a := [CR]))
    rw [parsePhase2, onlyIf, if_pos hat, token_of_none (by rw [RequestParser.getLine, hl]; rfl),
      Verdict.bind_waiting]
  · have hdone := (parsePhase2_eq_done_iff hat).mpr ⟨s, e, rfl⟩
    exact WaitsBehind.next (a := CRLF) (Verdict.bind_of_done hdone rest) e (Nat.zero_le _)
      (hrest _ rfl rfl hs)

theorem linePieces_cons (l : Bytes) (ls : List Bytes) :
    linePieces (l :: ls) = ((l ++ CRLF).length, 0) :: linePieces ls := by
  simp [linePieces]

/-- Each line of the header stays until it is all there. -/
theorem waitsBehind_lines {ls : List Bytes} (hls : ∀ l ∈ ls, IsFieldLine l) {p : RequestParser}
    (hn : p.fieldParseCounter + ls.length ≤ cfg.headerFieldMax)
    (hp : PartOf p.headerBuffer (linesText ls ++ CRLF)) :
    WaitsBehind (readFields cfg) p (linePieces ls) := by
  induction ls generalizing p with
  | nil =>
    have hl : getLineFromBuffer p.headerBuffer = none :=
      getLine_of_start (l := []) (fun h => by simpa using h.length_le) (hp.of_concat (a := [CR]))
    exact ⟨p, readFields_of_none hl, rfl⟩
  | cons l ls ih =>
    obtain ⟨hl, hls'⟩ := List.forall_mem_cons.mp hls
    rw [List.length_cons] at hn
    have hsplit : linesText (l :: ls) ++ CRLF = (l ++ CRLF) ++ (linesText ls ++ CRLF) := by
      simp [linesText_cons]
    rw [hsplit] at hp
    rw [linePieces_cons]
    rcases hp.append with hp | ⟨s, e, hs⟩
    · refine WaitsBehind.stop ?_ hp.short
      exact readFields_of_none
        (getLine_of_start hl.unbroken (PartOf.of_concat (b := LF) (by simpa using hp)))
    · obtain ⟨c, l', rfl, -⟩ := hl.start
      have hline : getLineFromBuffer p.headerBuffer = some (c :: l', s) :=
        getLine_eq_some_iff.mpr ⟨by simpa using e, hl.unbroken⟩
      have hfield : readField cfg p c l' = .ok (storeLine p.header (c :: l')) :=
        (readField_eq_ok_iff hl.unbroken).mpr ⟨hl, by omega, rfl⟩
      exact WaitsBehind.next (a := c :: l' ++ CRLF) (readFields_of_ok hline hfield) e
        (Nat.zero_le _) (ih hls' (by show p.fieldParseCounter + 1 + ls.length ≤ _; omega) hs)

/-- **What a part of a header leaves in the buffer.** -/
theorem waitsBehind_header {h : HeaderSection} (hvalid : h.Valid cfg) {s : Bytes}
    (hs : PartOf s h.text) : WaitsBehind (drain cfg) (RequestParser.append {} s) (pieces h) := by
  obtain ⟨hm, hu, hpr, hslash, hv, hn, hls⟩ := hvalid
  rw [show drain cfg = _ from funext drain_eq]
  refine waitsBehind_word rfl hm hs ?_
  intro p₁ hat₁ hn₁ hp₁
  refine waitsBehind_word hat₁ hu hp₁ ?_
  intro p₂ hat₂ hn₂ hp₂
  refine waitsBehind_protocol hat₂ hpr hslash hv hp₂ ?_
  intro p₃ hat₃ hn₃ hp₃
  refine waitsBehind_end hat₃ hp₃ ?_
  intro p₄ hat₄ hn₄ hp₄
  refine waitsBehind_lines hls ?_ hp₄
  rw [hn₄, hn₃, hn₂, hn₁]
  exact (Nat.zero_add _).le.trans hn

/-! ### Reads of a part of the header -/

theorem parseWord_ne_rejected {at_ next : ParserProgress}
    {store : RequestHeaderIntermediate → Bytes → RequestHeaderIntermediate} {e : ParserError}
    (p : RequestParser) : parseWord at_ next store p ≠ .rejected e := by
  by_cases hat : p.progress = at_
  · rcases getWord_cases p.headerBuffer with hw | ⟨w, r, hw⟩ | ⟨w, r, hw⟩
    · rw [parseWord_of_none hat hw]; exact nofun
    · rw [parseWord_of_space hat hw]; exact nofun
    · rw [parseWord_of_cr hat hw]; exact nofun
  · rw [parseWord_of_ne hat]; exact nofun

theorem readField_ne_headerBuffer {p : RequestParser} {c : Byte} {l : Bytes} :
    readField cfg p c l ≠ .error .headerBuffer := by
  unfold readField addField
  split_ifs
  · exact nofun
  · split
    · exact nofun
    · dsimp only
      split_ifs
      · split <;> exact nofun
      · exact nofun
  · exact nofun

theorem readFields_ne_headerBuffer (p : RequestParser) :
    readFields cfg p ≠ .rejected .headerBuffer := by
  induction p using readFields.induct cfg with
  | case1 p hl =>
    rw [readFields_of_none hl]
    intro h
    cases h
  | case2 p buffer hl =>
    rw [readFields_of_empty hl]
    intro h
    cases h
  | case3 p c line buffer hl e he =>
    rw [readFields_of_error hl he, Ne, Verdict.rejected.injEq]
    rintro rfl
    exact readField_ne_headerBuffer he
  | case4 p c line buffer hl header he ih => rwa [readFields_of_ok hl he]

theorem drain_ne_headerBuffer (p : RequestParser) : drain cfg p ≠ .rejected .headerBuffer := by
  rw [drain_eq]
  refine Verdict.bind_ne_rejected (parseWord_ne_rejected p) ?_
  intro p
  refine Verdict.bind_ne_rejected (parseWord_ne_rejected p) ?_
  intro p
  refine Verdict.bind_ne_rejected ?_ fun p => Verdict.bind_ne_rejected ?_ readFields_ne_headerBuffer
  · unfold parseProtocolAndVersion onlyIf token
    split_ifs
    · split
      · exact nofun
      · next w p' _ =>
        rcases storeProtocol_cases w with hu | ⟨l, r, hu⟩ <;> rw [hu p'] <;> exact nofun
    · exact nofun
  · unfold parsePhase2 onlyIf token
    split_ifs
    · split
      · exact nofun
      · next l p' _ => rcases endStartLine_cases l with hu | hu <;> rw [hu p'] <;> exact nofun
    · exact nofun

theorem feed_eq_drain {p : RequestParser} {c : Bytes} (hp : p.progress ≠ .body)
    (hfits : p.headerBuffer.length + c.length ≤ cfg.headerBufferMax) :
    feed cfg p c = drain cfg (p.append c) := by
  have hfin : p.finished = false := by simpa [RequestParser.finished] using hp
  rw [feed, if_neg (by simp [hfin]), if_neg (by simpa using hfits)]

theorem feed_eq_rejected {p : RequestParser} {c : Bytes} (hp : p.progress ≠ .body)
    (hover : cfg.headerBufferMax < p.headerBuffer.length + c.length) :
    feed cfg p c = .rejected .headerBuffer := by
  have hfin : p.finished = false := by simpa [RequestParser.finished] using hp
  rw [feed, if_neg (by simp [hfin]), if_pos (by simpa using hover)]

/-- What a run that is not refused holds after a part of a header. -/
theorem feedAll_waits {h : HeaderSection} (hvalid : h.Valid cfg) {cs : List Bytes}
    (hcs : PartOf cs.flatten h.text)
    (hrun : (feedAll (feed cfg) {} cs).1 ≠ .rejected .headerBuffer) :
    ∃ p, feedAll (feed cfg) {} cs = (.waiting p, []) ∧ p.progress ≠ .body ∧
      p.headerBuffer = cs.flatten.drop (consumed (pieces h) cs.flatten.length) := by
  obtain ⟨q, hq, hbuffer⟩ := waitsBehind_header hvalid hcs
  have hrel := feedAll_drain cfg cs
  rw [← (feedAll_feed cs).resolve_right hrun, hq] at hrel
  generalize hr : feedAll (feed cfg) {} cs = run at hrel
  obtain ⟨v, rest⟩ := run
  cases v with
  | done p => cases hrel
  | rejected e => cases hrel
  | waiting p =>
    obtain rfl := feedAll_waiting hr
    cases hrel with
    | waiting hsame =>
      have hprogress : q.progress ≠ .body :=
        drain_waiting_finished (by rw [append_progress]; decide) hq
      refine ⟨p, rfl, ?_, ?_⟩
      · rwa [← core_progress, show core p = core q from hsame, core_progress]
      · rwa [← core_headerBuffer, show core p = core q from hsame, core_headerBuffer]

theorem feedAll_concat_ne_headerBuffer {cs : List Bytes} {c : Bytes} {p : RequestParser}
    (hrun : feedAll (feed cfg) {} cs = (.waiting p, [])) (hp : p.progress ≠ .body)
    (hfits : p.headerBuffer.length + c.length ≤ cfg.headerBufferMax) :
    (feedAll (feed cfg) {} (cs ++ [c])).1 ≠ .rejected .headerBuffer := by
  rw [feedAll_append hrun, feedAll, feed_eq_drain hp hfits]
  cases hd : drain cfg (p.append c) with
  | done p' =>
    intro h
    cases h
  | waiting p' =>
    intro h
    cases h
  | rejected e =>
    intro he
    exact drain_ne_headerBuffer (p.append c) (hd.trans he)

/-- A run over reads that hold a part of a header that is small enough is not refused. -/
theorem feedAll_ne_headerBuffer {h : HeaderSection} (hvalid : h.Valid cfg)
    (hlimit : h.text.length ≤ cfg.headerBufferMax) (cs : List Bytes)
    (hcs : PartOf cs.flatten h.text) : (feedAll (feed cfg) {} cs).1 ≠ .rejected .headerBuffer := by
  induction cs using List.reverseRecOn with
  | nil => exact nofun
  | append_singleton cs c ih =>
    rw [List.flatten_append, List.flatten_singleton] at hcs
    have hpart : PartOf cs.flatten h.text := by
      have hshort := hcs.short
      rw [List.length_append] at hshort
      exact ⟨(List.prefix_append _ _).trans hcs.start, by omega⟩
    obtain ⟨p, hrun, hp, hbuffer⟩ := feedAll_waits hvalid hpart (ih hpart)
    have hfits : p.headerBuffer.length + c.length ≤ cfg.headerBufferMax := by
      have hshort := hcs.short
      rw [List.length_append] at hshort
      rw [hbuffer, List.length_drop]
      omega
    exact feedAll_concat_ne_headerBuffer hrun hp hfits

/-! ### The limit -/

/-- The read with the last byte of the header ends at most `headerBufferMax` bytes behind the last
word or line that was complete before it. -/
def FitsBuffer (cfg : Config) (h : HeaderSection) (cs : List Bytes) : Prop :=
  ∀ before c after, cs = before ++ c :: after →
    before.flatten.length < h.text.length → h.text.length ≤ before.flatten.length + c.length →
      before.flatten.length + c.length ≤
        consumed (pieces h) before.flatten.length + cfg.headerBufferMax

theorem consumed_le (ps : List (Nat × Nat)) (n : Nat) : consumed ps n ≤ n := by
  induction ps generalizing n with
  | nil => exact Nat.zero_le n
  | cons q ps ih =>
    obtain ⟨length, ahead⟩ := q
    rw [consumed]
    split_ifs with h
    · have := ih (n - length)
      omega
    · exact Nat.zero_le n

/-- **The limit of the header buffer**: a request whose header is small enough is not refused
for the size of the buffer exactly when the read that completes the header fits. -/
theorem header_limit_iff (cfg : Config) (h : HeaderSection) (hvalid : h.Valid cfg)
    (hlimit : h.text.length ≤ cfg.headerBufferMax) (body : Bytes) (cs : List Bytes)
    (hcs : cs.flatten = h.text ++ body) :
    (feedAll (feed cfg) {} cs).1 ≠ .rejected .headerBuffer ↔ FitsBuffer cfg h cs := by
  -- what the read `c` with the last byte of the header comes to
  have hread : ∀ before c after, cs = before ++ c :: after → before.flatten.length < h.text.length →
      h.text.length ≤ before.flatten.length + c.length →
      ((feedAll (feed cfg) {} cs).1 ≠ .rejected .headerBuffer ↔
        before.flatten.length + c.length ≤
          consumed (pieces h) before.flatten.length + cfg.headerBufferMax) := by
    rintro before c after rfl hlt hle
    rw [List.flatten_append, List.flatten_cons, ← List.append_assoc] at hcs
    have hpart : PartOf before.flatten h.text :=
      ⟨List.prefix_of_prefix_length_le ⟨c ++ after.flatten, by rw [← List.append_assoc, hcs]⟩
        (List.prefix_append _ _) hlt.le, hlt⟩
    obtain ⟨p, hrun, hp, hbuffer⟩ :=
      feedAll_waits hvalid hpart (feedAll_ne_headerBuffer hvalid hlimit before hpart)
    have hlength : p.headerBuffer.length + consumed (pieces h) before.flatten.length =
        before.flatten.length := by
      rw [hbuffer, List.length_drop, Nat.sub_add_cancel (consumed_le _ _)]
    rcases Nat.lt_or_ge cfg.headerBufferMax (p.headerBuffer.length + c.length) with hover | hfits
    · rw [feedAll_append hrun, feedAll, feed_eq_rejected hp hover]
      simp only [ne_eq, not_true_eq_false, false_iff]
      omega
    · obtain ⟨r, hr⟩ : h.text <+: before.flatten ++ c :=
        List.prefix_of_prefix_length_le ⟨body, hcs.symm⟩ (List.prefix_append _ _)
          (by simpa using hle)
      obtain ⟨p', rest, hdone, -, -⟩ :=
        (finishes_iff (r := r) (feedAll_concat_ne_headerBuffer hrun hp hfits)).mpr
          ⟨h, hvalid, by simp [hr], rfl⟩
      rw [feedAll_append hrun, feedAll] at hdone ⊢
      cases hd : feed cfg p c with
      | done p₁ =>
        simp only [ne_eq, reduceCtorEq, not_false_eq_true, true_iff]
        omega
      | waiting p₁ => rw [hd] at hdone; cases hdone
      | rejected e => rw [hd] at hdone; cases hdone
  constructor
  · intro hrun before c after e hlt hle
    exact (hread before c after e hlt hle).mp hrun
  · intro hfits
    have hpos : 0 < h.text.length := by
      rw [HeaderSection.text, List.length_append, List.length_cons]
      omega
    have hlength : h.text.length ≤ cs.flatten.length := by simp [hcs]
    obtain ⟨before, c, after, e, hlt, hle⟩ := exists_piece hpos hlength
    exact (hread before c after e hlt hle).mpr (hfits before c after e hlt hle)

/-- A header of twenty-four bytes under a limit of thirty, and a body that is read with its end. -/
theorem header_limit_iff_get :
    (feedAll (feed { headerBufferMax := 30 }) {}
        [bytes "GET / HTTP/1.1\r\nA: 1\r\n", bytes "\r\n0123456789"]).1 ≠ .rejected .headerBuffer ↔
      FitsBuffer { headerBufferMax := 30 }
        ⟨bytes "GET", bytes "/", bytes "HTTP", bytes "1.1", [bytes "A: 1"]⟩
        [bytes "GET / HTTP/1.1\r\nA: 1\r\n", bytes "\r\n0123456789"] := by
  refine header_limit_iff _ _ ⟨by decide, by decide, by decide, by decide, by decide, by decide, ?_⟩
    (by decide) (bytes "0123456789") _ (by decide)
  simp only [List.forall_mem_cons, List.not_mem_nil, false_implies, implies_true, and_true]
  exact ⟨⟨_, _, rfl, by decide⟩, by decide, by decide, fun h => absurd h (by decide)⟩

/-- The limit counts bytes of the body: a header of forty-one bytes is refused when a read ends
behind the first byte of its second line and the next read, of 4096 bytes, holds the rest of it and
the start of the body. -/
theorem header_limit_counts_body :
    ¬ ∀ (h : HeaderSection) (body : Bytes) (cs : List Bytes), h.Valid {} →
      h.text.length ≤ ({} : Config).headerBufferMax →
      (∀ c ∈ cs, c.length ≤ ({} : Config).bufferSize) →
      cs.flatten = h.text ++ body → (feedAll (feed {}) {} cs).1 ≠ .rejected .headerBuffer := by
  intro hclaim
  let h : HeaderSection := ⟨bytes "POST", bytes "/", bytes "HTTP", bytes "1.1",
    [bytes "Content-Length: 4073"]⟩
  let body : Bytes := List.replicate 4073 120
  let first := bytes "POST / HTTP/1.1\r\nC"
  let second := bytes "ontent-Length: 4073\r\n\r\n" ++ body
  have hvalid : h.Valid {} := by
    refine ⟨by decide, by decide, by decide, by decide, by decide, by decide, ?_⟩
    simp only [h, List.forall_mem_cons, List.not_mem_nil, false_implies, implies_true, and_true]
    exact ⟨⟨_, _, rfl, by decide⟩, by decide, by decide, fun h => absurd h (by decide)⟩
  have hlength : second.length = 4096 := by
    rw [List.length_append, List.length_replicate]
    rfl
  have hflatten : [first, second].flatten = h.text ++ body := by
    simp only [List.flatten_cons, List.flatten_nil, List.append_nil, second, ← List.append_assoc]
    rfl
  have hreads : ∀ c ∈ [first, second], c.length ≤ ({} : Config).bufferSize := by
    simp only [List.forall_mem_cons, hlength, List.not_mem_nil, false_implies, implies_true,
      and_true]
    decide
  have hpart : PartOf [first].flatten h.text := ⟨by decide, by decide⟩
  obtain ⟨p, hrun, hp, hbuffer⟩ :=
    feedAll_waits hvalid hpart (feedAll_ne_headerBuffer hvalid (by decide) _ hpart)
  have hC : p.headerBuffer = bytes "C" := hbuffer.trans (by decide)
  refine hclaim h body ([first] ++ [second]) hvalid (by decide) hreads hflatten ?_
  rw [feedAll_append hrun, feedAll, feed_eq_rejected hp (by rw [hlength, hC]; decide)]

end Attender.Http
