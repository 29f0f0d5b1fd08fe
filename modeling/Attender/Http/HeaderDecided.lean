import Attender.Http.Segmentation

/-!
# Complete headers

Whether the parser decides on a stream that holds the end of a header. A word of
the start line that is followed by a carriage return, where a space has to be,
makes `parse_words` return without an exception, so the parser asks for more
input. Past the two words it decides: each line of the fields leaves the end of
the header in front of the parser.
-/

namespace Attender.Http

open Attender.Library

/-- The stream holds the empty line that ends a header. -/
def HoldsEnd (s : Bytes) : Prop := CRLF ++ CRLF <:+: s

instance (s : Bytes) : Decidable (HoldsEnd s) := inferInstanceAs (Decidable (_ <:+: _))

/-- The spaces before the first carriage return. -/
def startSpaces (s : Bytes) : Nat := (s.takeWhile fun b => b ≠ CR).count SP

/-! ### The end of the header in front of the parser -/

theorem HoldsEnd.mem {s : Bytes} (h : HoldsEnd s) : CR ∈ s :=
  h.subset (by decide)

theorem holdsEnd_cons {b : Byte} {s : Bytes} (hb : b ≠ CR) : HoldsEnd (b :: s) ↔ HoldsEnd s := by
  rw [HoldsEnd, List.infix_cons_iff, List.cons_append, List.cons_prefix_cons]
  constructor
  · rintro (⟨rfl, -⟩ | h)
    · exact absurd rfl hb
    · exact h
  · exact Or.inr

theorem holdsEnd_append {w s : Bytes} (hw : CR ∉ w) : HoldsEnd (w ++ s) ↔ HoldsEnd s := by
  induction w with
  | nil => rfl
  | cons b w ih =>
    rw [List.mem_cons, not_or] at hw
    rw [List.cons_append, holdsEnd_cons (Ne.symm hw.1), ih hw.2]

/-- What the lines of the header leave: the empty line is next, or it is still to come. -/
def EndAhead (s : Bytes) : Prop := CRLF <+: s ∨ HoldsEnd s

theorem EndAhead.crlf {s : Bytes} (h : EndAhead s) : CRLF <:+: s := by
  rcases h with h | h
  · exact h.isInfix
  · exact (List.infix_append [] CRLF CRLF).trans h

/-- A line taken off leaves the end of the header ahead. -/
theorem endAhead_of_getLine {s l r : Bytes} (h : getLineFromBuffer s = some (l, r))
    (hend : HoldsEnd s) : EndAhead r := by
  induction s using getLineFromBuffer.induct generalizing l with
  | case1 => simp [getLineFromBuffer] at h
  | case2 b => simp [getLineFromBuffer] at h
  | case3 b c s hc =>
    obtain ⟨rfl, rfl⟩ := hc
    simp only [getLineFromBuffer, and_self, if_true, Option.some.injEq, Prod.mk.injEq] at h
    obtain ⟨-, rfl⟩ := h
    rw [HoldsEnd, List.infix_cons_iff] at hend
    rcases hend with hnext | hlater
    · rw [List.cons_append, List.cons_prefix_cons, List.cons_append, List.cons_prefix_cons] at hnext
      exact Or.inl hnext.2.2
    · exact Or.inr ((holdsEnd_cons (by decide)).mp hlater)
  | case4 b c s hc ih =>
    simp only [getLineFromBuffer, if_neg hc, Option.map_eq_some_iff, Prod.mk.injEq] at h
    obtain ⟨⟨l', r'⟩, e, -, rfl⟩ := h
    rw [HoldsEnd, List.infix_cons_iff] at hend
    rcases hend with hnext | hlater
    · rw [List.cons_append, List.cons_prefix_cons, List.cons_append, List.cons_prefix_cons] at hnext
      exact absurd ⟨hnext.1.symm, hnext.2.1.symm⟩ hc
    · exact ih e hlater

/-- A line that is not empty is not the empty line, so the end of the header is still to come. -/
theorem EndAhead.getLine {s l r : Bytes} (h : EndAhead s)
    (hline : getLineFromBuffer s = some (l, r)) (hl : l ≠ []) : EndAhead r := by
  rcases h with ⟨t, rfl⟩ | h
  · have hempty : getLineFromBuffer (CRLF ++ t) = some ([], t) := rfl
    rw [hempty, Option.some.injEq, Prod.mk.injEq] at hline
    exact absurd hline.1.symm hl
  · exact endAhead_of_getLine hline h

/-! ### The parts of the parser -/

variable {cfg : Config}

/-- **The fields are decided** as long as the end of the header is ahead. -/
theorem readFields_ne_waiting {p : RequestParser} (h : EndAhead p.headerBuffer)
    (p' : RequestParser) : readFields cfg p ≠ .waiting p' := by
  induction p using readFields.induct cfg with
  | case1 p hl => exact absurd h.crlf (getLine_eq_none_iff.mp hl)
  | case2 p buffer hl =>
    rw [readFields_of_empty hl]
    intro h
    cases h
  | case3 p c line buffer hl e he =>
    rw [readFields_of_error hl he]
    intro h
    cases h
  | case4 p c line buffer hl header he ih =>
    rw [readFields_of_ok hl he]
    exact ih (h.getLine hl (List.cons_ne_nil _ _))

/-- The spaces of a word are counted with the one behind it. -/
theorem startSpaces_word {w s : Bytes} (hsp : SP ∉ w) (hcr : CR ∉ w) :
    startSpaces (w ++ s) = startSpaces s := by
  induction w with
  | nil => rfl
  | cons b w ih =>
    rw [List.mem_cons, not_or] at hsp hcr
    rw [← ih hsp.2 hcr.2, startSpaces, List.cons_append,
      List.takeWhile_cons_of_pos (by simpa using Ne.symm hcr.1),
      List.count_cons_of_ne (Ne.symm hsp.1), startSpaces]

/-- A word is there as soon as a carriage return is. -/
theorem getWord_ne_none {s : Bytes} (h : CR ∈ s) : getWordFromBuffer s ≠ none := by
  intro hw
  have hlength := List.idxOf_lt_length_of_mem h
  rw [getWordFromBuffer] at hw
  split_ifs at hw with hboth
  omega

/-- **What a word of the start line comes to**: with a space before the first carriage return the
parser moves past it, without one it asks for more input. -/
theorem parseWord_of_holdsEnd {at_ next : ParserProgress}
    {store : RequestHeaderIntermediate → Bytes → RequestHeaderIntermediate} {p : RequestParser}
    (hat : p.progress = at_) (hend : HoldsEnd p.headerBuffer) :
    (∃ w r, parseWord at_ next store p =
        .done { p with header := store p.header w, headerBuffer := r, progress := next } ∧
        HoldsEnd r ∧ startSpaces p.headerBuffer = startSpaces r + 1) ∨
      (∃ p', parseWord at_ next store p = .waiting p') ∧ startSpaces p.headerBuffer = 0 := by
  rcases getWord_cases p.headerBuffer with hw | ⟨w, r, hw⟩ | ⟨w, r, hw⟩
  · exact absurd hw (getWord_ne_none hend.mem)
  · obtain ⟨e, ⟨hsp, hcr⟩, -⟩ := getWord_eq_some_iff.mp hw
    rw [e, holdsEnd_append hcr, holdsEnd_cons (by decide)] at hend
    refine Or.inl ⟨w, r, parseWord_of_space hat hw, hend, ?_⟩
    rw [e, startSpaces_word hsp hcr, startSpaces, List.takeWhile_cons_of_pos (by decide),
      List.count_cons_self, startSpaces]
  · obtain ⟨e, ⟨hsp, hcr⟩, -⟩ := getWord_eq_some_iff.mp hw
    refine Or.inr ⟨⟨_, parseWord_of_cr hat hw⟩, ?_⟩
    rw [e, startSpaces_word hsp hcr, startSpaces, List.takeWhile_cons_of_neg (by decide),
      List.count_nil]

theorem parseVerb_of_holdsEnd {p : RequestParser} (hat : p.progress = .verb)
    (hend : HoldsEnd p.headerBuffer) :
    (∃ w r, parseVerb p = .done { p with
        header := { p.header with method := w }
        headerBuffer := r
        progress := .url } ∧
        HoldsEnd r ∧ startSpaces p.headerBuffer = startSpaces r + 1) ∨
      (∃ p', parseVerb p = .waiting p') ∧ startSpaces p.headerBuffer = 0 :=
  parseWord_of_holdsEnd hat hend

theorem parseUrl_of_holdsEnd {p : RequestParser} (hat : p.progress = .url)
    (hend : HoldsEnd p.headerBuffer) :
    (∃ w r, parseUrl p = .done { p with
        header := { p.header with url := w }
        headerBuffer := r
        progress := .protocolAndVersion } ∧
        HoldsEnd r ∧ startSpaces p.headerBuffer = startSpaces r + 1) ∨
      (∃ p', parseUrl p = .waiting p') ∧ startSpaces p.headerBuffer = 0 :=
  parseWord_of_holdsEnd hat hend

/-- The rest of the start line and the fields are decided. -/
theorem afterWords_ne_waiting {p : RequestParser} (hat : p.progress = .protocolAndVersion)
    (hend : HoldsEnd p.headerBuffer) (p' : RequestParser) :
    ((parseProtocolAndVersion p).bind fun p => (parsePhase2 p).bind (readFields cfg)) ≠
      .waiting p' := by
  obtain ⟨w, r, hw, hr⟩ : ∃ w r, getWordFromBuffer p.headerBuffer = some (w, r) ∧ HoldsEnd r := by
    obtain ⟨⟨w, r⟩, hw⟩ := Option.ne_none_iff_exists'.mp (getWord_ne_none hend.mem)
    obtain ⟨e, ⟨-, hcr⟩, -⟩ := getWord_eq_some_iff.mp hw
    rw [e, holdsEnd_append hcr] at hend
    exact ⟨w, r, hw, hend⟩
  rw [parseProtocolAndVersion, onlyIf, if_pos hat,
    token_of_some (by rw [RequestParser.getWord, hw]; rfl)]
  rcases storeProtocol_cases w with hu | ⟨pr, v, hu⟩
  · rw [hu]
    intro h
    cases h
  · rw [hu, Verdict.bind_done, parsePhase2, onlyIf, if_pos rfl]
    cases hl : getLineFromBuffer r with
    | none =>
      have hcrlf : CRLF <:+: r := (List.infix_append [] CRLF CRLF).trans hr
      exact absurd hcrlf (getLine_eq_none_iff.mp hl)
    | some lr =>
      rw [token_of_some (by rw [RequestParser.getLine, hl]; rfl)]
      rcases endStartLine_cases lr.1 with hu' | hu'
      · rw [hu']
        intro h
        cases h
      · rw [hu', Verdict.bind_done]
        exact readFields_ne_waiting (endAhead_of_getLine hl hr) p'

/-- Which streams the parser decides on, when they come in one piece. -/
theorem drain_ne_waiting_iff {s : Bytes} (hend : HoldsEnd s) :
    (∀ p, drain cfg (RequestParser.append {} s) ≠ .waiting p) ↔ 2 ≤ startSpaces s := by
  have hbuffer : (RequestParser.append {} s).headerBuffer = s := rfl
  rw [drain_eq]
  rcases parseVerb_of_holdsEnd (p := RequestParser.append {} s) rfl hend with
    ⟨m, r, e, hr, hspaces⟩ | ⟨⟨p', e⟩, hspaces⟩
  · rw [e, Verdict.bind_done, ← hbuffer, hspaces]
    rcases parseUrl_of_holdsEnd (p := { RequestParser.append {} s with
        header := { method := m }
        headerBuffer := r
        progress := .url }) rfl hr with
      ⟨u, r', e', hr', hspaces'⟩ | ⟨⟨p', e'⟩, hspaces'⟩
    · constructor
      · intro
        have hmore : startSpaces r = startSpaces r' + 1 := hspaces'
        omega
      · intro _ p
        refine Eq.trans_ne (Verdict.bind_of_done e' _) ?_
        exact afterWords_ne_waiting rfl hr' p
    · have hnone : startSpaces r = 0 := hspaces'
      constructor
      · intro h
        exact absurd (congrArg (Verdict.bind · _) e') (h p')
      · intro
        omega
  · have hnone : startSpaces s = 0 := hspaces
    constructor
    · intro h
      exact absurd (congrArg (Verdict.bind · _) e) (h p')
    · intro
      omega

/-! ### Reads -/

/-- The parser has finished or thrown on the reads: it does not ask for one more. -/
def Decided (cfg : Config) (cs : List Bytes) : Prop :=
  ∀ p, (feedAll (feed cfg) {} cs).1 ≠ .waiting p

/-- **Which complete headers are decided**: those with two spaces before the first carriage
return, however they are cut into reads. -/
theorem decided_iff (cfg : Config) (cs : List Bytes) (hend : HoldsEnd cs.flatten)
    (hlimit : (feedAll (feed cfg) {} cs).1 ≠ .rejected .headerBuffer) :
    Decided cfg cs ↔ 2 ≤ startSpaces cs.flatten := by
  rw [← @drain_ne_waiting_iff cfg _ hend, Decided, (feedAll_feed cs).resolve_right hlimit]
  have hrel := feedAll_drain cfg cs
  generalize feedAll (fun p c => drain cfg (p.append c)) {} cs = run at hrel ⊢
  generalize drain cfg (RequestParser.append {} cs.flatten) = v at hrel ⊢
  obtain ⟨v', rest⟩ := run
  cases v' with
  | done p => cases hrel; exact ⟨fun _ => nofun, fun _ => nofun⟩
  | rejected e => cases hrel; exact ⟨fun _ => nofun, fun _ => nofun⟩
  | waiting p =>
    cases hrel with
    | waiting h => exact ⟨fun h => absurd rfl (h _), fun h => absurd rfl (h _)⟩

/-- A request cut inside its empty line. -/
theorem decided_iff_get : Decided {} [bytes "GET / HTTP/1.1\r\n\r", bytes "\n"] ↔
    2 ≤ startSpaces (bytes "GET / HTTP/1.1\r\n\r\n") :=
  decided_iff {} [bytes "GET / HTTP/1.1\r\n\r", bytes "\n"] (by decide +kernel)
    (by decide +kernel)

/-- A method without a target: the parser asks for more input behind the empty line. -/
theorem not_decided_method_alone :
    ¬ ∀ (cfg : Config) (cs : List Bytes), HoldsEnd cs.flatten →
      (feedAll (feed cfg) {} cs).1 ≠ .rejected .headerBuffer → Decided cfg cs := by
  intro h
  have hdecided := h {} [bytes "GET\r\n\r\n"] (by decide +kernel) (by decide +kernel)
  exact hdecided _ rfl

end Attender.Http
