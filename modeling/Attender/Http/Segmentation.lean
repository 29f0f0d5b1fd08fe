import Attender.Http.RequestParser

/-!
# Segmentation

The parts of the parser are readers that may be resumed, so the parser comes to
the same verdict however the bytes of a request are cut into reads, as long as
no read is refused for the size of the buffer.

A word that is not followed by a space is taken off the buffer while the state
stays, and the next word in that state, which is then empty, is stored in its
place. So the states no part of the parser tells apart are those that agree but
for the word of their state (`core`).
-/

namespace Attender.Http

open Attender.Library

/-- The parser without the word that its state is about to store. -/
def core (p : RequestParser) : RequestParser :=
  match p.progress with
  | .verb => { p with header := { p.header with method := [] } }
  | .url => { p with header := { p.header with url := [] } }
  | _ => p

theorem core_headerBuffer (p : RequestParser) : (core p).headerBuffer = p.headerBuffer := by
  unfold core
  split <;> rfl

theorem core_progress (p : RequestParser) : (core p).progress = p.progress := by
  unfold core
  split <;> simp_all

/-- Parsers to which bytes are appended, told apart by their cores. -/
def parserBuffer : Buffered RequestParser Byte where
  extend := RequestParser.append
  same p q := core p = core q
  extend_nil p := by simp [RequestParser.append]
  extend_append p a b := by simp [RequestParser.append]
  same_equiv := ⟨fun _ => rfl, Eq.symm, Eq.trans⟩

/-! ### The states of the parts -/

/-- The part `d` does not enter the state `q`. -/
def Avoids (q : ParserProgress) (d : RequestParser → FeedResult) : Prop :=
  ∀ ⦃p p' : RequestParser⦄, p.progress ≠ q → d p = .done p' ∨ d p = .waiting p' → p'.progress ≠ q

theorem Avoids.bind {q : ParserProgress} {d₁ d₂ : RequestParser → FeedResult} (h₁ : Avoids q d₁)
    (h₂ : Avoids q d₂) : Avoids q fun p => (d₁ p).bind d₂ := by
  rintro p p' hp (h | h)
  · obtain ⟨p₁, e₁, e₂⟩ := Verdict.bind_eq_done h
    exact h₂ (h₁ hp (Or.inl e₁)) (Or.inl e₂)
  · rcases Verdict.bind_eq_waiting h with e | ⟨p₁, e₁, e₂⟩
    · exact h₁ hp (Or.inr e)
    · exact h₂ (h₁ hp (Or.inl e₁)) (Or.inr e₂)

/-- A part of the start line avoids `q`, if what it does with its token does. -/
theorem avoids_part {at_ q : ParserProgress} {take : RequestParser → Option (Bytes × RequestParser)}
    {use : Bytes → RequestParser → FeedResult}
    (htake : ∀ {p t p'}, take p = some (t, p') → p'.progress = p.progress)
    (huse : ∀ t, Avoids q (use t)) :
    Avoids q (onlyIf (fun p => p.progress = at_) (token take use)) := by
  intro p p' hp h
  rw [onlyIf] at h
  split_ifs at h with hat
  · cases e : take p with
    | none =>
      rw [token_of_none e] at h
      rcases h with h | h <;> cases h
      exact hp
    | some ts =>
      rw [token_of_some e] at h
      exact huse _ (by rw [htake e]; exact hp) h
  · rcases h with h | h <;> cases h
    exact hp

theorem getWord_progress {p p' : RequestParser} {w : Bytes} (h : p.getWord = some (w, p')) :
    p'.progress = p.progress := by
  simp only [RequestParser.getWord, Option.map_eq_some_iff, Prod.mk.injEq] at h
  obtain ⟨wr, -, -, rfl⟩ := h
  rfl

theorem getLine_progress {p p' : RequestParser} {l : Bytes} (h : p.getLine = some (l, p')) :
    p'.progress = p.progress := by
  simp only [RequestParser.getLine, Option.map_eq_some_iff, Prod.mk.injEq] at h
  obtain ⟨lr, -, -, rfl⟩ := h
  rfl

/-- A part of the start line before the rest of the parser may be resumed, if the part
leaves its state and the rest does not come back to it. -/
theorem resumable_part {at_ : ParserProgress} {d rest : RequestParser → FeedResult}
    (hd : Resumable parserBuffer (onlyIf (fun p => p.progress = at_) d))
    (hrest : Resumable parserBuffer rest) (hleave : ∀ {p p'}, d p = .done p' → p'.progress ≠ at_)
    (havoid : Avoids at_ rest) :
    Resumable parserBuffer fun p => (onlyIf (fun p => p.progress = at_) d p).bind rest := by
  refine hd.bind hrest fun {p p₁ p₂} h₁ h₂ b => onlyIf_neg ?_
  show p₂.progress ≠ at_
  refine havoid ?_ (Or.inr h₂)
  rw [onlyIf] at h₁
  split_ifs at h₁ with hat
  · exact hleave h₁
  · cases h₁
    exact hat

/-! ### The words of the start line -/

section Word

variable {at_ next : ParserProgress}
  {store : RequestHeaderIntermediate → Bytes → RequestHeaderIntermediate}

theorem parseWord_of_ne {p : RequestParser} (h : p.progress ≠ at_) :
    parseWord at_ next store p = .done p :=
  onlyIf_neg h

theorem parseWord_of_none {p : RequestParser} (h : p.progress = at_)
    (hw : getWordFromBuffer p.headerBuffer = none) : parseWord at_ next store p = .waiting p := by
  rw [parseWord, onlyIf, if_pos h, token_of_none (by rw [RequestParser.getWord, hw]; rfl)]

theorem parseWord_of_space {p : RequestParser} {w r : Bytes} (h : p.progress = at_)
    (hw : getWordFromBuffer p.headerBuffer = some (w, SP :: r)) :
    parseWord at_ next store p =
      .done { p with header := store p.header w, headerBuffer := r, progress := next } := by
  rw [parseWord, onlyIf, if_pos h, token_of_some (by rw [RequestParser.getWord, hw]; rfl)]
  rfl

theorem parseWord_of_cr {p : RequestParser} {w r : Bytes} (h : p.progress = at_)
    (hw : getWordFromBuffer p.headerBuffer = some (w, CR :: r)) :
    parseWord at_ next store p =
      .waiting { p with header := store p.header w, headerBuffer := CR :: r } := by
  rw [parseWord, onlyIf, if_pos h, token_of_some (by rw [RequestParser.getWord, hw]; rfl)]
  rfl

/-- What a word does: it is not there yet, or it is followed by a space, or by a carriage return. -/
theorem getWord_cases (buffer : Bytes) :
    getWordFromBuffer buffer = none ∨ (∃ w r, getWordFromBuffer buffer = some (w, SP :: r)) ∨
      ∃ w r, getWordFromBuffer buffer = some (w, CR :: r) := by
  cases h : getWordFromBuffer buffer with
  | none => exact Or.inl rfl
  | some wr =>
    obtain ⟨w, r⟩ := wr
    rcases getWord_rest h with ⟨r', rfl⟩ | ⟨r', rfl⟩
    · exact Or.inr (Or.inl ⟨w, r', rfl⟩)
    · exact Or.inr (Or.inr ⟨w, r', rfl⟩)

/-- A word may be resumed, if its state's core is blind to the word stored. -/
theorem resumable_parseWord
    (hcore : ∀ {p : RequestParser} (w : Bytes), p.progress = at_ →
      core { p with header := store p.header w } = core p) :
    Resumable parserBuffer (parseWord at_ next store) where
  done {p p'} h b := by
    by_cases hat : p.progress = at_
    · rcases getWord_cases p.headerBuffer with hw | ⟨w, r, hw⟩ | ⟨w, r, hw⟩
      · rw [parseWord_of_none hat hw] at h
        cases h
      · rw [parseWord_of_space hat hw] at h
        cases h
        exact parseWord_of_space (p := p.append b) hat (getWord_append hw b)
      · rw [parseWord_of_cr hat hw] at h
        cases h
    · rw [parseWord_of_ne hat] at h
      cases h
      exact parseWord_of_ne hat
  rejected {p e} h b := by
    by_cases hat : p.progress = at_
    · rcases getWord_cases p.headerBuffer with hw | ⟨w, r, hw⟩ | ⟨w, r, hw⟩
      · rw [parseWord_of_none hat hw] at h
        cases h
      · rw [parseWord_of_space hat hw] at h
        cases h
      · rw [parseWord_of_cr hat hw] at h
        cases h
    · rw [parseWord_of_ne hat] at h
      cases h
  waiting {p p'} h b := by
    by_cases hat : p.progress = at_
    · rcases getWord_cases p.headerBuffer with hw | ⟨w, r, hw⟩ | ⟨w, r, hw⟩
      · rw [parseWord_of_none hat hw] at h
        cases h
        exact .refl parserBuffer.same_equiv _
      · rw [parseWord_of_space hat hw] at h
        cases h
      · -- the word is gone: resumed, the parser stores an empty word in its place
        rw [parseWord_of_cr hat hw] at h
        cases h
        have hw' : getWordFromBuffer (CR :: r ++ b) = some ([], CR :: (r ++ b)) := by
          simp [getWord_cons]
        have e₁ : parseWord at_ next store (p.append b) = _ :=
          parseWord_of_cr hat (getWord_append hw b)
        have e₂ : parseWord at_ next store
            (RequestParser.append { p with
              header := store p.header w, headerBuffer := CR :: r } b) = _ :=
          parseWord_of_cr hat hw'
        simp only [parserBuffer]
        rw [e₁, e₂]
        exact .waiting (hcore (p := { p with
          header := store p.header w, headerBuffer := CR :: (r ++ b) }) [] hat).symm
    · rw [parseWord_of_ne hat] at h
      cases h

theorem avoids_storeWord {q : ParserProgress} (hq : next ≠ q) (w : Bytes) :
    Avoids q (storeWord next store w) := by
  intro p p' hp h
  cases hs : expectSpace p.headerBuffer with
  | none =>
    rw [storeWord, hs] at h
    rcases h with h | h <;> cases h
    exact hp
  | some r =>
    rw [storeWord, hs] at h
    rcases h with h | h <;> cases h
    exact hq

theorem storeWord_done {w : Bytes} {p p' : RequestParser}
    (h : storeWord next store w p = .done p') : p'.progress = next := by
  cases hs : expectSpace p.headerBuffer with
  | none => rw [storeWord, hs] at h; cases h
  | some r => rw [storeWord, hs] at h; cases h; rfl

end Word

theorem resumable_parseVerb : Resumable parserBuffer parseVerb :=
  resumable_parseWord fun {p} w hat => by
    obtain ⟨h, buf, progress, n⟩ := p
    cases hat
    rfl

theorem resumable_parseUrl : Resumable parserBuffer parseUrl :=
  resumable_parseWord fun {p} w hat => by
    obtain ⟨h, buf, progress, n⟩ := p
    cases hat
    rfl

/-! ### The end of the start line -/

/-- The bytes of later reads leave the words that are there as they are. -/
theorem getWord_extend {p p' : RequestParser} {w : Bytes} (h : p.getWord = some (w, p'))
    (b : Bytes) : (parserBuffer.extend p b).getWord = some (w, parserBuffer.extend p' b) := by
  simp only [RequestParser.getWord, Option.map_eq_some_iff, Prod.exists, Prod.mk.injEq] at h
  obtain ⟨w, r, e, rfl, rfl⟩ := h
  simp [parserBuffer, RequestParser.getWord, getWord_append e b, RequestParser.append]

theorem getLine_extend {p p' : RequestParser} {l : Bytes} (h : p.getLine = some (l, p'))
    (b : Bytes) : (parserBuffer.extend p b).getLine = some (l, parserBuffer.extend p' b) := by
  simp only [RequestParser.getLine, Option.map_eq_some_iff, Prod.exists, Prod.mk.injEq] at h
  obtain ⟨l, r, e, rfl, rfl⟩ := h
  simp [parserBuffer, RequestParser.getLine, getLine_append e b, RequestParser.append]

/-- What `storeProtocol` does: it rejects, or it moves on, whatever is in the buffer. -/
theorem storeProtocol_cases (w : Bytes) :
    (∀ p, storeProtocol w p = .rejected .protocolVersion) ∨
      ∃ l r, ∀ p : RequestParser, storeProtocol w p =
        .done { p with
          header := { p.header with protocol := l, version := r }
          progress := .protocolAndVersionPhase2 } := by
  unfold storeProtocol
  cases cut 47 w with
  | none => exact Or.inl fun p => rfl
  | some lr => exact Or.inr ⟨lr.1, lr.2, fun p => rfl⟩

/-- What `endStartLine` does: it rejects, or it moves on to the fields. -/
theorem endStartLine_cases (l : Bytes) :
    (∀ p, endStartLine l p = .rejected .moreTokens) ∨
      ∀ p : RequestParser, endStartLine l p = .done { p with progress := .fields } := by
  unfold endStartLine
  by_cases hl : l = []
  · exact Or.inr fun p => if_pos hl
  · exact Or.inl fun p => if_neg hl

theorem resumable_parseProtocolAndVersion : Resumable parserBuffer parseProtocolAndVersion := by
  have hwaiting : ∀ {w p p'}, storeProtocol w p ≠ .waiting p' := by
    intro w p p' h
    rcases storeProtocol_cases w with hu | ⟨l, r, hu⟩ <;> rw [hu p] at h <;> cases h
  refine .onlyIf (.token getWord_extend ?_ ?_ hwaiting) (fun b => Iff.rfl)
    (fun hat h => token_waiting hwaiting h ▸ hat)
  · intro w p p' h b
    rcases storeProtocol_cases w with hu | ⟨l, r, hu⟩ <;> rw [hu p] at h <;> cases h
    exact hu _
  · intro w p e h b
    rcases storeProtocol_cases w with hu | ⟨l, r, hu⟩ <;> rw [hu p] at h <;> cases h
    exact hu _

theorem resumable_parsePhase2 : Resumable parserBuffer parsePhase2 := by
  have hwaiting : ∀ {l p p'}, endStartLine l p ≠ .waiting p' := by
    intro l p p' h
    rcases endStartLine_cases l with hu | hu <;> rw [hu p] at h <;> cases h
  refine .onlyIf (.token getLine_extend ?_ ?_ hwaiting) (fun b => Iff.rfl)
    (fun hat h => token_waiting hwaiting h ▸ hat)
  · intro l p p' h b
    rcases endStartLine_cases l with hu | hu <;> rw [hu p] at h <;> cases h
    exact hu _
  · intro l p e h b
    rcases endStartLine_cases l with hu | hu <;> rw [hu p] at h <;> cases h
    exact hu _

theorem storeProtocol_done {w : Bytes} {p p' : RequestParser} (h : storeProtocol w p = .done p') :
    p'.progress = .protocolAndVersionPhase2 := by
  rcases storeProtocol_cases w with hu | ⟨l, r, hu⟩ <;> rw [hu p] at h <;> cases h
  rfl

theorem endStartLine_done {l : Bytes} {p p' : RequestParser} (h : endStartLine l p = .done p') :
    p'.progress = .fields := by
  rcases endStartLine_cases l with hu | hu <;> rw [hu p] at h <;> cases h
  rfl

theorem avoids_storeProtocol {q : ParserProgress} (hq : .protocolAndVersionPhase2 ≠ q) (w : Bytes) :
    Avoids q (storeProtocol w) := by
  intro p p' hp h
  rcases storeProtocol_cases w with hu | ⟨l, r, hu⟩ <;> rw [hu p] at h <;> rcases h with h | h <;>
    cases h
  exact hq

theorem avoids_endStartLine {q : ParserProgress} (hq : .fields ≠ q) (l : Bytes) :
    Avoids q (endStartLine l) := by
  intro p p' hp h
  rcases endStartLine_cases l with hu | hu <;> rw [hu p] at h <;> rcases h with h | h <;> cases h
  exact hq

/-! ### The fields -/

variable {cfg : Config}

/-- A line that is there is read alike with more behind it. -/
theorem readFields_append_of_ok {p : RequestParser} {c : Byte} {line buffer : Bytes}
    (hl : getLineFromBuffer p.headerBuffer = some (c :: line, buffer))
    {header : RequestHeaderIntermediate} (he : readField cfg p c line = .ok header) (b : Bytes) :
    readFields cfg (p.append b) = readFields cfg
      ({ p with
        header := header, headerBuffer := buffer
        fieldParseCounter := p.fieldParseCounter + 1 }.append b) := by
  have hfield : readField cfg (p.append b) c line = .ok header := he
  rw [readFields_of_ok (getLine_append hl b) hfield]
  rfl

theorem resumable_readFields : Resumable parserBuffer (readFields cfg) where
  done {p p'} h b := by
    show readFields cfg (p.append b) = .done (p'.append b)
    induction p using readFields.induct cfg with
    | case1 p hl => rw [readFields_of_none hl] at h; cases h
    | case2 p buffer hl =>
      rw [readFields_of_empty hl] at h
      cases h
      exact readFields_of_empty (getLine_append hl b)
    | case3 p c line buffer hl e he => rw [readFields_of_error hl he] at h; cases h
    | case4 p c line buffer hl header he ih =>
      rw [readFields_of_ok hl he] at h
      rw [readFields_append_of_ok hl he]
      exact ih h
  rejected {p e} h b := by
    show readFields cfg (p.append b) = .rejected e
    induction p using readFields.induct cfg with
    | case1 p hl => rw [readFields_of_none hl] at h; cases h
    | case2 p buffer hl => rw [readFields_of_empty hl] at h; cases h
    | case3 p c line buffer hl e' he =>
      rw [readFields_of_error hl he] at h
      have hfield : readField cfg (p.append b) c line = .error e' := he
      rw [readFields_of_error (getLine_append hl b) hfield]
      exact h
    | case4 p c line buffer hl header he ih =>
      rw [readFields_of_ok hl he] at h
      rw [readFields_append_of_ok hl he]
      exact ih h
  waiting {p p'} h b := by
    -- the fields read so far are read again, so both sides come to the same call
    suffices readFields cfg (p.append b) = readFields cfg (p'.append b) by
      show Verdict.Rel parserBuffer.same (readFields cfg (p.append b))
        (readFields cfg (p'.append b))
      rw [this]
      exact .refl parserBuffer.same_equiv _
    induction p using readFields.induct cfg with
    | case1 p hl => rw [readFields_of_none hl] at h; cases h; rfl
    | case2 p buffer hl => rw [readFields_of_empty hl] at h; cases h
    | case3 p c line buffer hl e he => rw [readFields_of_error hl he] at h; cases h
    | case4 p c line buffer hl header he ih =>
      rw [readFields_of_ok hl he] at h
      rw [readFields_append_of_ok hl he]
      exact ih h

theorem readFields_progress {p p' : RequestParser} (h : readFields cfg p = .done p') :
    p'.progress = .body := by
  induction p using readFields.induct cfg with
  | case1 p hl => rw [readFields_of_none hl] at h; cases h
  | case2 p buffer hl => rw [readFields_of_empty hl] at h; cases h; rfl
  | case3 p c line buffer hl e he => rw [readFields_of_error hl he] at h; cases h
  | case4 p c line buffer hl header he ih => rw [readFields_of_ok hl he] at h; exact ih h

theorem readFields_waiting_progress {p p' : RequestParser} (h : readFields cfg p = .waiting p') :
    p'.progress = p.progress := by
  induction p using readFields.induct cfg with
  | case1 p hl => rw [readFields_of_none hl] at h; cases h; rfl
  | case2 p buffer hl => rw [readFields_of_empty hl] at h; cases h
  | case3 p c line buffer hl e he => rw [readFields_of_error hl he] at h; cases h
  | case4 p c line buffer hl header he ih => rw [readFields_of_ok hl he] at h; exact ih h

theorem avoids_readFields {q : ParserProgress} (hq : .body ≠ q) : Avoids q (readFields cfg) := by
  rintro p p' hp (h | h)
  · rw [readFields_progress h]
    exact hq
  · rw [readFields_waiting_progress h]
    exact hp

/-! ### The whole parser -/

/-- In the state of the fields the words of the start line are passed over, so the test for it is
idle. -/
theorem drain_eq_words (p : RequestParser) :
    drain cfg p = (parseWords p).bind (readFields cfg) := by
  rw [drain]
  split_ifs with h
  · rfl
  · rw [not_not] at h
    simp [parseWords, parseVerb, parseUrl, parseWord, parseProtocolAndVersion, parsePhase2,
      onlyIf, h]

/-- The parts of the parser one after another. -/
theorem drain_eq (p : RequestParser) :
    drain cfg p = (parseVerb p).bind fun p => (parseUrl p).bind fun p =>
      (parseProtocolAndVersion p).bind fun p => (parsePhase2 p).bind (readFields cfg) := by
  rw [drain_eq_words, parseWords]
  simp only [Verdict.bind_assoc]

theorem resumable_drain : Resumable parserBuffer (drain cfg) := by
  have hfields : Resumable parserBuffer fun p => (parsePhase2 p).bind (readFields cfg) := by
    refine resumable_part resumable_parsePhase2 resumable_readFields ?_
      (avoids_readFields (by decide))
    intro p p' h
    obtain ⟨l, p₁, -, h⟩ := token_eq_done h
    rw [endStartLine_done h]
    decide
  have hprotocol : Resumable parserBuffer fun p =>
      (parseProtocolAndVersion p).bind fun p => (parsePhase2 p).bind (readFields cfg) := by
    refine resumable_part resumable_parseProtocolAndVersion hfields ?_
      (Avoids.bind (avoids_part getLine_progress (avoids_endStartLine (by decide)))
        (avoids_readFields (by decide)))
    intro p p' h
    obtain ⟨w, p₁, -, h⟩ := token_eq_done h
    rw [storeProtocol_done h]
    decide
  have hrest : ∀ {q : ParserProgress}, .protocolAndVersionPhase2 ≠ q → .fields ≠ q → .body ≠ q →
      Avoids q fun p => (parseProtocolAndVersion p).bind fun p =>
        (parsePhase2 p).bind (readFields cfg) :=
    fun h₁ h₂ h₃ => Avoids.bind (avoids_part getWord_progress (avoids_storeProtocol h₁))
      (Avoids.bind (avoids_part getLine_progress (avoids_endStartLine h₂)) (avoids_readFields h₃))
  have hurl : Resumable parserBuffer fun p =>
      (parseUrl p).bind fun p => (parseProtocolAndVersion p).bind fun p =>
        (parsePhase2 p).bind (readFields cfg) := by
    refine resumable_part resumable_parseUrl hprotocol ?_
      (hrest (by decide) (by decide) (by decide))
    intro p p' h
    obtain ⟨w, p₁, -, h⟩ := token_eq_done h
    rw [storeWord_done h]
    decide
  rw [show drain cfg = _ from funext drain_eq]
  refine resumable_part resumable_parseVerb hurl ?_
    (Avoids.bind (avoids_part getWord_progress (avoids_storeWord (by decide)))
      (hrest (by decide) (by decide) (by decide)))
  intro p p' h
  obtain ⟨w, p₁, -, h⟩ := token_eq_done h
  rw [storeWord_done h]
  decide

/-- A parser that has been fed nothing waits. -/
theorem drain_fresh : drain cfg {} = .waiting {} := by
  rw [drain_eq]
  rfl

/-- A parser that waits has not finished. -/
theorem drain_waiting_finished {p p' : RequestParser} (hp : p.progress ≠ .body)
    (h : drain cfg p = .waiting p') : p'.progress ≠ .body := by
  have hwords : Avoids .body parseWords :=
    Avoids.bind (avoids_part getWord_progress (avoids_storeWord (by decide)))
      (Avoids.bind (avoids_part getWord_progress (avoids_storeWord (by decide)))
        (Avoids.bind (avoids_part getWord_progress (avoids_storeProtocol (by decide)))
          (avoids_part getLine_progress (avoids_endStartLine (by decide)))))
  rw [drain_eq_words] at h
  rcases Verdict.bind_eq_waiting h with e | ⟨p₁, e₁, e₂⟩
  · exact hwords hp (Or.inr e)
  · rw [readFields_waiting_progress e₂]
    exact hwords hp (Or.inl e₁)

/-! ### Reads -/

/-- What the parser comes to on the bytes of several reads, without the limit of the buffer. -/
theorem feedAll_drain (cfg : Config) (cs : List Bytes) :
    Verdict.Rel parserBuffer.same
      (unread parserBuffer (feedAll (fun p c => drain cfg (p.append c)) {} cs))
      (drain cfg (RequestParser.append {} cs.flatten)) :=
  resumable_drain.feedAll_rel cs {} (by rw [drain_fresh]; exact .refl parserBuffer.same_equiv _)

/-- `feed` is `drain`, or it rejects for the size of the buffer; it is not called once the parser
has finished. -/
theorem feedAll_feed (cs : List Bytes) :
    feedAll (feed cfg) {} cs = feedAll (fun p c => drain cfg (p.append c)) {} cs ∨
      (feedAll (feed cfg) {} cs).1 = .rejected .headerBuffer := by
  refine feedAll_guarded (I := fun p : RequestParser => p.progress ≠ .body) ?_
    (fun p c p' hp h => drain_waiting_finished (p := p.append c) hp h) cs {} (by decide)
  intro p c hp
  have hfin : p.finished = false := by simpa [RequestParser.finished] using hp
  rw [feed, if_neg (by simp [hfin])]
  split_ifs
  · exact Or.inr rfl
  · exact Or.inl rfl

/-- Two runs end alike: both finished, with one header and one rest of the stream, or both
waiting, or both rejecting with one exception. -/
def SameEnd : FeedResult × List Bytes → FeedResult × List Bytes → Prop
  | (.done p, cs), (.done q, ds) =>
    p.header = q.header ∧ p.headerBuffer ++ cs.flatten = q.headerBuffer ++ ds.flatten
  | (.waiting _, _), (.waiting _, _) => True
  | (.rejected e, _), (.rejected e', _) => e = e'
  | _, _ => False

/-- **Segmentation invariance**: two ways to cut a stream into reads end alike, if in neither
a read is refused for the size of the buffer. -/
theorem segmentation_invariance (cfg : Config) (cs ds : List Bytes) (h : cs.flatten = ds.flatten)
    (hcs : (feedAll (feed cfg) {} cs).1 ≠ .rejected .headerBuffer)
    (hds : (feedAll (feed cfg) {} ds).1 ≠ .rejected .headerBuffer) :
    SameEnd (feedAll (feed cfg) {} cs) (feedAll (feed cfg) {} ds) := by
  have hR := parserBuffer.same_equiv
  rw [(feedAll_feed cs).resolve_right hcs, (feedAll_feed ds).resolve_right hds]
  have hrel := (feedAll_drain cfg cs).trans hR (h ▸ (feedAll_drain cfg ds).symm hR)
  generalize feedAll (fun p c => drain cfg (p.append c)) {} cs = r at hrel
  generalize feedAll (fun p c => drain cfg (p.append c)) {} ds = r' at hrel
  obtain ⟨v, cs'⟩ := r
  obtain ⟨v', ds'⟩ := r'
  cases v with
  | done p =>
    cases v' with
    | done q =>
      have hpq : p.append cs'.flatten = q.append ds'.flatten :=
        Verdict.done.inj (Verdict.Rel.eq_done hrel)
      have hheader := congrArg RequestParser.header hpq
      have hbuffer := congrArg RequestParser.headerBuffer hpq
      exact ⟨hheader, hbuffer⟩
    | waiting q => cases hrel
    | rejected e => cases hrel
  | waiting p =>
    cases v' with
    | done q => cases hrel
    | waiting q => trivial
    | rejected e => cases hrel
  | rejected e =>
    cases v' with
    | done q => cases hrel
    | waiting q => cases hrel
    | rejected e' => cases hrel; rfl

/-- A cut inside a word, one between `CR` and `LF`, and one inside the body. -/
theorem segmentation_invariance_get :
    SameEnd (feedAll (feed {}) {} [bytes "GE", bytes "T /a HTTP/1.1\r", bytes "\nHost: x\r\n\r\nab",
      bytes "c"])
      (feedAll (feed {}) {} [bytes "GET /a HTTP/1.1\r\nHost: x\r\n\r", bytes "\nabc"]) :=
  segmentation_invariance {} _ _ (by decide) (by decide +kernel) (by decide +kernel)

end Attender.Http
