import Attender.Http.HeaderDecided

/-!
# How long a header may be

The limit on `header_buffer_` is tested on what is not yet read, so it does not
limit the header. What does is that each word of the start line, its end and each
field come out of a buffer that is within the limit, and that there are at most
so many of them.
-/

namespace Attender.Http

open Attender.Library

variable {cfg : Config}

/-- How many parts of the start line are off the buffer in a state. -/
def ParserProgress.parts : ParserProgress → Nat
  | .verb => 0
  | .url => 1
  | .protocolAndVersion => 2
  | .protocolAndVersionPhase2 => 3
  | .fields | .body => 4

namespace RequestParser

/-- The carriage return that stops the parser in a word: the word before it may be off the buffer
while the state has stayed. -/
def stopped (p : RequestParser) : Nat :=
  if p.progress.parts < 2 ∧ p.headerBuffer.head? = some CR then 1 else 0

/-- How many times at most something has been taken off the buffer. -/
def taken (p : RequestParser) : Nat := p.progress.parts + p.stopped + p.fieldParseCounter

/-- What the parser keeps when `n` bytes have been fed in total. -/
structure Within (cfg : Config) (n : Nat) (p : RequestParser) : Prop where
  fed : n ≤ p.taken * cfg.headerBufferMax + p.headerBuffer.length
  buffer : p.headerBuffer.length ≤ cfg.headerBufferMax
  counter : p.fieldParseCounter ≤ cfg.headerFieldMax

variable {n : Nat} {p p' : RequestParser}

theorem taken_le : p.taken ≤ 4 + p.fieldParseCounter := by
  have hparts : p.progress.parts ≤ 4 := by cases p.progress <;> decide
  rw [taken, stopped]
  split_ifs <;> omega

/-- The bytes that a parser within the limits has been fed. -/
theorem Within.fed_le (h : p.Within cfg n) :
    n ≤ (cfg.headerFieldMax + 5) * cfg.headerBufferMax := by
  have htaken : p.taken * cfg.headerBufferMax ≤
      (cfg.headerFieldMax + 4) * cfg.headerBufferMax := by
    refine Nat.mul_le_mul_right _ ?_
    have := taken_le (p := p)
    have := h.counter
    omega
  have hfed := h.fed
  have hbuffer := h.buffer
  rw [Nat.succ_mul]
  omega

/-- Whatever is taken off the buffer is within the limit. -/
theorem Within.take (h : p.Within cfg n) (htaken : p.taken < p'.taken)
    (hbuffer : p'.headerBuffer.length ≤ p.headerBuffer.length)
    (hcounter : p'.fieldParseCounter ≤ cfg.headerFieldMax) : p'.Within cfg n where
  fed := by
    have hmul : (p.taken + 1) * cfg.headerBufferMax ≤ p'.taken * cfg.headerBufferMax :=
      Nat.mul_le_mul_right _ htaken
    rw [Nat.succ_mul] at hmul
    have := h.fed
    have := h.buffer
    omega
  buffer := hbuffer.trans h.buffer
  counter := hcounter

/-- The bytes of a read that stays within the limit. -/
theorem Within.append {chunk : Bytes} (h : p.Within cfg n)
    (hlimit : (p.append chunk).headerBuffer.length ≤ cfg.headerBufferMax) :
    (p.append chunk).Within cfg (n + chunk.length) where
  fed := by
    have hstopped : p.stopped ≤ (p.append chunk).stopped := by
      rw [stopped, stopped, append_progress, append_headerBuffer]
      cases hbuffer : p.headerBuffer with
      | nil => simp
      | cons b bs => rfl
    have htaken : p.taken * cfg.headerBufferMax ≤ (p.append chunk).taken * cfg.headerBufferMax := by
      refine Nat.mul_le_mul_right _ ?_
      have hcounter : (p.append chunk).fieldParseCounter = p.fieldParseCounter := rfl
      rw [taken, taken, append_progress, hcounter]
      omega
    have := h.fed
    rw [append_headerBuffer, List.length_append]
    omega
  buffer := hlimit
  counter := h.counter

end RequestParser

open RequestParser

/-! ### The parts of the parser -/

variable {n : Nat}

/-- The parser is past this many parts of the start line. -/
def Past (cfg : Config) (n k : Nat) (p : RequestParser) : Prop :=
  p.Within cfg n ∧ k ≤ p.progress.parts

/-- A word, with the space behind it or stopped by a carriage return. -/
theorem leads_parseWord {at_ next : ParserProgress}
    {store : RequestHeaderIntermediate → Bytes → RequestHeaderIntermediate}
    (hat : at_.parts < 2) (hnext : next.parts = at_.parts + 1)
    (hpass : ∀ q : ParserProgress, at_.parts ≤ q.parts → q ≠ at_ → next.parts ≤ q.parts) :
    Leads (Past cfg n at_.parts) (Past cfg n next.parts) (Within cfg n)
      (parseWord at_ next store) where
  done := by
    rintro p p' ⟨hp, hpast⟩ h
    by_cases hprogress : p.progress = at_
    · rcases getWord_cases p.headerBuffer with hw | ⟨w, r, hw⟩ | ⟨w, r, hw⟩
      · rw [parseWord_of_none hprogress hw] at h
        cases h
      · rw [parseWord_of_space hprogress hw] at h
        cases h
        obtain ⟨hbuffer, ⟨-, hcr⟩, -⟩ := getWord_eq_some_iff.mp hw
        -- no carriage return stands in front of the word
        have hfree : p.stopped = 0 := by
          rw [stopped, hbuffer]
          cases w with
          | nil => exact if_neg fun h => absurd (Option.some.inj h.2) (by decide)
          | cons b w =>
            rw [List.mem_cons, not_or] at hcr
            simp [Ne.symm hcr.1]
        refine ⟨hp.take ?_ ?_ hp.counter, le_refl _⟩
        · simp only [taken, hfree, hnext, hprogress]
          omega
        · simp only [hbuffer, List.length_append, List.length_cons]
          omega
      · rw [parseWord_of_cr hprogress hw] at h
        cases h
    · rw [parseWord_of_ne hprogress] at h
      cases h
      exact ⟨hp, hpass _ hpast hprogress⟩
  waiting := by
    rintro p p' ⟨hp, hpast⟩ h
    by_cases hprogress : p.progress = at_
    · rcases getWord_cases p.headerBuffer with hw | ⟨w, r, hw⟩ | ⟨w, r, hw⟩
      · rw [parseWord_of_none hprogress hw] at h
        cases h
        exact hp
      · rw [parseWord_of_space hprogress hw] at h
        cases h
      · rw [parseWord_of_cr hprogress hw] at h
        cases h
        obtain ⟨hbuffer, ⟨-, hcr⟩, -⟩ := getWord_eq_some_iff.mp hw
        cases w with
        | nil =>
          -- nothing is taken off
          rw [List.nil_append] at hbuffer
          exact ⟨by simpa [taken, stopped, hbuffer] using hp.fed,
            by simpa [hbuffer] using hp.buffer, hp.counter⟩
        | cons b w =>
          rw [List.mem_cons, not_or] at hcr
          refine hp.take ?_ ?_ hp.counter
          · simp [taken, stopped, hbuffer, hprogress, hat, Ne.symm hcr.1]
          · simp only [hbuffer, List.length_append, List.length_cons]
            omega
    · rw [parseWord_of_ne hprogress] at h
      cases h

theorem leads_parseProtocolAndVersion :
    Leads (Past cfg n 2) (Past cfg n 3) (Within cfg n) parseProtocolAndVersion := by
  refine Leads.token And.left ?_ ?_ ?_
  · rintro p ⟨hp, hpast⟩ hprogress
    refine ⟨hp, ?_⟩
    cases h : p.progress <;> simp_all [ParserProgress.parts]
  · rintro p w p₁ p' ⟨hp, hpast⟩ hprogress hw huse
    simp only [RequestParser.getWord, Option.map_eq_some_iff, Prod.mk.injEq] at hw
    obtain ⟨⟨w', r⟩, hr, rfl, rfl⟩ := hw
    obtain ⟨hbuffer, -, -⟩ := getWord_eq_some_iff.mp hr
    rcases storeProtocol_cases w' with hstore | ⟨l, v, hstore⟩
    · rw [hstore] at huse
      cases huse
    · rw [hstore] at huse
      cases huse
      refine ⟨hp.take ?_ ?_ hp.counter, le_refl _⟩
      · simp [taken, stopped, hprogress, ParserProgress.parts]
      · simp [hbuffer]
  · rintro p w p₁ p' - - - huse
    rcases storeProtocol_cases w with hstore | ⟨l, v, hstore⟩ <;> rw [hstore] at huse <;> cases huse

theorem leads_parsePhase2 : Leads (Past cfg n 3) (Past cfg n 4) (Within cfg n) parsePhase2 := by
  refine Leads.token And.left ?_ ?_ ?_
  · rintro p ⟨hp, hpast⟩ hprogress
    refine ⟨hp, ?_⟩
    cases h : p.progress <;> simp_all [ParserProgress.parts]
  · rintro p l p₁ p' ⟨hp, hpast⟩ hprogress hl huse
    simp only [RequestParser.getLine, Option.map_eq_some_iff, Prod.mk.injEq] at hl
    obtain ⟨⟨l', r⟩, hr, rfl, rfl⟩ := hl
    rcases endStartLine_cases l' with hend | hend
    · rw [hend] at huse
      cases huse
    · rw [hend] at huse
      cases huse
      refine ⟨hp.take ?_ (length_getLine hr).le hp.counter, le_refl _⟩
      simp [taken, stopped, hprogress, ParserProgress.parts]
  · rintro p l p₁ p' - - - huse
    rcases endStartLine_cases l with hend | hend <;> rw [hend] at huse <;> cases huse

/-- The limit on the number of fields is tested before a field is stored. -/
theorem counter_of_readField {p : RequestParser} {c : Byte} {line : Bytes}
    {header : RequestHeaderIntermediate} (h : readField cfg p c line = .ok header) :
    p.fieldParseCounter + 1 ≤ cfg.headerFieldMax := by
  rw [readField] at h
  split_ifs at h with halnum hlimit
  exact Nat.not_lt.mp hlimit

theorem leads_readFields :
    Leads (Past cfg n 4) (fun _ => True) (Within cfg n) (readFields cfg) where
  done := fun _ _ => trivial
  waiting := by
    intro p p' hp h
    induction p using readFields.induct cfg with
    | case1 p hl => rw [readFields_of_none hl] at h; cases h; exact hp.1
    | case2 p buffer hl => rw [readFields_of_empty hl] at h; cases h
    | case3 p c line buffer hl e he => rw [readFields_of_error hl he] at h; cases h
    | case4 p c line buffer hl header he ih =>
      rw [readFields_of_ok hl he] at h
      refine ih ⟨hp.1.take ?_ (length_getLine hl).le (counter_of_readField he), hp.2⟩ h
      have hparts : ¬ p.progress.parts < 2 := by
        have := hp.2
        omega
      simp [taken, stopped, hparts]

/-! ### Reads -/

theorem leads_drain :
    Leads (Past cfg n 0) (fun _ => True) (Within cfg n) (drain cfg) := by
  rw [show drain cfg = _ from funext drain_eq]
  have hverb : ∀ q : ParserProgress, ParserProgress.verb.parts ≤ q.parts → q ≠ .verb →
      ParserProgress.url.parts ≤ q.parts := by
    intro q
    cases q <;> decide
  have hurl : ∀ q : ParserProgress, ParserProgress.url.parts ≤ q.parts → q ≠ .url →
      ParserProgress.protocolAndVersion.parts ≤ q.parts := by
    intro q
    cases q <;> decide
  exact Leads.bind (leads_parseWord (by decide) rfl hverb)
    (Leads.bind (leads_parseWord (by decide) rfl hurl)
      (Leads.bind leads_parseProtocolAndVersion (Leads.bind leads_parsePhase2 leads_readFields)))

/-- **Fed, and still waiting**: the parser stays within the limits. -/
theorem within_feed {p p' : RequestParser} {chunk : Bytes} (hp : p.Within cfg n)
    (h : feed cfg p chunk = .waiting p') : p'.Within cfg (n + chunk.length) := by
  rw [feed] at h
  split_ifs at h with hfinished hlimit
  exact leads_drain.waiting ⟨hp.append (Nat.not_lt.mp hlimit), Nat.zero_le _⟩ h

/-- **The progress of the parser**: past so many bytes, however they are cut into reads, it has
finished or thrown. -/
theorem decided_of_length (cfg : Config) (cs : List Bytes)
    (hlength : (cfg.headerFieldMax + 5) * cfg.headerBufferMax < cs.flatten.length) :
    Decided cfg cs := by
  intro p hwaiting
  have hwithin : p.Within cfg (0 + cs.flatten.length) :=
    feedAll_total within_feed ⟨by simp, by simp, by simp⟩ (Prod.ext hwaiting rfl)
  have hle := hwithin.fed_le
  omega

/-- A method of a megabyte, read byte by byte. -/
theorem decided_of_length_method : Decided {} (List.replicate 1069057 [65]) := by
  refine decided_of_length {} (List.replicate 1069057 [65]) ?_
  rw [List.flatten_replicate_singleton, List.length_replicate]
  decide

end Attender.Http
