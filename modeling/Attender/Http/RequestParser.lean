import Attender.Http.Config
import Attender.Http.Cookie
import Attender.Library.Incremental
import Attender.Library.Lines

/-!
# The request parser

`request_parser`: a reader of the header of a request that is fed the bytes of
each read. It reads the words of the start line and then the fields, each taken
off the front of `header_buffer_` as soon as it is there, and what it waits for
is kept in `progress_`.
-/

namespace Attender.Http

open Attender.Library

/-- `internal::parser_progress`. -/
inductive ParserProgress where
  | verb
  | url
  | protocolAndVersion
  | protocolAndVersionPhase2
  | fields
  | body
  deriving DecidableEq

/-- `request_header_intermediate`. -/
structure RequestHeaderIntermediate where
  method : Bytes := []
  url : Bytes := []
  protocol : Bytes := []
  version : Bytes := []
  fields : StringMap := ∅
  cookies : StringMap := ∅
  deriving DecidableEq

/-- `request_parser`. -/
structure RequestParser where
  header : RequestHeaderIntermediate := {}
  headerBuffer : Bytes := []
  progress : ParserProgress := .verb
  fieldParseCounter : Nat := 0
  deriving DecidableEq

/-- The exceptions of `request_parser::feed`. -/
inductive ParserError where
  /-- A `header_limitations_error`: the buffer is too large. -/
  | headerBuffer
  /-- A `header_limitations_error`: too many fields. -/
  | headerFields
  | fieldStart
  | protocolVersion
  | moreTokens
  | noColon
  | cookie (e : CookieError)
  deriving DecidableEq

/-- The text of the exception. -/
def ParserError.what : ParserError → String
  | .headerBuffer => "exceeded maximum of header buffer size"
  | .headerFields => "exceeded maximum amount of header fields"
  | .fieldStart => "header field is not starting with character or number"
  | .protocolVersion => "header does not contain correct protocol/version specification"
  | .moreTokens => "header is malformed and contains more tokens than expected"
  | .noColon => "header field does not contain colon"
  | .cookie e => e.what

/-- What `feed` comes to: it returns `true`, it calls `connection->read()` once and
returns `false`, or it throws. -/
abbrev FeedResult := Verdict ParserError RequestParser

/-! ### Taking words and lines off the buffer -/

/-- `request_parser::get_word_from_buffer`: the word, and the buffer after the erasure.
The positions are those of `find`, with the length of the buffer for `npos`. -/
def getWordFromBuffer (buffer : Bytes) : Option (Bytes × Bytes) :=
  let space := buffer.idxOf SP
  let newLine := buffer.idxOf CR
  if space = buffer.length ∧ newLine = buffer.length then none
  else some (buffer.take (min space newLine), buffer.drop (min space newLine))

/-- `request_parser::expect_space`: the buffer after the erasure. -/
def expectSpace : Bytes → Option Bytes
  | [] => none
  | b :: bs => if b = SP then some bs else none

/-- `request_parser::get_line_from_buffer`: the line, and the buffer after the erasure. -/
def getLineFromBuffer : Bytes → Option (Bytes × Bytes)
  | [] => none
  | [_] => none
  | b :: c :: bs =>
    if b = CR ∧ c = LF then some ([], bs)
    else (getLineFromBuffer (c :: bs)).map fun p => (b :: p.1, p.2)

theorem getWord_cons (b : Byte) (bs : Bytes) :
    getWordFromBuffer (b :: bs) =
      if b = SP ∨ b = CR then some ([], b :: bs)
      else (getWordFromBuffer bs).map fun p => (b :: p.1, p.2) := by
  unfold getWordFromBuffer
  simp only [List.idxOf_cons, List.length_cons]
  by_cases hsp : b = SP
  · subst hsp; simp
  by_cases hcr : b = CR
  · subst hcr; simp
  · have h₁ : (b == SP) = false := by simpa using hsp
    have h₂ : (b == CR) = false := by simpa using hcr
    simp only [h₁, h₂, cond_false, hsp, hcr, or_self, if_false, Nat.add_right_cancel_iff,
      Nat.succ_min_succ]
    split_ifs <;> simp

/-- **What a word is**: what stands before the first space or carriage return. -/
theorem getWord_eq_some_iff {buffer w r : Bytes} :
    getWordFromBuffer buffer = some (w, r) ↔
      buffer = w ++ r ∧ (SP ∉ w ∧ CR ∉ w) ∧ (r.head? = some SP ∨ r.head? = some CR) := by
  induction buffer generalizing w with
  | nil =>
    refine ⟨fun h => by simp [getWordFromBuffer] at h, ?_⟩
    rintro ⟨h, -, hr⟩
    obtain ⟨-, rfl⟩ := List.append_eq_nil_iff.mp h.symm
    simp at hr
  | cons b bs ih =>
    rw [getWord_cons]
    split_ifs with hb
    · constructor
      · simp only [Option.some.injEq, Prod.mk.injEq]
        rintro ⟨rfl, rfl⟩
        simpa using hb
      · rintro ⟨h, ⟨hsp, hcr⟩, -⟩
        cases w with
        | nil => simp [h]
        | cons a w =>
          simp only [List.cons_append, List.cons.injEq] at h
          obtain ⟨rfl, -⟩ := h
          rcases hb with rfl | rfl <;> simp_all
    · rw [not_or] at hb
      simp only [Option.map_eq_some_iff, Prod.exists, Prod.mk.injEq]
      constructor
      · rintro ⟨w', r', e, rfl, rfl⟩
        obtain ⟨rfl, ⟨hsp, hcr⟩, hr⟩ := ih.mp e
        exact ⟨rfl, ⟨by simp [hsp, Ne.symm hb.1], by simp [hcr, Ne.symm hb.2]⟩, hr⟩
      · rintro ⟨h, ⟨hsp, hcr⟩, hr⟩
        cases w with
        | nil =>
          rw [List.nil_append] at h
          subst h
          simp [hb] at hr
        | cons a w =>
          simp only [List.cons_append, List.cons.injEq] at h
          obtain ⟨rfl, rfl⟩ := h
          simp only [List.mem_cons, not_or] at hsp hcr
          exact ⟨w, r, ih.mpr ⟨rfl, ⟨hsp.2, hcr.2⟩, hr⟩, rfl, rfl⟩

theorem getWord_append {buffer w r : Bytes} (h : getWordFromBuffer buffer = some (w, r))
    (more : Bytes) : getWordFromBuffer (buffer ++ more) = some (w, r ++ more) := by
  obtain ⟨rfl, hw, hr⟩ := getWord_eq_some_iff.mp h
  rw [getWord_eq_some_iff, List.append_assoc]
  refine ⟨rfl, hw, ?_⟩
  cases r with
  | nil => simp at hr
  | cons b r => simpa using hr

/-- After a word the buffer starts with the space or with the carriage return. -/
theorem getWord_rest {buffer w r : Bytes} (h : getWordFromBuffer buffer = some (w, r)) :
    (∃ r', r = SP :: r') ∨ ∃ r', r = CR :: r' := by
  obtain ⟨-, -, hr⟩ := getWord_eq_some_iff.mp h
  cases r with
  | nil => simp at hr
  | cons b r => simpa using hr

/-- A line is what is cut off at a `CRLF`. -/
theorem getLineFromBuffer_eq (buffer : Bytes) :
    getLineFromBuffer buffer = cutPair CR LF buffer := by
  induction buffer using getLineFromBuffer.induct with
  | case1 => rfl
  | case2 b => rfl
  | case3 b c bs h => simp [getLineFromBuffer, cutPair, h]
  | case4 b c bs h ih => rw [getLineFromBuffer, cutPair, ih]

/-- **What a line is**: what stands before the first `CRLF`. -/
theorem getLine_eq_some_iff {buffer l r : Bytes} :
    getLineFromBuffer buffer = some (l, r) ↔ buffer = l ++ CR :: LF :: r ∧ ¬ CRLF <:+: l := by
  rw [getLineFromBuffer_eq, cutPair_eq_some_iff (by decide)]

theorem getLine_append {buffer l r : Bytes} (h : getLineFromBuffer buffer = some (l, r))
    (more : Bytes) : getLineFromBuffer (buffer ++ more) = some (l, r ++ more) := by
  obtain ⟨rfl, hl⟩ := getLine_eq_some_iff.mp h
  rw [getLine_eq_some_iff, List.append_assoc]
  exact ⟨rfl, hl⟩

theorem length_getLine {buffer l r : Bytes} (h : getLineFromBuffer buffer = some (l, r)) :
    r.length < buffer.length := by
  obtain ⟨rfl, -⟩ := getLine_eq_some_iff.mp h
  simp only [List.length_append, List.length_cons]
  omega

/-- There is no line while there is no `CRLF`. -/
theorem getLine_eq_none_iff {buffer : Bytes} :
    getLineFromBuffer buffer = none ↔ ¬ CRLF <:+: buffer := by
  rw [getLineFromBuffer_eq, cutPair_eq_none_iff]

/-! ### The start line -/

/-- A word taken off the buffer of the parser. -/
def RequestParser.getWord (p : RequestParser) : Option (Bytes × RequestParser) :=
  (getWordFromBuffer p.headerBuffer).map fun wr => (wr.1, { p with headerBuffer := wr.2 })

/-- A line taken off the buffer of the parser. -/
def RequestParser.getLine (p : RequestParser) : Option (Bytes × RequestParser) :=
  (getLineFromBuffer p.headerBuffer).map fun lr => (lr.1, { p with headerBuffer := lr.2 })

/-- What the first two parts of `parse_words` do with a word: it is stored, and a space must
follow. Without the space the word is gone, but the state stays. -/
def storeWord (next : ParserProgress)
    (store : RequestHeaderIntermediate → Bytes → RequestHeaderIntermediate) (word : Bytes)
    (p : RequestParser) : FeedResult :=
  match expectSpace p.headerBuffer with
  | none => .waiting { p with header := store p.header word }
  | some rest =>
    .done { p with header := store p.header word, headerBuffer := rest, progress := next }

/-- The first two parts of `request_parser::parse_words`: in the state `at_`, a word and
the space after it. -/
def parseWord (at_ next : ParserProgress)
    (store : RequestHeaderIntermediate → Bytes → RequestHeaderIntermediate) :
    RequestParser → FeedResult :=
  onlyIf (fun p => p.progress = at_) (token RequestParser.getWord (storeWord next store))

/-- `parse_words`, the method. -/
def parseVerb : RequestParser → FeedResult :=
  parseWord .verb .url fun h w => { h with method := w }

/-- `parse_words`, the target. -/
def parseUrl : RequestParser → FeedResult :=
  parseWord .url .protocolAndVersion fun h w => { h with url := w }

/-- What `parse_words` does with the word that holds the protocol and the version. -/
def storeProtocol (word : Bytes) (p : RequestParser) : FeedResult :=
  match cut 47 word with
  | none => .rejected .protocolVersion
  | some (protocol, version) =>
    .done { p with
      header := { p.header with protocol := protocol, version := version }
      progress := .protocolAndVersionPhase2 }

/-- `parse_words`, the protocol and the version. -/
def parseProtocolAndVersion : RequestParser → FeedResult :=
  onlyIf (fun p => p.progress = .protocolAndVersion) (token RequestParser.getWord storeProtocol)

/-- What `parse_words` does with the rest of the start line, which must be empty. -/
def endStartLine (mustBeEmpty : Bytes) (p : RequestParser) : FeedResult :=
  if mustBeEmpty = [] then .done { p with progress := .fields } else .rejected .moreTokens

/-- `parse_words`, the end of the start line. -/
def parsePhase2 : RequestParser → FeedResult :=
  onlyIf (fun p => p.progress = .protocolAndVersionPhase2)
    (token RequestParser.getLine endStartLine)

/-- `request_parser::parse_words`, where `.waiting` is the return of `false`. -/
def parseWords (p : RequestParser) : FeedResult :=
  (parseVerb p).bind fun p =>
    (parseUrl p).bind fun p => (parseProtocolAndVersion p).bind parsePhase2

/-! ### The fields -/

/-- `unordered_map::insert`: a key that is there keeps its value. -/
def insertNew (m : StringMap) (k v : Bytes) : StringMap := if k ∈ m then m else m.insert k v

/-- `request_parser::add_field`, without the counter. The cookies of a line are added one
by one to those of the lines before. -/
def addField (header : RequestHeaderIntermediate) (line : Bytes) :
    Except ParserError RequestHeaderIntermediate :=
  match cut 58 line with
  | none => .error .noColon
  | some (left, right) =>
    let front := trimRight left
    let back := trimLeft right
    if toLowerCopy front = bytes "cookie" then
      match parseCookies back with
      | .error e => .error (.cookie e)
      | .ok cookies =>
        let merged := cookies.entries.foldl (fun m c => insertNew m c.1 c.2) header.cookies
        .ok { header with cookies := merged }
    else .ok { header with fields := header.fields.insert front back }

/-- What `request_parser::feed` does with a line that is not empty: its checks, and `add_field`. -/
def readField (cfg : Config) (p : RequestParser) (c : Byte) (line : Bytes) :
    Except ParserError RequestHeaderIntermediate :=
  if ¬ isAlnum c then .error .fieldStart
  else if cfg.headerFieldMax < p.fieldParseCounter + 1 then .error .headerFields
  else addField p.header (c :: line)

/-- The loop of `request_parser::feed` over the fields. -/
def readFields (cfg : Config) (p : RequestParser) : FeedResult :=
  match _h : getLineFromBuffer p.headerBuffer with
  | none => .waiting p
  | some ([], buffer) => .done { p with headerBuffer := buffer, progress := .body }
  | some (c :: line, buffer) =>
    match readField cfg p c line with
    | .error e => .rejected e
    | .ok header =>
      readFields cfg
        { p with
          header := header, headerBuffer := buffer
          fieldParseCounter := p.fieldParseCounter + 1 }
termination_by p.headerBuffer.length
decreasing_by exact length_getLine _h

section ReadFields

variable {cfg : Config} {p : RequestParser} {c : Byte} {line buffer : Bytes}

theorem readFields_of_none (h : getLineFromBuffer p.headerBuffer = none) :
    readFields cfg p = .waiting p := by
  rw [readFields]
  split <;> simp_all

theorem readFields_of_empty (h : getLineFromBuffer p.headerBuffer = some ([], buffer)) :
    readFields cfg p = .done { p with headerBuffer := buffer, progress := .body } := by
  rw [readFields]
  split <;> simp_all

theorem readFields_of_error (h : getLineFromBuffer p.headerBuffer = some (c :: line, buffer))
    {e : ParserError} (he : readField cfg p c line = .error e) :
    readFields cfg p = .rejected e := by
  rw [readFields]
  split <;> simp_all

theorem readFields_of_ok (h : getLineFromBuffer p.headerBuffer = some (c :: line, buffer))
    {header : RequestHeaderIntermediate} (he : readField cfg p c line = .ok header) :
    readFields cfg p = readFields cfg
      { p with
        header := header, headerBuffer := buffer
        fieldParseCounter := p.fieldParseCounter + 1 } := by
  rw [readFields]
  split <;> simp_all

end ReadFields

/-! ### Feeding -/

/-- `request_parser::finished`. -/
def RequestParser.finished (p : RequestParser) : Bool := p.progress = .body

/-- `request_parser::feed` after the check of the limit: it reads what is in the buffer. -/
def drain (cfg : Config) (p : RequestParser) : FeedResult :=
  (if p.progress ≠ .fields then parseWords p else .done p).bind (readFields cfg)

/-- The bytes of a read put behind the buffer. -/
def RequestParser.append (p : RequestParser) (chunk : Bytes) : RequestParser :=
  { p with headerBuffer := p.headerBuffer ++ chunk }

@[simp] theorem append_headerBuffer (p : RequestParser) (b : Bytes) :
    (p.append b).headerBuffer = p.headerBuffer ++ b := rfl

@[simp] theorem append_progress (p : RequestParser) (b : Bytes) :
    (p.append b).progress = p.progress := rfl

/-- `request_parser::feed`, with the bytes that the connection has read. -/
def feed (cfg : Config) (p : RequestParser) (chunk : Bytes) : FeedResult :=
  if p.finished then .done p
  else if cfg.headerBufferMax < (p.append chunk).headerBuffer.length then .rejected .headerBuffer
  else drain cfg (p.append chunk)

/-- `request_parser::read_front`: the bytes read, and the parser without them. -/
def RequestParser.readFront (p : RequestParser) (length : Nat) : Bytes × RequestParser :=
  let amount := min length p.headerBuffer.length
  (p.headerBuffer.take amount, { p with headerBuffer := p.headerBuffer.drop amount })

/-- `request_parser::is_buffer_empty`. -/
def RequestParser.isBufferEmpty (p : RequestParser) : Bool := p.headerBuffer.isEmpty

/-- `request_parser::get_field`. -/
def RequestParser.getField (p : RequestParser) (key : Bytes) : Option Bytes :=
  p.header.fields.lookup key

end Attender.Http
