import Attender.Http.Segmentation

/-!
# The grammar of the request header

What the parser finishes on is a start line `m SP u SP p/v CRLF`, lines each
ended by `CRLF`, and an empty line. The grammar says which words and lines these
are, and what the finished parser holds: the words of the start line, and the
fields of the lines that are not cookies, the last of a name winning.
-/

namespace Attender.Http

open Attender.Library

/-! ### The grammar -/

/-- The parts of a line before and after its first colon. -/
def colonParts (l : Bytes) : Bytes × Bytes := (cut 58 l).getD (l, [])

/-- The name of a field, without the blanks before the colon. -/
def fieldName (l : Bytes) : Bytes := trimRight (colonParts l).1

/-- The value of a field, without the blanks after the colon. -/
def fieldValue (l : Bytes) : Bytes := trimLeft (colonParts l).2

/-- A line that sets cookies. -/
def IsCookieLine (l : Bytes) : Prop := toLowerCopy (fieldName l) = bytes "cookie"

instance (l : Bytes) : Decidable (IsCookieLine l) := inferInstanceAs (Decidable (_ = _))

/-- A word of the start line: no space and no carriage return. -/
def IsWord (w : Bytes) : Prop := SP ∉ w ∧ CR ∉ w

instance (w : Bytes) : Decidable (IsWord w) := inferInstanceAs (Decidable (_ ∧ _))

/-- A line of the header. -/
structure IsFieldLine (l : Bytes) : Prop where
  start : ∃ c l', l = c :: l' ∧ isAlnum c
  unbroken : ¬ CRLF <:+: l
  colon : 58 ∈ l
  cookie : IsCookieLine l → ∃ m, parseCookies (fieldValue l) = .ok m

/-- The parts of the header section of a request. -/
structure HeaderSection where
  method : Bytes
  url : Bytes
  protocol : Bytes
  version : Bytes
  lines : List Bytes

namespace HeaderSection

/-- The lines, each with its end. -/
def linesText (lines : List Bytes) : Bytes := (lines.map (· ++ CRLF)).flatten

/-- The text of a header section, the empty line included. -/
def text (h : HeaderSection) : Bytes :=
  h.method ++ SP :: (h.url ++ SP ::
    (h.protocol ++ 47 :: (h.version ++ CR :: LF :: (linesText h.lines ++ CRLF))))

/-- What the grammar asks of the parts. -/
structure Valid (cfg : Config) (h : HeaderSection) : Prop where
  method : IsWord h.method
  url : IsWord h.url
  protocol : IsWord h.protocol
  slash : 47 ∉ h.protocol
  version : IsWord h.version
  count : h.lines.length ≤ cfg.headerFieldMax
  lines : ∀ l ∈ h.lines, IsFieldLine l

/-- The names and values of the lines that are not cookies, in order. -/
def fieldPairs (lines : List Bytes) : List (Bytes × Bytes) :=
  (lines.filter fun l => ¬ IsCookieLine l).map fun l => (fieldName l, fieldValue l)

end HeaderSection

/-- The last value of a key. -/
def lastWins (kvs : List (Bytes × Bytes)) (key : Bytes) : Option Bytes := kvs.reverse.lookup key

open HeaderSection

/-! ### One line -/

theorem colonParts_of_cut {l a b : Bytes} (h : cut 58 l = some (a, b)) : colonParts l = (a, b) := by
  rw [colonParts, h, Option.getD_some]

/-- What a line of the header adds to what the parser holds. -/
def storeLine (h : RequestHeaderIntermediate) (l : Bytes) : RequestHeaderIntermediate :=
  if IsCookieLine l then
    match parseCookies (fieldValue l) with
    | .ok cookies =>
      { h with cookies := cookies.entries.foldl (fun m c => insertNew m c.1 c.2) h.cookies }
    | .error _ => h
  else { h with fields := h.fields.insert (fieldName l) (fieldValue l) }

/-- What `add_field` takes, and what it does with it. -/
theorem addField_eq_ok_iff {l : Bytes} {h h' : RequestHeaderIntermediate} :
    addField h l = .ok h' ↔
      58 ∈ l ∧ (IsCookieLine l → ∃ m, parseCookies (fieldValue l) = .ok m) ∧
        h' = storeLine h l := by
  cases e : cut 58 l with
  | none => simp [addField, e, cut_eq_none_iff.mp e]
  | some ab =>
    obtain ⟨a, b⟩ := ab
    have hmem : 58 ∈ l := by
      obtain ⟨rfl, -⟩ := cut_eq_some_iff.mp e
      simp
    have hname : fieldName l = trimRight a := by rw [fieldName, colonParts_of_cut e]
    have hvalue : fieldValue l = trimLeft b := by rw [fieldValue, colonParts_of_cut e]
    by_cases hcl : IsCookieLine l
    · have hn : toLowerCopy (trimRight a) = bytes "cookie" := hname ▸ hcl
      cases hm : parseCookies (trimLeft b) with
      | ok m =>
        simp only [addField, e, if_pos hn, hm, storeLine, if_pos hcl, hvalue, hmem, Except.ok.injEq,
          exists_eq', implies_true, true_and]
        exact eq_comm
      | error e' => simp [addField, e, if_pos hn, hm, hvalue, hcl]
    · have hn : ¬ toLowerCopy (trimRight a) = bytes "cookie" := hname ▸ hcl
      simp only [addField, e, if_neg hn, storeLine, hname, hvalue, hmem, Except.ok.injEq, hcl,
        false_implies, true_and]
      exact eq_comm

/-- What the parser takes for a field, and what it does with it. -/
theorem readField_eq_ok_iff {cfg : Config} {p : RequestParser} {c : Byte} {l : Bytes}
    {h' : RequestHeaderIntermediate} (hl : ¬ CRLF <:+: c :: l) :
    readField cfg p c l = .ok h' ↔
      IsFieldLine (c :: l) ∧ p.fieldParseCounter + 1 ≤ cfg.headerFieldMax ∧
        h' = storeLine p.header (c :: l) := by
  rw [readField]
  by_cases hc : isAlnum c = true
  · rw [if_neg (not_not.mpr hc)]
    split_ifs with hn
    · simp only [false_iff]
      rintro ⟨-, hn', -⟩
      omega
    · rw [addField_eq_ok_iff]
      constructor
      · rintro ⟨hcolon, hcookie, rfl⟩
        exact ⟨⟨⟨c, l, rfl, hc⟩, hl, hcolon, hcookie⟩, by omega, rfl⟩
      · rintro ⟨h, -, rfl⟩
        exact ⟨h.colon, h.cookie, rfl⟩
  · rw [if_pos hc]
    simp only [reduceCtorEq, false_iff]
    rintro ⟨⟨⟨c', l', e, hc'⟩, -, -, -⟩, -⟩
    cases e
    exact hc hc'

/-! ### All lines -/

theorem linesText_cons (l : Bytes) (ls : List Bytes) :
    linesText (l :: ls) = l ++ CR :: LF :: linesText ls := by
  simp [linesText]

/-- Where the first line of a header section ends. -/
theorem getLine_linesText {ls : List Bytes} (hls : ∀ l ∈ ls, IsFieldLine l) (r : Bytes) :
    getLineFromBuffer (linesText ls ++ CR :: LF :: r) =
      some (match ls with
        | [] => ([], r)
        | l :: ls => (l, linesText ls ++ CR :: LF :: r)) := by
  rw [getLine_eq_some_iff]
  cases ls with
  | nil => exact ⟨rfl, fun h => by simpa using h.length_le⟩
  | cons l ls => exact ⟨by simp [linesText_cons], (hls l (List.mem_cons_self ..)).unbroken⟩

/-- **The fields**: the parser reads lines of the header up to an empty line. -/
theorem readFields_eq_done_iff {cfg : Config} {p p' : RequestParser}
    (hp : p.fieldParseCounter ≤ cfg.headerFieldMax) :
    readFields cfg p = .done p' ↔
      ∃ ls r, p.headerBuffer = linesText ls ++ CR :: LF :: r ∧ (∀ l ∈ ls, IsFieldLine l) ∧
        p.fieldParseCounter + ls.length ≤ cfg.headerFieldMax ∧
        p' = { p with
          header := ls.foldl storeLine p.header
          headerBuffer := r
          progress := .body
          fieldParseCounter := p.fieldParseCounter + ls.length } := by
  induction p using readFields.induct cfg with
  | case1 p hl =>
    rw [readFields_of_none hl]
    simp only [reduceCtorEq, false_iff]
    rintro ⟨ls, r, e, hls, -⟩
    rw [e, getLine_linesText hls] at hl
    cases hl
  | case2 p buffer hl =>
    obtain ⟨e, -⟩ := getLine_eq_some_iff.mp hl
    rw [readFields_of_empty hl, Verdict.done.injEq]
    constructor
    · rintro rfl
      exact ⟨[], buffer, e, by simp, by simpa using hp, rfl⟩
    · rintro ⟨ls, r, e', hls, -, rfl⟩
      rw [e', getLine_linesText hls] at hl
      cases ls with
      | nil => cases hl; rfl
      | cons l ls =>
        cases hl
        obtain ⟨_, _, e, -⟩ := (hls [] (List.mem_cons_self ..)).start
        cases e
  | case3 p c line buffer hl e he =>
    rw [readFields_of_error hl he]
    simp only [reduceCtorEq, false_iff]
    rintro ⟨ls, r, e', hls, hn, -⟩
    rw [e', getLine_linesText hls] at hl
    cases ls with
    | nil => cases hl
    | cons l ls =>
      cases hl
      have hfield := hls _ (List.mem_cons_self ..)
      rw [List.length_cons] at hn
      rw [(readField_eq_ok_iff hfield.unbroken).mpr ⟨hfield, by omega, rfl⟩] at he
      cases he
  | case4 p c line buffer hl header he ih =>
    obtain ⟨e, hline⟩ := getLine_eq_some_iff.mp hl
    obtain ⟨hfield, hcount, rfl⟩ := (readField_eq_ok_iff hline).mp he
    rw [readFields_of_ok hl he, ih hcount]
    constructor
    · rintro ⟨ls, r, e', hls, hn, rfl⟩
      refine ⟨(c :: line) :: ls, r, ?_, List.forall_mem_cons.mpr ⟨hfield, hls⟩, ?_, ?_⟩
      · rw [e, linesText_cons]
        simpa using e'
      · rw [List.length_cons, ← Nat.succ_add_eq_add_succ]
        exact hn
      · simp only [List.foldl_cons, List.length_cons]
        congr 1
        omega
    · rintro ⟨ls, r, e', hls, hn, rfl⟩
      rw [e', getLine_linesText hls] at hl
      cases ls with
      | nil => cases hl
      | cons l ls =>
        cases hl
        refine ⟨ls, r, rfl, fun l hl => hls l (List.mem_cons_of_mem _ hl), ?_, ?_⟩
        · rw [List.length_cons] at hn
          show p.fieldParseCounter + 1 + ls.length ≤ cfg.headerFieldMax
          omega
        · simp only [List.foldl_cons, List.length_cons]
          congr 1
          omega

/-! ### The start line -/

/-- A word and the space behind it. -/
theorem parseWord_eq_done_iff {at_ next : ParserProgress}
    {store : RequestHeaderIntermediate → Bytes → RequestHeaderIntermediate} {p p' : RequestParser}
    (hat : p.progress = at_) :
    parseWord at_ next store p = .done p' ↔
      ∃ w r, p.headerBuffer = w ++ SP :: r ∧ IsWord w ∧
        p' = { p with header := store p.header w, headerBuffer := r, progress := next } := by
  constructor
  · intro h
    rcases getWord_cases p.headerBuffer with hw | ⟨w, r, hw⟩ | ⟨w, r, hw⟩
    · rw [parseWord_of_none hat hw] at h
      cases h
    · rw [parseWord_of_space hat hw] at h
      obtain ⟨e, hword, -⟩ := getWord_eq_some_iff.mp hw
      exact ⟨w, r, e, hword, (Verdict.done.inj h).symm⟩
    · rw [parseWord_of_cr hat hw] at h
      cases h
  · rintro ⟨w, r, e, hword, rfl⟩
    exact parseWord_of_space hat (getWord_eq_some_iff.mpr ⟨e, hword, by simp⟩)

theorem slash_word {pr v : Bytes} (hpr : IsWord pr) (hv : IsWord v) : IsWord (pr ++ 47 :: v) := by
  simp only [IsWord, List.mem_append, List.mem_cons, not_or]
  exact ⟨⟨hpr.1, by decide, hv.1⟩, hpr.2, by decide, hv.2⟩

theorem word_slash {pr v : Bytes} (h : IsWord (pr ++ 47 :: v)) : IsWord pr ∧ IsWord v := by
  simp only [IsWord, List.mem_append, List.mem_cons, not_or] at h
  exact ⟨⟨h.1.1, h.2.1⟩, h.1.2.2, h.2.2.2⟩

/-- The word with the slash, up to the byte that ends it. -/
theorem parseProtocolAndVersion_eq_done_iff {p p' : RequestParser}
    (hat : p.progress = .protocolAndVersion) :
    parseProtocolAndVersion p = .done p' ↔
      ∃ pr v r, p.headerBuffer = pr ++ 47 :: (v ++ r) ∧ (IsWord pr ∧ 47 ∉ pr ∧ IsWord v) ∧
        (r.head? = some SP ∨ r.head? = some CR) ∧
        p' = { p with
          header := { p.header with protocol := pr, version := v }
          headerBuffer := r
          progress := .protocolAndVersionPhase2 } := by
  rw [parseProtocolAndVersion, onlyIf, if_pos hat]
  constructor
  · intro h
    obtain ⟨w, p₁, hw, h⟩ := token_eq_done h
    simp only [RequestParser.getWord, Option.map_eq_some_iff, Prod.exists, Prod.mk.injEq] at hw
    obtain ⟨w, r, hw, rfl, rfl⟩ := hw
    obtain ⟨e, hword, hr⟩ := getWord_eq_some_iff.mp hw
    rw [storeProtocol] at h
    cases hc : cut 47 w with
    | none => rw [hc] at h; cases h
    | some prv =>
      rw [hc] at h
      obtain ⟨rfl, hslash⟩ := cut_eq_some_iff.mp hc
      obtain ⟨hpr, hv⟩ := word_slash hword
      exact ⟨prv.1, prv.2, r, by simpa using e, ⟨hpr, hslash, hv⟩, hr, (Verdict.done.inj h).symm⟩
  · rintro ⟨pr, v, r, e, ⟨hpr, hslash, hv⟩, hr, rfl⟩
    have hw : getWordFromBuffer p.headerBuffer = some (pr ++ 47 :: v, r) :=
      getWord_eq_some_iff.mpr ⟨by simpa using e, slash_word hpr hv, hr⟩
    rw [token_of_some (by rw [RequestParser.getWord, hw]; rfl), storeProtocol,
      cut_eq_some_iff.mpr ⟨rfl, hslash⟩]

/-- The end of the start line: nothing may stand before it. -/
theorem parsePhase2_eq_done_iff {p p' : RequestParser}
    (hat : p.progress = .protocolAndVersionPhase2) :
    parsePhase2 p = .done p' ↔
      ∃ r, p.headerBuffer = CR :: LF :: r ∧
        p' = { p with headerBuffer := r, progress := .fields } := by
  rw [parsePhase2, onlyIf, if_pos hat]
  constructor
  · intro h
    obtain ⟨l, p₁, hl, h⟩ := token_eq_done h
    simp only [RequestParser.getLine, Option.map_eq_some_iff, Prod.exists, Prod.mk.injEq] at hl
    obtain ⟨l, r, hl, rfl, rfl⟩ := hl
    obtain ⟨e, -⟩ := getLine_eq_some_iff.mp hl
    rw [endStartLine] at h
    split_ifs at h with hempty
    subst hempty
    exact ⟨r, e, (Verdict.done.inj h).symm⟩
  · rintro ⟨r, e, rfl⟩
    have hl : getLineFromBuffer p.headerBuffer = some ([], r) :=
      getLine_eq_some_iff.mpr ⟨e, fun h => by simpa using h.length_le⟩
    rw [token_of_some (by rw [RequestParser.getLine, hl]; rfl)]
    rfl

/-! ### The header section -/

/-- The parts of a header section, one after another. -/
theorem text_append (h : HeaderSection) (r : Bytes) :
    h.text ++ r = h.method ++ SP :: (h.url ++ SP :: (h.protocol ++ 47 :: (h.version ++
      CR :: LF :: (linesText h.lines ++ CR :: LF :: r)))) := by
  simp [HeaderSection.text]

/-- The parser that has read a header section, with what was behind it. -/
def finishedParser (h : HeaderSection) (r : Bytes) : RequestParser where
  header := h.lines.foldl storeLine
    { method := h.method, url := h.url, protocol := h.protocol, version := h.version }
  headerBuffer := r
  progress := .body
  fieldParseCounter := h.lines.length

/-- **The grammar of a header section**, for a stream that comes in one piece. -/
theorem drain_eq_done_iff {cfg : Config} {s : Bytes} {p' : RequestParser} :
    drain cfg (RequestParser.append {} s) = .done p' ↔
      ∃ h r, h.Valid cfg ∧ s = h.text ++ r ∧ p' = finishedParser h r := by
  rw [drain_eq]
  constructor
  · intro hd
    obtain ⟨p₁, h₁, hd⟩ := Verdict.bind_eq_done hd
    obtain ⟨m, s₁, e₁, hm, rfl⟩ := (parseWord_eq_done_iff rfl).mp h₁
    obtain ⟨p₂, h₂, hd⟩ := Verdict.bind_eq_done hd
    obtain ⟨u, s₂, e₂, hu, rfl⟩ := (parseWord_eq_done_iff rfl).mp h₂
    obtain ⟨p₃, h₃, hd⟩ := Verdict.bind_eq_done hd
    obtain ⟨pr, v, s₃, e₃, ⟨hpr, hslash, hv⟩, -, rfl⟩ :=
      (parseProtocolAndVersion_eq_done_iff rfl).mp h₃
    obtain ⟨p₄, h₄, hd⟩ := Verdict.bind_eq_done hd
    obtain ⟨s₄, e₄, rfl⟩ := (parsePhase2_eq_done_iff rfl).mp h₄
    obtain ⟨ls, r, e₅, hls, hn, rfl⟩ := (readFields_eq_done_iff (Nat.zero_le _)).mp hd
    have hs : s = m ++ SP :: s₁ := e₁
    subst hs
    subst e₂ e₃ e₄ e₅
    refine ⟨⟨m, u, pr, v, ls⟩, r, ⟨hm, hu, hpr, hslash, hv, ?_, hls⟩, ?_, ?_⟩
    · exact (Nat.zero_add _).symm.le.trans hn
    · simp [HeaderSection.text]
    · simp [finishedParser, RequestParser.append]
  · rintro ⟨h, r, hvalid, rfl, rfl⟩
    obtain ⟨hm, hu, hpr, hslash, hv, hn, hls⟩ := hvalid
    rw [text_append]
    refine (Verdict.bind_of_done
      ((parseWord_eq_done_iff rfl).mpr ⟨h.method, _, rfl, hm, rfl⟩) _).trans ?_
    refine (Verdict.bind_of_done
      ((parseWord_eq_done_iff rfl).mpr ⟨h.url, _, rfl, hu, rfl⟩) _).trans ?_
    refine (Verdict.bind_of_done ((parseProtocolAndVersion_eq_done_iff rfl).mpr
      ⟨h.protocol, h.version, _, rfl, ⟨hpr, hslash, hv⟩, Or.inr rfl, rfl⟩) _).trans ?_
    refine (Verdict.bind_of_done ((parsePhase2_eq_done_iff rfl).mpr ⟨_, rfl, rfl⟩) _).trans ?_
    exact (readFields_eq_done_iff (Nat.zero_le _)).mpr
      ⟨h.lines, r, rfl, hls, (Nat.zero_add _).le.trans hn,
        by simp [finishedParser, RequestParser.append]⟩

/-! ### The fields of the header -/

theorem lastWins_cons (kv : Bytes × Bytes) (kvs : List (Bytes × Bytes)) (key : Bytes) :
    lastWins (kv :: kvs) key = (lastWins kvs key).or (if key = kv.1 then some kv.2 else none) := by
  obtain ⟨k, v⟩ := kv
  simp only [lastWins, List.reverse_cons, List.lookup_append, List.lookup_singleton, beq_iff_eq]

/-- A line of cookies leaves the fields as they are, another line sets its own. -/
theorem storeLine_fields (h : RequestHeaderIntermediate) (l : Bytes) :
    (storeLine h l).fields =
      if IsCookieLine l then h.fields else h.fields.insert (fieldName l) (fieldValue l) := by
  rw [storeLine]
  split_ifs
  · cases parseCookies (fieldValue l) <;> rfl
  · rfl

/-- No line changes the words of the start line. -/
theorem storeLine_words (h : RequestHeaderIntermediate) (l : Bytes) :
    (storeLine h l).method = h.method ∧ (storeLine h l).url = h.url ∧
      (storeLine h l).protocol = h.protocol ∧ (storeLine h l).version = h.version := by
  rw [storeLine]
  split_ifs
  · cases parseCookies (fieldValue l) <;> exact ⟨rfl, rfl, rfl, rfl⟩
  · exact ⟨rfl, rfl, rfl, rfl⟩

theorem foldl_storeLine_words (ls : List Bytes) (h : RequestHeaderIntermediate) :
    (ls.foldl storeLine h).method = h.method ∧ (ls.foldl storeLine h).url = h.url ∧
      (ls.foldl storeLine h).protocol = h.protocol ∧
        (ls.foldl storeLine h).version = h.version := by
  induction ls generalizing h with
  | nil => exact ⟨rfl, rfl, rfl, rfl⟩
  | cons l ls ih =>
    obtain ⟨hm, hu, hp, hv⟩ := ih (storeLine h l)
    obtain ⟨hm', hu', hp', hv'⟩ := storeLine_words h l
    exact ⟨hm.trans hm', hu.trans hu', hp.trans hp', hv.trans hv'⟩

/-- What the lines of a header leave under a key. -/
theorem lookup_foldl_storeLine (ls : List Bytes) (h : RequestHeaderIntermediate) (key : Bytes) :
    (ls.foldl storeLine h).fields.lookup key =
      (lastWins (fieldPairs ls) key).or (h.fields.lookup key) := by
  induction ls generalizing h with
  | nil => rfl
  | cons l ls ih =>
    rw [List.foldl_cons, ih, storeLine_fields]
    by_cases hcl : IsCookieLine l
    · have hpairs : fieldPairs (l :: ls) = fieldPairs ls := by simp [fieldPairs, hcl]
      rw [if_pos hcl, hpairs]
    · have hpairs : fieldPairs (l :: ls) = (fieldName l, fieldValue l) :: fieldPairs ls := by
        simp [fieldPairs, hcl]
      rw [if_neg hcl, hpairs, lastWins_cons, Option.or_assoc]
      by_cases hk : key = fieldName l
      · rw [hk, AList.lookup_insert]
        simp
      · rw [AList.lookup_insert_ne hk]
        simp [hk]

/-! ### The grammar of requests -/

/-- What a run that finishes has read: the parser, and the rest of the stream. -/
def Finishes (run : FeedResult × List Bytes) (header : RequestHeaderIntermediate) (r : Bytes) :
    Prop :=
  ∃ p rest, run = (.done p, rest) ∧ p.header = header ∧ p.headerBuffer ++ rest.flatten = r

/-- A run that is not refused for the size of the buffer finishes where the parser finishes on the
whole stream. -/
theorem finishes_iff {cfg : Config} {cs : List Bytes}
    (hlimit : (feedAll (feed cfg) {} cs).1 ≠ .rejected .headerBuffer)
    {header : RequestHeaderIntermediate} {r : Bytes} :
    Finishes (feedAll (feed cfg) {} cs) header r ↔
      ∃ h : HeaderSection, h.Valid cfg ∧ cs.flatten = h.text ++ r ∧
        header = (finishedParser h r).header := by
  rw [(feedAll_feed cs).resolve_right hlimit]
  have hrel := feedAll_drain cfg cs
  generalize feedAll (fun p c => drain cfg (p.append c)) {} cs = run at hrel
  constructor
  · rintro ⟨p, rest, rfl, rfl, rfl⟩
    have hdone : drain cfg (RequestParser.append {} cs.flatten) = .done (p.append rest.flatten) :=
      (hrel.symm parserBuffer.same_equiv).eq_done
    obtain ⟨h, r, hvalid, htext, hp⟩ := drain_eq_done_iff.mp hdone
    have hheader := congrArg RequestParser.header hp
    have hr : p.headerBuffer ++ rest.flatten = r := congrArg RequestParser.headerBuffer hp
    subst hr
    exact ⟨h, hvalid, htext, hheader⟩
  · rintro ⟨h, hvalid, htext, rfl⟩
    rw [drain_eq_done_iff.mpr ⟨h, r, hvalid, htext, rfl⟩] at hrel
    obtain ⟨v, rest⟩ := run
    cases v with
    | done p =>
      have hp : p.append rest.flatten = finishedParser h r := Verdict.done.inj hrel.eq_done
      have hheader := congrArg RequestParser.header hp
      have hr := congrArg RequestParser.headerBuffer hp
      exact ⟨p, rest, rfl, hheader, hr⟩
    | waiting p => cases hrel
    | rejected e => cases hrel

/-- **The grammar of the request header**: a run that is not refused for the size of the buffer
finishes with the rest `r` exactly on the streams `h.text ++ r`, and what it then holds are the
words of `h` and, under each name, the last value of its lines that are not cookies. -/
theorem request_header_grammar (cfg : Config) (cs : List Bytes)
    (hlimit : (feedAll (feed cfg) {} cs).1 ≠ .rejected .headerBuffer) (r : Bytes) :
    ((∃ header, Finishes (feedAll (feed cfg) {} cs) header r) ↔
      ∃ h : HeaderSection, h.Valid cfg ∧ cs.flatten = h.text ++ r) ∧
    ∀ header (h : HeaderSection), Finishes (feedAll (feed cfg) {} cs) header r → h.Valid cfg →
      cs.flatten = h.text ++ r →
      header.method = h.method ∧ header.url = h.url ∧ header.protocol = h.protocol ∧
        header.version = h.version ∧
        ∀ key, header.fields.lookup key = lastWins (fieldPairs h.lines) key := by
  constructor
  · constructor
    · rintro ⟨header, hfin⟩
      obtain ⟨h, hvalid, htext, -⟩ := (finishes_iff hlimit).mp hfin
      exact ⟨h, hvalid, htext⟩
    · rintro ⟨h, hvalid, htext⟩
      exact ⟨_, (finishes_iff hlimit).mpr ⟨h, hvalid, htext, rfl⟩⟩
  · intro header h hfin hvalid htext
    obtain ⟨p, rest, hrun, rfl, -⟩ := hfin
    obtain ⟨p', rest', hrun', hheader, -⟩ := (finishes_iff hlimit).mpr ⟨h, hvalid, htext, rfl⟩
    rw [hrun, Prod.mk.injEq, Verdict.done.injEq] at hrun'
    rw [hrun'.1, hheader, finishedParser]
    obtain ⟨hm, hu, hp, hv⟩ := foldl_storeLine_words h.lines
      { method := h.method, url := h.url, protocol := h.protocol, version := h.version }
    exact ⟨hm, hu, hp, hv, fun key => by rw [lookup_foldl_storeLine]; simp⟩

/-- A request whose `Host` is given twice, with a lone `CR` in the second value, and a line of
cookies. -/
theorem request_header_grammar_get :
    ∃ header, Finishes (feedAll (feed {}) {}
      [bytes "GET /a HTTP/1.1\r\nHost: x\r\nHost : \ry\r\n", bytes "Cookie: a=b\r\n\r\nrest"])
        header (bytes "rest") := by
  refine (request_header_grammar {} _ (by decide +kernel) (bytes "rest")).1.mpr
    ⟨⟨bytes "GET", bytes "/a", bytes "HTTP", bytes "1.1",
        [bytes "Host: x", bytes "Host : \ry", bytes "Cookie: a=b"]⟩,
      ⟨by decide, by decide, by decide, by decide, by decide, by decide, ?_⟩, by decide⟩
  simp only [List.forall_mem_cons, List.not_mem_nil, false_implies, implies_true, and_true]
  refine ⟨⟨⟨_, _, rfl, by decide⟩, by decide, by decide, fun h => absurd h (by decide)⟩,
    ⟨⟨_, _, rfl, by decide⟩, by decide, by decide, fun h => absurd h (by decide)⟩,
    ⟨⟨_, _, rfl, by decide⟩, by decide, by decide, fun _ => ⟨_, rfl⟩⟩⟩

end Attender.Http
