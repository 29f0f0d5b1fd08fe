import Attender.Http.HeaderRoundTrip

/-!
# The letter case of field names

What a request keeps when its field names are written in other letters. The name
of a cookie line is folded before it is looked at. The other names are stored
and looked up as they come, and the last line of a name is the one that counts,
so two requests are the same only if these lines have the same names.
-/

namespace Attender.Http

open Attender.Library HeaderSection

/-! ### Recased lines -/

/-- Two lines that differ only in the letters of what stands before the colon. -/
def RecasedLine (l l' : Bytes) : Prop :=
  ∃ a a' b, cut 58 l = some (a, b) ∧ cut 58 l' = some (a', b) ∧ toLowerCopy a = toLowerCopy a'

/-- Two header sections that differ only in the letters of their field names. -/
structure Recased (s s' : HeaderSection) : Prop where
  method : s'.method = s.method
  url : s'.url = s.url
  protocol : s'.protocol = s.protocol
  version : s'.version = s.version
  lines : List.Forall₂ RecasedLine s.lines s'.lines

/-- A byte that is no letter is where it was. -/
theorem map_toLower_eq_cons {s t : Bytes} {b : Byte} (h : toLowerCopy s = toLowerCopy (b :: t)) :
    ∃ c s', s = c :: s' ∧ toLower c = toLower b ∧ toLowerCopy s' = toLowerCopy t := by
  rw [toLowerCopy, toLowerCopy, List.map_cons, List.map_eq_cons_iff] at h
  obtain ⟨c, s', rfl, hc, hs'⟩ := h
  exact ⟨c, s', rfl, hc, hs'⟩

/-- The ends of lines are not letters. -/
theorem crlf_infix_of_toLowerCopy {s t : Bytes} (h : toLowerCopy s = toLowerCopy t)
    (hs : CRLF <:+: s) : CRLF <:+: t := by
  obtain ⟨l, r, rfl⟩ := hs
  rw [toLowerCopy, List.append_assoc, List.map_append, toLowerCopy] at h
  obtain ⟨l', t', rfl, -, h⟩ := List.map_eq_append_iff.mp h.symm
  obtain ⟨b, t₁, rfl, hb, h⟩ := map_toLower_eq_cons (b := CR) h
  obtain ⟨c, t₂, rfl, hc, -⟩ := map_toLower_eq_cons (b := LF) h
  rw [← eq_of_toLower_eq hb.symm (by decide), ← eq_of_toLower_eq hc.symm (by decide)]
  exact ⟨l', t₂, by simp⟩

namespace RecasedLine

variable {l l' : Bytes}

theorem toLowerCopy_eq (h : RecasedLine l l') : toLowerCopy l = toLowerCopy l' := by
  obtain ⟨a, a', b, hl, hl', hcase⟩ := h
  obtain ⟨rfl, -⟩ := cut_eq_some_iff.mp hl
  obtain ⟨rfl, -⟩ := cut_eq_some_iff.mp hl'
  simp only [toLowerCopy, List.map_append, List.map_cons] at hcase ⊢
  rw [hcase]

theorem fieldName (h : RecasedLine l l') :
    toLowerCopy (fieldName l) = toLowerCopy (Http.fieldName l') := by
  obtain ⟨a, a', b, hl, hl', hcase⟩ := h
  rw [Http.fieldName, Http.fieldName, colonParts_of_cut hl, colonParts_of_cut hl', toLowerCopy,
    toLowerCopy, ← trimRight_map isSpace_toLower, ← trimRight_map isSpace_toLower]
  exact congrArg trimRight hcase

theorem fieldValue (h : RecasedLine l l') : fieldValue l' = Http.fieldValue l := by
  obtain ⟨a, a', b, hl, hl', -⟩ := h
  rw [Http.fieldValue, Http.fieldValue, colonParts_of_cut hl, colonParts_of_cut hl']

theorem isCookieLine_iff (h : RecasedLine l l') : IsCookieLine l' ↔ IsCookieLine l := by
  rw [IsCookieLine, IsCookieLine, h.fieldName]

/-- A line of a header stays one. -/
theorem isFieldLine (h : RecasedLine l l') (hl : IsFieldLine l) : IsFieldLine l' where
  start := by
    obtain ⟨c, t, rfl, hc⟩ := hl.start
    obtain ⟨c', t', rfl, hcase, -⟩ := map_toLower_eq_cons h.toLowerCopy_eq.symm
    exact ⟨c', t', rfl, by rw [← isAlnum_toLower, hcase, isAlnum_toLower, hc]⟩
  unbroken hbroken := hl.unbroken (crlf_infix_of_toLowerCopy h.toLowerCopy_eq.symm hbroken)
  colon := by
    obtain ⟨a, a', b, -, hl', -⟩ := h
    obtain ⟨rfl, -⟩ := cut_eq_some_iff.mp hl'
    simp
  cookie hcookie := by
    rw [h.fieldValue]
    exact hl.cookie (h.isCookieLine_iff.mp hcookie)

end RecasedLine

/-- The lines of a header stay lines of a header. -/
theorem isFieldLine_of_recased {ls ls' : List Bytes} (h : List.Forall₂ RecasedLine ls ls')
    (hls : ∀ l ∈ ls, IsFieldLine l) : ∀ l ∈ ls', IsFieldLine l := by
  induction h with
  | nil => exact hls
  | cons hl _ ih =>
    rw [List.forall_mem_cons] at hls ⊢
    exact ⟨hl.isFieldLine hls.1, ih hls.2⟩

/-- A valid header section stays valid. -/
theorem Recased.valid {cfg : Config} {s s' : HeaderSection} (h : Recased s s')
    (hvalid : s.Valid cfg) : s'.Valid cfg where
  method := h.method ▸ hvalid.method
  url := h.url ▸ hvalid.url
  protocol := h.protocol ▸ hvalid.protocol
  slash := h.protocol ▸ hvalid.slash
  version := h.version ▸ hvalid.version
  count := h.lines.length_eq ▸ hvalid.count
  lines := isFieldLine_of_recased h.lines hvalid.lines

/-! ### What is stored -/

/-- The cookies are the same. -/
theorem cookies_of_recased {ls ls' : List Bytes} (h : List.Forall₂ RecasedLine ls ls')
    {g g' : RequestHeaderIntermediate} (hg : g'.cookies = g.cookies) :
    (ls'.foldl storeLine g').cookies = (ls.foldl storeLine g).cookies := by
  induction h generalizing g g' with
  | nil => exact hg
  | @cons l l' _ _ hl _ ih =>
    refine ih ?_
    by_cases hcookie : IsCookieLine l
    · rw [storeLine, storeLine, if_pos hcookie, if_pos (hl.isCookieLine_iff.mpr hcookie),
        hl.fieldValue]
      cases parseCookies (fieldValue l) with
      | ok cookies => simp only [hg]
      | error e => exact hg
    · rw [storeLine, storeLine, if_neg hcookie, if_neg (hl.isCookieLine_iff.not.mpr hcookie)]
      exact hg

/-- The fields that remain of two header sections, the last of each name without the cookie lines,
have the same names and values. -/
def SameFields (s s' : HeaderSection) : Prop :=
  ∀ field, field ∈ lasts (fieldPairs s'.lines) ↔ field ∈ lasts (fieldPairs s.lines)

/-! ### Finished requests -/

section Requests

variable {κ φ : Type}

/-- The request handler once the parser has finished a header section and its header has been
constructed. -/
structure FinishedRequest (cfg : Config) (s : HeaderSection) (r : RequestHandler κ φ) : Prop where
  valid : s.Valid cfg
  finished : ∃ cs rest, feedAll (feed cfg) {} cs = (.done r.parser, rest) ∧ s.text <+: cs.flatten
  header : r.parser.header.requestHeader = some r.header

/-- Two requests behave alike in their cookies, in the lookups of the library, and in the fields
that a handler asks for. -/
structure Alike (r r' : RequestHandler κ φ) : Prop where
  cookie : ∀ name, r'.getCookieValue name = r.getCookieValue name
  contentLength : r'.getContentLength = r.getContentLength
  expectsContinue : r'.expectsContinue = r.expectsContinue
  authorization : r'.getHeaderField (bytes "Authorization") =
    r.getHeaderField (bytes "Authorization")
  hostname : ∀ trustProxy, r'.hostname trustProxy = r.hostname trustProxy
  field : ∀ key, r'.getHeaderField key = r.getHeaderField key

/-- What a finished request holds. -/
theorem FinishedRequest.holds {cfg : Config} {s : HeaderSection} {r : RequestHandler κ φ}
    (h : FinishedRequest cfg s r) :
    r.parser.header = (finishedParser s []).header ∧
      ∃ t, RequestHeader.targetParts s.url ∅ = some t ∧
        r.header = (finishedParser s []).header.toRequestHeader.withTarget t := by
  obtain ⟨hvalid, ⟨cs, rest, hrun, tail, htext⟩, hheader⟩ := h
  have hlimit : (feedAll (feed cfg) {} cs).1 ≠ .rejected .headerBuffer := by
    rw [hrun]
    exact nofun
  obtain ⟨p', rest', hrun', hp', -⟩ :=
    (finishes_iff hlimit).mpr ⟨s, hvalid, htext.symm, rfl⟩
  rw [hrun, Prod.mk.injEq, Verdict.done.injEq] at hrun'
  have hparser : r.parser.header = (finishedParser s []).header := by rw [hrun'.1, hp']; rfl
  refine ⟨hparser, ?_⟩
  rw [hparser, requestHeader_finished] at hheader
  obtain ⟨t, ht, e⟩ := Option.map_eq_some_iff.mp hheader
  exact ⟨t, ht, e.symm⟩

/-- A header section that fits into the buffer is finished. -/
theorem finishedRequest_of_fits {cfg : Config} {s : HeaderSection} {t : Bytes × StringMap}
    (hvalid : s.Valid cfg) (hfits : s.text.length ≤ cfg.headerBufferMax)
    (ht : RequestHeader.targetParts s.url ∅ = some t) :
    FinishedRequest cfg s ({
      parser := finishedParser s []
      header := (finishedParser s []).header.toRequestHeader.withTarget t } :
        RequestHandler κ φ) where
  valid := hvalid
  finished := by
    have hdrain : drain cfg (RequestParser.append {} s.text) = .done (finishedParser s []) :=
      drain_eq_done_iff.mpr ⟨s, [], hvalid, (List.append_nil _).symm, rfl⟩
    have hfeed : feed cfg {} s.text = .done (finishedParser s []) := by
      rw [feed, if_neg (by decide), if_neg (by simpa using hfits), hdrain]
    exact ⟨[s.text], [], by rw [feedAll, hfeed], by simp⟩
  header := by rw [requestHeader_finished, ht, Option.map_some]

/-- Requests with the same cookies and the same fields are alike. -/
theorem Alike.of_fields {r r' : RequestHandler κ φ}
    (hcookies : r'.header.cookies = r.header.cookies)
    (hfields : ∀ key, r'.header.fields.lookup key = r.header.fields.lookup key)
    (hparser : ∀ key, r'.parser.header.fields.lookup key = r.parser.header.fields.lookup key) :
    Alike r r' where
  cookie name := by
    rw [RequestHandler.getCookieValue, RequestHandler.getCookieValue, RequestHeader.getCookie,
      RequestHeader.getCookie, hcookies]
  contentLength := by
    rw [RequestHandler.getContentLength, RequestHandler.getContentLength, RequestHeader.getField,
      RequestHeader.getField, hfields]
  expectsContinue := by
    rw [RequestHandler.expectsContinue, RequestHandler.expectsContinue, RequestHeader.getField,
      RequestHeader.getField, hfields]
  authorization := hfields _
  hostname trustProxy := by
    rw [RequestHandler.hostname, RequestHandler.hostname, RequestParser.getField,
      RequestParser.getField, RequestParser.getField, RequestParser.getField, hparser, hparser]
  field := hfields

/-- The fields of a finished request are those that remain of its section. -/
theorem FinishedRequest.lookup_eq_some_iff {cfg : Config} {s : HeaderSection}
    {r : RequestHandler κ φ} (h : FinishedRequest cfg s r) {name value : Bytes} :
    r.header.fields.lookup name = some value ↔ (name, value) ∈ lasts (fieldPairs s.lines) := by
  obtain ⟨-, t, ht, hheader⟩ := h.holds
  rw [hheader, (headerOf_finished s [] ht).fields, lookup_insertAll_eq_some_iff, AList.lookup_empty]
  simp

/-- **When the letter case of field names does not matter**: two requests whose header sections
differ in nothing else behave alike exactly if the fields that remain have the same names. -/
theorem recased_alike_iff {cfg : Config} {s s' : HeaderSection} {r r' : RequestHandler κ φ}
    (hrecased : Recased s s') (h : FinishedRequest cfg s r) (h' : FinishedRequest cfg s' r') :
    Alike r r' ↔ SameFields s s' := by
  constructor
  · rintro halike ⟨name, value⟩
    rw [← h'.lookup_eq_some_iff, ← h.lookup_eq_some_iff]
    exact (congrArg (· = some value) (halike.field name)).to_iff
  · intro hsame
    have hfields : ∀ key, r'.header.fields.lookup key = r.header.fields.lookup key := by
      intro key
      refine Option.ext fun value => ?_
      rw [h'.lookup_eq_some_iff, h.lookup_eq_some_iff, hsame]
    obtain ⟨hp, t, ht, hh⟩ := h.holds
    obtain ⟨hp', t', ht', hh'⟩ := h'.holds
    refine Alike.of_fields ?_ hfields ?_
    · rw [hh, hh']
      exact cookies_of_recased hrecased.lines rfl
    · intro key
      have hkey := hfields key
      rw [hh, hh'] at hkey
      rw [hp, hp']
      exact hkey

end Requests

/-- Two requests that write the name of their cookie line in other letters. -/
theorem recased_alike_cookie :
    ∃ r r' : RequestHandler Unit Unit,
      FinishedRequest {} ⟨bytes "GET", bytes "/", bytes "HTTP", bytes "1.1",
        [bytes "Cookie: a=b", bytes "1: x"]⟩ r ∧
      FinishedRequest {} ⟨bytes "GET", bytes "/", bytes "HTTP", bytes "1.1",
        [bytes "cOOKIE: a=b", bytes "1: x"]⟩ r' ∧ Alike r r' := by
  have hrecased : Recased
      ⟨bytes "GET", bytes "/", bytes "HTTP", bytes "1.1", [bytes "Cookie: a=b", bytes "1: x"]⟩
      ⟨bytes "GET", bytes "/", bytes "HTTP", bytes "1.1", [bytes "cOOKIE: a=b", bytes "1: x"]⟩ :=
    ⟨rfl, rfl, rfl, rfl, .cons ⟨_, _, _, rfl, rfl, by decide⟩
      (.cons ⟨_, _, _, rfl, rfl, by decide⟩ .nil)⟩
  have hvalid : HeaderSection.Valid {}
      ⟨bytes "GET", bytes "/", bytes "HTTP", bytes "1.1", [bytes "Cookie: a=b", bytes "1: x"]⟩ := by
    refine ⟨by decide, by decide, by decide, by decide, by decide, by decide, ?_⟩
    simp only [List.forall_mem_cons, List.not_mem_nil, false_implies, implies_true, and_true]
    exact ⟨⟨⟨_, _, rfl, by decide⟩, by decide, by decide, fun _ => ⟨_, rfl⟩⟩,
      ⟨⟨_, _, rfl, by decide⟩, by decide, by decide, fun h => absurd h (by decide)⟩⟩
  have h := finishedRequest_of_fits (κ := Unit) (φ := Unit) hvalid (by decide) rfl
  have h' := finishedRequest_of_fits (κ := Unit) (φ := Unit) (hrecased.valid hvalid) (by decide) rfl
  have hsame : lasts (fieldPairs [bytes "cOOKIE: a=b", bytes "1: x"]) =
      lasts (fieldPairs [bytes "Cookie: a=b", bytes "1: x"]) := by decide
  exact ⟨_, _, h, h', (recased_alike_iff hrecased h h').mpr fun field => by rw [hsame]⟩

/-- `Content-Length` in lower case: `read_body` finds no length. -/
theorem not_alike_content_length :
    ¬ ∀ (cfg : Config) (s s' : HeaderSection) (r r' : RequestHandler Unit Unit), Recased s s' →
      FinishedRequest cfg s r → FinishedRequest cfg s' r' → Alike r r' := by
  intro h
  let s (name : Bytes) : HeaderSection :=
    ⟨bytes "POST", bytes "/", bytes "HTTP", bytes "1.1", [name ++ bytes ": 5"]⟩
  have hrecased : Recased (s (bytes "Content-Length")) (s (bytes "content-length")) :=
    ⟨rfl, rfl, rfl, rfl, .cons ⟨_, _, _, rfl, rfl, by decide⟩ .nil⟩
  have hvalid : (s (bytes "Content-Length")).Valid {} := by
    refine ⟨by decide, by decide, by decide, by decide, by decide, by decide, ?_⟩
    simp only [s, List.forall_mem_singleton]
    exact ⟨⟨_, _, rfl, by decide⟩, by decide, by decide, fun h => absurd h (by decide)⟩
  have halike := h {} _ _ _ _ hrecased (finishedRequest_of_fits hvalid (by decide) rfl)
    (finishedRequest_of_fits (hrecased.valid hvalid) (by decide) rfl)
  exact absurd halike.contentLength (by decide)

end Attender.Http
