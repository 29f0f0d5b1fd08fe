import Attender.Http.RequestHeader
import Attender.Http.ResponseHandler
import Attender.Library.Maps

/-!
# The text of a response header

The names and values of fields and the attributes of cookies are written as they
are. So the text of a header is read back as that header exactly if none of them
holds the end of a line, and no name what parts it from its value.
-/

namespace Attender.Http

open Attender.Library Attender.Utility

/-! ### Lines -/

/-- The line of a cookie. -/
def cookieLine (c : Cookie) : Bytes := bytes "Set-Cookie: " ++ c.toSetCookieString

/-- The strings that user code gives a cookie. -/
def Cookie.texts (c : Cookie) : List Bytes := [c.name, c.value, c.domain, c.path, c.sameSite]

namespace ResponseHeader

variable {h : ResponseHeader} {order : List (Bytes × Bytes)}

def statusLine (h : ResponseHeader) : Bytes :=
  h.protocol ++ bytes "/" ++ h.version ++ bytes " " ++ toDecimal h.code ++ bytes " " ++ h.message

/-- The lines that a header is to have. -/
def lines (h : ResponseHeader) (order : List (Bytes × Bytes)) : List Bytes :=
  h.statusLine :: (order.map fieldLine ++ h.cookies.map cookieLine)

/-- **The text is read back**: its lines are the status line, one for each field and one for each
cookie, then the empty line at its end, and the lines of the fields give their names and values. -/
structure ReadsBack (h : ResponseHeader) (order : List (Bytes × Bytes)) : Prop where
  lines : splitPair CR LF (h.toString order) = h.lines order ++ [[], []]
  fields : ∀ kv ∈ order, cutPair 58 SP (fieldLine kv) = some kv

/-- Nothing in a header breaks its lines. -/
structure LineSafe (h : ResponseHeader) : Prop where
  names : ∀ name ∈ h.fields, ¬ CRLF <:+: name ∧ ¬ bytes ": " <:+: name
  values : ∀ name value, h.fields.lookup name = some value → ¬ CRLF <:+: value
  cookies : ∀ c ∈ h.cookies, ∀ text ∈ c.texts, ¬ CRLF <:+: text

theorem toString_eq :
    h.toString order = ((h.lines order).flatMap fun l => l ++ CRLF) ++ CRLF := by
  rw [toString, lines, List.flatMap_cons, List.flatMap_append, List.flatMap_map, List.flatMap_map,
    List.flatMap, List.flatMap]
  simp only [statusLine, fieldLine, cookieLine, List.append_assoc]

/-- The text has these lines exactly if none of them is broken. -/
theorem splitPair_toString_iff :
    splitPair CR LF (h.toString order) = h.lines order ++ [[], []] ↔
      ∀ l ∈ h.lines order, ¬ CRLF <:+: l := by
  constructor
  · intro hsplit l hl
    refine not_infix_of_mem_splitPair (s := h.toString order) (by decide) ?_
    rw [hsplit]
    exact List.mem_append_left _ hl
  · intro hunbroken
    rw [toString_eq, splitPair_flatMap (by decide) hunbroken]
    rfl

end ResponseHeader

theorem cutPair_fieldLine_iff {kv : Bytes × Bytes} :
    cutPair 58 SP (fieldLine kv) = some kv ↔ ¬ bytes ": " <:+: kv.1 := by
  have hline : fieldLine kv = kv.1 ++ 58 :: SP :: kv.2 := fieldLine_eq kv
  rw [cutPair_eq_some_iff (a := kv.1) (b := kv.2) (by decide), and_iff_right hline]
  rfl

/-! ### Cookies -/

section Cookies

/-- A text that breaks no line when it is put behind another. -/
structure Plain (t : Bytes) : Prop where
  cr : CR ∉ t
  head : t.head? ≠ some LF

theorem plain_nil : Plain [] := ⟨by simp, by simp⟩

theorem Plain.append {m t : Bytes} (hm : Plain m) (hne : m ≠ []) (ht : CR ∉ t) :
    Plain (m ++ t) := by
  refine ⟨?_, ?_⟩
  · rw [List.mem_append, not_or]
    exact ⟨hm.cr, ht⟩
  · rw [List.head?_append_of_ne_nil _ hne]
    exact hm.head

theorem Plain.ite {t : Bytes} (h : Plain t) (p : Prop) [Decidable p] :
    Plain (if p then t else []) := by
  split_ifs
  · exact h
  · exact plain_nil

theorem Plain.crlf_infix_iff {s t : Bytes} (h : Plain t) : CRLF <:+: s ++ t ↔ CRLF <:+: s := by
  rw [pair_infix_append]
  simp [not_pair_infix_of_not_mem h.cr, h.head]

/-- An attribute with its value. -/
theorem crlf_infix_append_attribute {s m v : Bytes} (hm : m ≠ []) (hcr : CR ∉ m) (hlf : LF ∉ m) :
    CRLF <:+: s ++ (if v ≠ [] then m ++ v else []) ↔ CRLF <:+: s ∨ CRLF <:+: v := by
  by_cases hv : v = []
  · simp [hv]
  · rw [if_pos hv, pair_infix_append_append hm hcr hlf]

/-- The text of a cookie breaks a line exactly if one of its strings does. -/
theorem crlf_infix_toSetCookieString {c : Cookie} :
    CRLF <:+: c.toSetCookieString ↔ ∃ text ∈ c.texts, CRLF <:+: text := by
  have hmaxAge : Plain (bytes "; Max-Age=" ++ toDecimal c.maxAge) :=
    Plain.append ⟨by decide, by decide⟩ (by decide) (cr_not_mem_toDecimal _)
  have hexpires : Plain
      ((c.expires.map fun expires => bytes "; Expires=" ++ toGmtString expires).getD []) := by
    cases c.expires with
    | none => exact plain_nil
    | some expires =>
      exact Plain.append ⟨by decide, by decide⟩ (by decide) (cr_not_mem_toGmtString _)
  have hsecure : Plain (bytes "; Secure") := ⟨by decide, by decide⟩
  have hhttpOnly : Plain (bytes "; HttpOnly") := ⟨by decide, by decide⟩
  rw [Cookie.toSetCookieString, (hhttpOnly.ite _).crlf_infix_iff, (hsecure.ite _).crlf_infix_iff,
    hexpires.crlf_infix_iff, (hmaxAge.ite _).crlf_infix_iff,
    crlf_infix_append_attribute (by decide) (by decide) (by decide),
    crlf_infix_append_attribute (by decide) (by decide) (by decide),
    crlf_infix_append_attribute (by decide) (by decide) (by decide), List.append_assoc,
    pair_infix_append_append (by decide) (by decide) (by decide)]
  simp [Cookie.texts, or_assoc]

theorem crlf_infix_cookieLine {c : Cookie} :
    CRLF <:+: cookieLine c ↔ ∃ text ∈ c.texts, CRLF <:+: text := by
  have hline : CRLF <:+: cookieLine c ↔ CRLF <:+: c.toSetCookieString := by
    have h := pair_infix_append_append (x := CR) (y := LF) (s := []) (m := bytes "Set-Cookie: ")
      (t := c.toSetCookieString) (by decide) (by decide) (by decide)
    rw [List.nil_append] at h
    rw [cookieLine, h]
    simp
  rw [hline, crlf_infix_toSetCookieString]

end Cookies

/-! ### Headers that user code puts together -/

/-- The calls that put a header together. -/
inductive HeaderCall where
  | set (field value : Bytes)
  | append (field value : Bytes)
  | location (where_ : Bytes)
  | redirect (where_ : Bytes) (code : Int)
  | status (code : Int)
  | setCookie (cookie : Cookie)

namespace ResponseHandler

variable (r : ResponseHandler)

/-- `response_handler::location`. -/
def location (where_ : Bytes) : ResponseHandler := r.set (bytes "Location") where_

/-- `response_handler::redirect`. -/
def redirect (where_ : Bytes) (code : Int) : ResponseHandler := (r.status code).location where_

def configure : HeaderCall → ResponseHandler
  | .set field value => r.set field value
  | .append field value => r.append field value
  | .location where_ => r.location where_
  | .redirect where_ code => r.redirect where_ code
  | .status code => r.status code
  | .setCookie cookie => r.setCookie cookie

end ResponseHandler

namespace ResponseHeader

/-- No string of user code gets into the status line. -/
structure Untouched (h : ResponseHeader) : Prop where
  protocol : h.protocol = bytes "HTTP"
  version : h.version = bytes "1.1"
  message : h.message = translateCode h.code

theorem untouched_init : Untouched {} := ⟨rfl, rfl, rfl⟩

theorem Untouched.setCode {h : ResponseHeader} (hh : Untouched h) (code : Int) :
    Untouched (h.setCode code) := ⟨hh.protocol, hh.version, rfl⟩

theorem Untouched.setField {h : ResponseHeader} (hh : Untouched h) (field value : Bytes) :
    Untouched (h.setField field value) := ⟨hh.protocol, hh.version, hh.message⟩

theorem cr_not_mem_translateCode (code : Int) : CR ∉ translateCode code := by
  have htexts : ∀ entry ∈ responseCodes, CR ∉ bytes entry.2 := by decide +kernel
  rw [translateCode]
  cases hlookup : responseCodes.lookup code with
  | none => exact List.not_mem_nil
  | some text =>
    obtain ⟨before, after, hentry, -⟩ := List.lookup_eq_some_iff.mp hlookup
    exact htexts (code, text) (by rw [hentry]; simp)

theorem Untouched.cr_not_mem_statusLine {h : ResponseHeader} (hh : Untouched h) :
    CR ∉ h.statusLine := by
  rw [statusLine, hh.protocol, hh.version, hh.message]
  simp only [List.mem_append, not_or, cr_not_mem_translateCode, cr_not_mem_toDecimal,
    not_false_iff, and_true]
  decide

/-- **A header reads back exactly if nothing in it breaks its lines.** -/
theorem Untouched.readsBack_iff {h : ResponseHeader} (hh : Untouched h)
    {order : List (Bytes × Bytes)} (horder : Iterates h.fields order) :
    ReadsBack h order ↔ LineSafe h := by
  have hlines : (∀ l ∈ h.lines order, ¬ CRLF <:+: l) ↔
      (∀ kv ∈ order, ¬ CRLF <:+: kv.1 ∧ ¬ CRLF <:+: kv.2) ∧
        ∀ c ∈ h.cookies, ∀ text ∈ c.texts, ¬ CRLF <:+: text := by
    rw [lines, List.forall_mem_cons, and_iff_right (not_pair_infix_of_not_mem
      hh.cr_not_mem_statusLine), List.forall_mem_append, List.forall_mem_map, List.forall_mem_map]
    refine and_congr (forall₂_congr fun kv _ => ?_) (forall₂_congr fun c _ => ?_)
    · rw [pair_infix_fieldLine (by decide) (by decide), not_or]
    · rw [crlf_infix_cookieLine, not_exists]
      exact forall_congr' fun text => not_and
  constructor
  · intro hreads
    obtain ⟨hfields, hcookies⟩ := hlines.mp (splitPair_toString_iff.mp hreads.lines)
    refine ⟨?_, ?_, hcookies⟩
    · intro name hname
      obtain ⟨value, hvalue⟩ := Option.isSome_iff_exists.mp (AList.lookup_isSome.mpr hname)
      have hmem : (name, value) ∈ order := horder.mem_iff.mpr hvalue
      exact ⟨(hfields _ hmem).1, cutPair_fieldLine_iff.mp (hreads.fields _ hmem)⟩
    · intro name value hvalue
      exact (hfields (name, value) (horder.mem_iff.mpr hvalue)).2
  · intro hsafe
    have hmem : ∀ kv ∈ order, kv.1 ∈ h.fields := by
      intro kv hkv
      rw [← AList.lookup_isSome, horder.mem_iff.mp hkv, Option.isSome_some]
    refine ⟨splitPair_toString_iff.mpr (hlines.mpr ⟨?_, hsafe.cookies⟩), ?_⟩
    · intro kv hkv
      exact ⟨(hsafe.names _ (hmem kv hkv)).1, hsafe.values _ _ (horder.mem_iff.mp hkv)⟩
    · intro kv hkv
      exact cutPair_fieldLine_iff.mpr (hsafe.names _ (hmem kv hkv)).2

end ResponseHeader

namespace ResponseHandler

open ResponseHeader

variable {r : ResponseHandler}

theorem untouched_configure (h : Untouched r.header) (call : HeaderCall) :
    Untouched (r.configure call).header := by
  cases call with
  | set field value => exact h.setField field value
  | append field value => exact h.setField field _
  | location where_ => exact h.setField _ where_
  | redirect where_ code => exact (h.setCode code).setField _ where_
  | status code => exact h.setCode code
  | setCookie cookie => exact ⟨h.protocol, h.version, h.message⟩

theorem untouched_configured (calls : List HeaderCall) (h : Untouched r.header) :
    Untouched (calls.foldl configure r).header := by
  induction calls generalizing r with
  | nil => exact h
  | cons call calls ih => exact ih (untouched_configure h call)

theorem untouched_trySet (h : Untouched r.header) (field value : Bytes) :
    Untouched (r.trySet field value).header := by
  rw [trySet]
  split_ifs
  · exact h
  · exact h.setField field value

/-- The header that is written is that of the response handler. -/
theorem untouched_sendHeader (h : Untouched r.header) {k k' : HeaderContinuation}
    {header : ResponseHeader} (hsent : .write header k' ∈ (r.sendHeader k).2) :
    Untouched header := by
  simp only [sendHeader] at hsent
  split_ifs at hsent
  · rw [List.mem_singleton, ResponseEffect.write.injEq] at hsent
    rw [hsent.1]
    exact h
  · simp at hsent

theorem untouched_send (h : Untouched r.header) {body : Body} {k : HeaderContinuation}
    {header : ResponseHeader} (hsent : .write header k ∈ (r.send body).2) : Untouched header := by
  rw [send] at hsent
  refine untouched_sendHeader ?_ hsent
  have hset := untouched_trySet (untouched_trySet h (bytes "Content-Length")
    (bytes (toString body.content.length))) (bytes "Content-Type") body.contentType
  split_ifs
  · exact hset.setCode 200
  · exact hset.setCode 204
  · exact hset

/-- **Whatever starts a response** sends a header that user code has not touched but in its fields
and cookies. -/
theorem untouched_sent (h : Untouched r.header) {op : ResponseOp} {k : HeaderContinuation}
    {header : ResponseHeader} (hsent : .write header k ∈ (r.apply op).2) : Untouched header := by
  cases op with
  | send body => exact untouched_send h hsent
  | sendStatus code =>
    rw [apply, sendStatus] at hsent
    split_ifs at hsent
    · exact untouched_send (h.setCode code) hsent
    · exact untouched_sendHeader (r := (r.status code).conclude) (h.setCode code) hsent
  | sendChunked encoding =>
    refine untouched_sendHeader ?_ hsent
    exact (untouched_trySet (r := r.status 200) (h.setCode 200) _ _).setField _ _
  | end_ => exact untouched_sendHeader (r := r.conclude) h hsent
  | status code => cases hsent
  | set field value => cases hsent
  | append field value => cases hsent
  | setCookie cookie => cases hsent
  | observeConclusion => cases hsent

/-- **The header text**: after all calls that put a header together, the text that is sent reads
back as the header exactly if nothing that user code has put in it breaks its lines. -/
theorem header_text_iff (calls : List HeaderCall) (op : ResponseOp) (header : ResponseHeader)
    (k : HeaderContinuation)
    (hsent : .write header k ∈ ((calls.foldl configure ({} : ResponseHandler)).apply op).2)
    (order : List (Bytes × Bytes)) (horder : Iterates header.fields order) :
    ReadsBack header order ↔ LineSafe header :=
  (untouched_sent (untouched_configured calls untouched_init) hsent).readsBack_iff horder

/-- A redirect to another page reads back. -/
theorem header_text_iff_redirect :
    ReadsBack (({} : ResponseHandler).redirect (bytes "/b") 302).header
        [(bytes "Location", bytes "/b")] ↔
      LineSafe (({} : ResponseHandler).redirect (bytes "/b") 302).header :=
  header_text_iff [.redirect (bytes "/b") 302] .end_
    (({} : ResponseHandler).redirect (bytes "/b") 302).header .remove (List.mem_singleton.mpr rfl)
    [(bytes "Location", bytes "/b")] (.refl _)

/-- A redirect target that breaks its line. -/
def brokenTarget : Bytes := bytes "/b" ++ CRLF ++ bytes "A: b"

/-- Not every header reads back. -/
theorem not_readsBack_redirect :
    ¬ ∀ (calls : List HeaderCall) (op : ResponseOp) (header : ResponseHeader)
      (k : HeaderContinuation),
      .write header k ∈ ((calls.foldl configure ({} : ResponseHandler)).apply op).2 →
      ∀ order : List (Bytes × Bytes), Iterates header.fields order → ReadsBack header order := by
  intro h
  have hreads := h [.redirect brokenTarget 302] .end_
    (({} : ResponseHandler).redirect brokenTarget 302).header .remove (List.mem_singleton.mpr rfl)
    [(bytes "Location", brokenTarget)] (.refl _)
  have huntouched : Untouched (({} : ResponseHandler).redirect brokenTarget 302).header :=
    untouched_configured [.redirect brokenTarget 302] untouched_init
  exact ((huntouched.readsBack_iff (.refl _)).mp hreads).values (bytes "Location") brokenTarget
    (AList.lookup_insert _) ⟨bytes "/b", bytes "A: b", rfl⟩

end ResponseHandler

end Attender.Http
