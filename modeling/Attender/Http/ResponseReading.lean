import Attender.Http.ChunkedFraming
import Attender.Http.SendOverloads
import Attender.Http.SetCookie
import Attender.Http.WrittenHeaders
import Attender.Library.SelfDelimiting

/-!
# What a client reads of a response

A client reads the header up to the empty line, and then as much as the header
says: nothing, the chunks up to the terminal one, or `Content-Length` bytes. It
takes what the handler has sent for a response exactly when all of it is there,
however the writes end (`response_reads_back`, `chunked_reads_back`).
-/

namespace Attender.Http

open Attender.Library Attender.Utility

/-! ### The reading of a client -/

/-- A line up to its end. -/
def readLine : Reader Byte Bytes := cutPair CR LF

/-- The lines up to the empty one. -/
def readLines : Reader Byte (List Bytes) := readLine.untilStop (· = [])

/-- The version, the code and the message of a status line. -/
def readStatus (line : Bytes) : Option (Bytes × Bytes × Bytes) :=
  (cut SP line).bind fun p => (cut SP p.2).map fun q => (p.1, q.1, q.2)

/-- A chunk: the data is empty in the terminal one. -/
def readChunk : Reader Byte Bytes :=
  readLine.bind fun size => (Reader.take (hexValue size)).bind fun data =>
    readLine.bind fun rest => if rest = [] then .pure data else .fail

/-- The chunks up to the terminal one. -/
def readChunks : Reader Byte (List Bytes) := readChunk.untilStop (· = [])

/-- The codes of responses without a body: `1xx`, `204` and `304`. -/
def bodiless (code : Bytes) : Bool :=
  (code.length = 3 ∧ code.head? = some 49) ∨ code = bytes "204" ∨ code = bytes "304"

/-- The fields with this name, in any case. -/
def fieldsNamed (name : Bytes) (fields : List (Bytes × Bytes)) : List Bytes :=
  (fields.filter fun kv => toLowerCopy kv.1 = name).map Prod.snd

/-- The body, as the code and the fields say. Without a length it would end with the connection. -/
def readBodyOf (code : Bytes) (fields : List (Bytes × Bytes)) : Reader Byte Bytes :=
  if bodiless code then .pure []
  else if bytes "chunked" ∈ fieldsNamed (bytes "transfer-encoding") fields then
    readChunks.bind fun chunks => .pure chunks.flatten
  else
    match fieldsNamed (bytes "content-length") fields with
    | [value] => .take (decimalValue value)
    | _ => .fail

/-- What a client has of a response. -/
structure ReadResponse where
  code : Bytes
  message : Bytes
  fields : List (Bytes × Bytes)
  body : Bytes
  deriving DecidableEq

/-- The reading of a response. -/
def readResponse : Reader Byte ReadResponse :=
  readLines.bind fun lines =>
    match lines with
    | [] => .fail
    | status :: lines =>
      match readStatus status with
      | none => .fail
      | some (_, code, message) =>
        let fields := lines.filterMap (cutPair 58 SP)
        (readBodyOf code fields).bind fun body => .pure ⟨code, message, fields, body⟩

/-! ### The header -/

/-- A line without a line end in it is read up to its end. -/
theorem reads_line {l : Bytes} (h : ¬ CRLF <:+: l) : Reads readLine (l ++ CRLF) l where
  whole rest := by
    refine (cutPair_eq_some_iff (by decide)).mpr ⟨?_, h⟩
    rw [List.append_assoc]
    rfl
  part {s} hs hne := by
    refine cutPair_eq_none_iff.mpr fun hin => ?_
    rcases prefix_append_cases hs hne with ⟨hs, -⟩ | ⟨t, rfl, ht, hne⟩
    · exact h (hin.trans hs.isInfix)
    · rcases pair_infix_append.mp hin with hl | ht' | ⟨-, hlf⟩
      · exact h hl
      · exact hne (ht.eq_of_length_le ht'.length_le)
      · cases t with
        | nil => cases hlf
        | cons b t =>
          obtain rfl := Option.some.inj hlf
          exact absurd (List.cons_prefix_cons.mp ht).1 (by decide)

/-- Lines that are not empty, and the empty one. -/
theorem reads_lines {ls : List Bytes} (hls : ∀ l ∈ ls, l ≠ [] ∧ ¬ CRLF <:+: l) :
    Reads readLines ((ls.flatMap fun l => l ++ CRLF) ++ CRLF) ls := by
  have hwords : List.Forall₂ (Reads readLine) (ls.map fun l => l ++ CRLF) ls := by
    rw [List.forall₂_map_left_iff, List.forall₂_same]
    exact fun l hl => reads_line (hls l hl).2
  have hlast : Reads readLine CRLF [] := reads_line (l := []) (by decide)
  rw [List.flatMap_def]
  refine Reads.untilStop hwords (fun l hl => (hls l hl).1) hlast rfl ?_
  intro word hword
  obtain ⟨l, -, rfl⟩ := List.mem_map.mp hword
  exact List.append_ne_nil_of_right_ne_nil l (by decide)

namespace ResponseHeader

variable {h : ResponseHeader} {order : List (Bytes × Bytes)}

/-- What a client finds of the fields and the cookies. -/
def fieldsRead (h : ResponseHeader) (order : List (Bytes × Bytes)) : List (Bytes × Bytes) :=
  order ++ h.cookies.map fun c => (bytes "Set-Cookie", c.toSetCookieString)

theorem sp_not_mem_toDecimal (n : Int) : SP ∉ toDecimal n := by
  intro hmem
  rcases mem_toDecimal hmem with hdigit | hminus
  · exact absurd hdigit (by decide)
  · exact absurd hminus (by decide)

theorem Untouched.readStatus_statusLine (hh : h.Untouched) :
    readStatus h.statusLine = some (bytes "HTTP/1.1", toDecimal h.code, h.message) := by
  have hline : h.statusLine =
      bytes "HTTP/1.1" ++ SP :: (toDecimal h.code ++ SP :: h.message) := by
    rw [statusLine, hh.protocol, hh.version]
    simp [bytes]
    rfl
  rw [readStatus, hline, cut_eq_some_iff.mpr ⟨rfl, by decide⟩, Option.bind_some,
    cut_eq_some_iff.mpr ⟨rfl, sp_not_mem_toDecimal h.code⟩]
  rfl

/-- The lines of a header are read. -/
theorem Untouched.reads_toString (hh : h.Untouched) (hsafe : h.LineSafe)
    (horder : Iterates h.fields order) :
    Reads readLines (h.toString order) (h.lines order) ∧
      (order.map fieldLine ++ h.cookies.map cookieLine).filterMap (cutPair 58 SP) =
        h.fieldsRead order := by
  obtain ⟨hlines, hfields⟩ := (hh.readsBack_iff horder).mpr hsafe
  constructor
  · rw [toString_eq]
    refine reads_lines fun l hl => ⟨?_, splitPair_toString_iff.mp hlines l hl⟩
    rw [lines, List.mem_cons, List.mem_append, List.mem_map, List.mem_map] at hl
    rcases hl with rfl | ⟨kv, -, rfl⟩ | ⟨c, -, rfl⟩
    · rw [statusLine, hh.protocol]
      simp [bytes]
    · rw [fieldLine_eq]
      exact List.append_ne_nil_of_right_ne_nil _ (List.cons_ne_nil _ _)
    · exact List.append_ne_nil_of_left_ne_nil (by decide) _
  · rw [List.filterMap_append, List.filterMap_map, List.filterMap_map, fieldsRead]
    congr 1
    · exact (List.filterMap_congr hfields).trans List.filterMap_some
    · have hcookies : ∀ c ∈ h.cookies, (cutPair 58 SP ∘ cookieLine) c =
          (some ∘ fun c : Cookie => (bytes "Set-Cookie", c.toSetCookieString)) c :=
        fun c _ => cutPair_cookieLine c
      rw [List.filterMap_congr hcookies, List.filterMap_eq_map]

/-- **The header, and the body that it says follows**. -/
theorem Untouched.reads_response (hh : h.Untouched) (hsafe : h.LineSafe)
    (horder : Iterates h.fields order) {w body : Bytes}
    (hbody : Reads (readBodyOf (toDecimal h.code) (h.fieldsRead order)) w body) :
    Reads readResponse (h.toString order ++ w)
      ⟨toDecimal h.code, h.message, h.fieldsRead order, body⟩ := by
  obtain ⟨hlines, hfields⟩ := hh.reads_toString hsafe horder
  refine hlines.bind ?_
  rw [lines]
  dsimp only
  rw [hh.readStatus_statusLine]
  dsimp only
  rw [hfields]
  exact hbody.map rfl

end ResponseHeader

/-! ### Chunks -/

/-- A chunk is read, also the terminal one. -/
theorem reads_chunk (data : Bytes) : Reads readChunk (chunkBytes data) data := by
  have hsize : ¬ CRLF <:+: toHex data.length :=
    not_pair_infix_of_not_mem fun hmem =>
      absurd (isHexDigit_of_mem_toHex hmem) (by decide)
  have hrest : Reads readLine CRLF [] := reads_line (l := []) (by decide)
  rw [chunkBytes_eq, List.append_assoc]
  refine (reads_line hsize).bind ?_
  rw [hexValue_toHex]
  exact (Reads.take data).bind (hrest.map (if_pos rfl))

/-- **The chunks up to the terminal one**. -/
theorem reads_chunks {ds : List Bytes} (hds : ∀ d ∈ ds, d ≠ []) :
    Reads readChunks (wire (ds.map .chunk ++ [.terminal])) ds := by
  have hwords : List.Forall₂ (Reads readChunk) (ds.map chunkBytes) ds := by
    rw [List.forall₂_map_left_iff, List.forall₂_same]
    exact fun d _ => reads_chunk d
  have hlast : Reads readChunk (frameBytes .terminal) [] := reads_chunk []
  have hwire : wire (ds.map .chunk ++ [.terminal]) =
      (ds.map chunkBytes).flatten ++ frameBytes .terminal := by
    rw [wire, List.flatMap_append, List.flatMap_map, List.flatMap_singleton, ← List.flatMap_def]
    rfl
  rw [hwire]
  refine Reads.untilStop hwords hds hlast rfl ?_
  intro word hword
  obtain ⟨d, -, rfl⟩ := List.mem_map.mp hword
  rw [chunkBytes_eq]
  exact List.append_ne_nil_of_right_ne_nil _ (by decide)

/-! ### A response with a length -/

/-- User code has set no field that says how long the body is. -/
def SaysNoLength (h : ResponseHeader) : Prop :=
  ∀ name ∈ h.fields, toLowerCopy name ≠ bytes "content-length" ∧
    toLowerCopy name ≠ bytes "transfer-encoding"

namespace ResponseHandler

variable (r : ResponseHandler) (body : Body)

/-- The handler with the length and the type of a body. -/
def typed : ResponseHandler :=
  (r.trySet (bytes "Content-Length") (bytes (ToString.toString body.content.length))).trySet
    (bytes "Content-Type") body.contentType

/-- The handler as `send` makes it before it writes the header. -/
def prepared : ResponseHandler :=
  if (r.typed body).header.code = 204 ∧ body.content.length ≠ 0 then (r.typed body).status 200
  else if (r.typed body).header.code = 200 ∧ body.content.length = 0 then
    (r.typed body).status 204
  else r.typed body

theorem send_eq_prepared : r.send body = (r.prepared body).sendHeader (.body body) := rfl

variable {r body}

/-- `try_set` changes the fields, one of them. -/
theorem trySet_kept (field value : Bytes) :
    (r.trySet field value).header.cookies = r.header.cookies ∧
      (r.trySet field value).header.code = r.header.code ∧
      (r.trySet field value).headerSent = r.headerSent ∧
      ∀ name, name ≠ field →
        (r.trySet field value).header.fields.lookup name = r.header.fields.lookup name := by
  rw [trySet]
  split_ifs
  · exact ⟨rfl, rfl, rfl, fun _ _ => rfl⟩
  · exact ⟨rfl, rfl, rfl, fun name hname => AList.lookup_insert_ne hname⟩

theorem lookup_trySet (field value : Bytes) :
    (r.trySet field value).header.fields.lookup field =
      some ((r.header.fields.lookup field).getD value) := by
  rw [trySet, ResponseHeader.hasField]
  cases hfield : r.header.fields.lookup field with
  | none =>
    rw [if_neg (by simp)]
    exact AList.lookup_insert _
  | some v =>
    rw [if_pos Option.isSome_some]
    exact hfield

/-- The code is made to go with the body, and nothing else is changed. -/
theorem prepared_kept : (r.prepared body).header.cookies = r.header.cookies ∧
    (r.prepared body).header.fields = (r.typed body).header.fields ∧
    (r.prepared body).headerSent = r.headerSent ∧
    ((r.prepared body).header.code = r.header.code ∨ (r.prepared body).header.code = 200 ∨
      (r.prepared body).header.code = 204) ∧
    ((r.prepared body).header.code = 204 → body.content = []) := by
  obtain ⟨hcookies, hcode, hsent, -⟩ := trySet_kept (r := r) (bytes "Content-Length")
    (bytes (ToString.toString body.content.length))
  obtain ⟨hcookies', hcode', hsent', -⟩ := trySet_kept
    (r := r.trySet (bytes "Content-Length") (bytes (ToString.toString body.content.length)))
    (bytes "Content-Type") body.contentType
  have hempty := List.length_eq_zero_iff (l := body.content)
  rw [prepared]
  split_ifs with hsome hnone
  · have hcode : (200 : Int) ≠ 204 := by decide
    exact ⟨hcookies'.trans hcookies, rfl, hsent'.trans hsent, Or.inr (Or.inl rfl),
      fun h => absurd h hcode⟩
  · exact ⟨hcookies'.trans hcookies, rfl, hsent'.trans hsent, Or.inr (Or.inr rfl),
      fun _ => hempty.mp hnone.2⟩
  · exact ⟨hcookies'.trans hcookies, rfl, hsent'.trans hsent, Or.inl (hcode'.trans hcode),
      fun h => hempty.mp (not_not.mp fun hne => hsome ⟨h, hne⟩)⟩

theorem prepared_untouched (h : r.header.Untouched) : (r.prepared body).header.Untouched := by
  have htyped : (r.typed body).header.Untouched :=
    untouched_keptByCalls.trySet (untouched_keptByCalls.trySet h _ _) _ _
  rw [prepared]
  split_ifs
  · exact htyped.setCode 200
  · exact htyped.setCode 204
  · exact htyped

/-- The fields of the header that is written. -/
theorem lookup_prepared (name : Bytes) : (r.prepared body).header.fields.lookup name =
    if name = bytes "Content-Length" then
      some ((r.header.fields.lookup name).getD (toDecimal body.content.length))
    else if name = bytes "Content-Type" then
      some ((r.header.fields.lookup name).getD body.contentType)
    else r.header.fields.lookup name := by
  have hne : bytes "Content-Length" ≠ bytes "Content-Type" := by decide
  rw [prepared_kept.2.1, typed]
  split_ifs with hlength htype
  · rw [hlength, (trySet_kept _ _).2.2.2 _ hne, lookup_trySet]
    rfl
  · rw [htype, lookup_trySet, (trySet_kept _ _).2.2.2 _ hne.symm]
  · rw [(trySet_kept _ _).2.2.2 _ htype, (trySet_kept _ _).2.2.2 _ hlength]

end ResponseHandler

/-! ### The fields that say how long the body is -/

section Framing

variable {h : ResponseHeader} {order : List (Bytes × Bytes)}

theorem mem_fieldsNamed {name value : Bytes} {fields : List (Bytes × Bytes)} :
    value ∈ fieldsNamed name fields ↔ ∃ key, (key, value) ∈ fields ∧ toLowerCopy key = name := by
  simp [fieldsNamed]

/-- A cookie says nothing about the body. -/
theorem fieldsNamed_fieldsRead {name : Bytes} (hname : name ≠ bytes "set-cookie") :
    fieldsNamed name (h.fieldsRead order) = fieldsNamed name order := by
  have hcookies : (h.cookies.map fun c => (bytes "Set-Cookie", c.toSetCookieString)).filter
      (fun kv => toLowerCopy kv.1 = name) = [] := by
    rw [List.filter_eq_nil_iff]
    intro kv hkv
    obtain ⟨c, -, rfl⟩ := List.mem_map.mp hkv
    have hkey : toLowerCopy (bytes "Set-Cookie") = bytes "set-cookie" := by decide
    simpa [hkey] using hname.symm
  rw [fieldsNamed, ResponseHeader.fieldsRead, List.filter_append, hcookies, List.append_nil]
  rfl

/-- The only key with this name in lower case is found once. -/
theorem fieldsNamed_eq_singleton (horder : Iterates h.fields order) {key value name : Bytes}
    (hkey : h.fields.lookup key = some value) (hname : toLowerCopy key = name)
    (honly : ∀ k ∈ h.fields, toLowerCopy k = name → k = key) :
    fieldsNamed name order = [value] := by
  have hmem : (key, value) ∈ order := horder.mem_iff.mpr hkey
  have hsame : ∀ kv ∈ order, decide (toLowerCopy kv.1 = name) = decide (kv = (key, value)) := by
    intro kv hkv
    have hlookup := horder.mem_iff.mp hkv
    rw [decide_eq_decide]
    constructor
    · intro hkv'
      have hfst : kv.1 = key :=
        honly kv.1 (AList.lookup_isSome.mp (by rw [hlookup, Option.isSome_some])) hkv'
      rw [hfst, hkey] at hlookup
      exact Prod.ext hfst (Option.some.inj hlookup).symm
    · rintro rfl
      exact hname
  have hcount : order.count (key, value) = 1 :=
    List.count_eq_one_of_mem (List.Nodup.of_map _ horder.nodup) hmem
  rw [fieldsNamed, List.filter_congr hsame, List.filter_eq, hcount]
  rfl

end Framing

namespace ResponseHandler

variable {r : ResponseHandler} {body : Body}

/-- A field of the header that is written is one of the caller, or one of the two that `send`
adds. -/
theorem lookup_prepared_cases {name value : Bytes}
    (h : (r.prepared body).header.fields.lookup name = some value) :
    r.header.fields.lookup name = some value ∨
      (name = bytes "Content-Length" ∧ value = toDecimal body.content.length) ∨
      (name = bytes "Content-Type" ∧ value = body.contentType) := by
  rw [lookup_prepared] at h
  cases hfield : r.header.fields.lookup name with
  | some v =>
    rw [hfield, Option.getD_some, Option.getD_some, ite_self, ite_self] at h
    exact Or.inl h
  | none =>
    rw [hfield, Option.getD_none, Option.getD_none] at h
    split_ifs at h with hlength htype
    · exact Or.inr (Or.inl ⟨hlength, (Option.some.inj h).symm⟩)
    · exact Or.inr (Or.inr ⟨htype, (Option.some.inj h).symm⟩)

theorem crlf_not_infix_contentType (body : Body) : ¬ CRLF <:+: body.contentType := by
  have hstring : ¬ CRLF <:+: bytes "text/plain" := by decide
  have hother : ¬ CRLF <:+: bytes "application/octet-stream" := by decide
  cases body with
  | string body => exact hstring
  | vector body => exact hother
  | stream body => exact hother

theorem crlf_not_infix_toDecimal (n : Int) : ¬ CRLF <:+: toDecimal n := by
  refine not_pair_infix_of_not_mem fun hmem => ?_
  rcases mem_toDecimal hmem with hdigit | hminus
  · exact absurd hdigit (by decide)
  · exact absurd hminus (by decide)

/-- What `send` adds breaks no line. -/
theorem prepared_lineSafe (h : r.header.LineSafe) : (r.prepared body).header.LineSafe where
  names name hname := by
    obtain ⟨value, hvalue⟩ := Option.isSome_iff_exists.mp (AList.lookup_isSome.mpr hname)
    rcases lookup_prepared_cases hvalue with hfield | ⟨rfl, -⟩ | ⟨rfl, -⟩
    · exact h.names name (AList.lookup_isSome.mp (by rw [hfield, Option.isSome_some]))
    · decide
    · decide
  values name value hvalue := by
    rcases lookup_prepared_cases hvalue with hfield | ⟨-, rfl⟩ | ⟨-, rfl⟩
    · exact h.values name value hfield
    · exact crlf_not_infix_toDecimal _
    · exact crlf_not_infix_contentType body
  cookies c hc := h.cookies c (prepared_kept.1 ▸ hc)

/-- The code of a response without a body goes with an empty one. -/
theorem bodiless_prepared
    (hcode : bodiless (toDecimal r.header.code) → r.header.code = 204 ∨ body.content = [])
    (h : bodiless (toDecimal (r.prepared body).header.code)) : body.content = [] := by
  obtain ⟨-, -, -, hkept | hok | hnone, hempty⟩ := @prepared_kept r body
  · rw [hkept] at h hempty
    exact (hcode h).elim hempty id
  · rw [hok] at h
    exact absurd h (by decide)
  · exact hempty hnone

/-- **The length that `send` writes is that of the body**. -/
theorem reads_prepared {order : List (Bytes × Bytes)}
    (hcode : bodiless (toDecimal r.header.code) → r.header.code = 204 ∨ body.content = [])
    (hlength : SaysNoLength r.header)
    (horder : Iterates (r.prepared body).header.fields order) :
    Reads (readBodyOf (toDecimal (r.prepared body).header.code)
      ((r.prepared body).header.fieldsRead order)) body.content body.content := by
  have hkeys : ∀ k ∈ (r.prepared body).header.fields, toLowerCopy k ≠ bytes "transfer-encoding" ∧
      (toLowerCopy k = bytes "content-length" → k = bytes "Content-Length") := by
    intro k hk
    obtain ⟨value, hvalue⟩ := Option.isSome_iff_exists.mp (AList.lookup_isSome.mpr hk)
    rcases lookup_prepared_cases hvalue with hfield | ⟨rfl, -⟩ | ⟨rfl, -⟩
    · have hmem : k ∈ r.header.fields := AList.lookup_isSome.mp (by rw [hfield, Option.isSome_some])
      exact ⟨(hlength k hmem).2, fun hk => absurd hk (hlength k hmem).1⟩
    · exact ⟨by decide, fun _ => rfl⟩
    · exact ⟨by decide, fun hk => absurd hk (by decide)⟩
  have hfree : r.header.fields.lookup (bytes "Content-Length") = none := by
    rw [AList.lookup_eq_none]
    exact fun hmem => (hlength _ hmem).1 (by decide)
  have hfield : (r.prepared body).header.fields.lookup (bytes "Content-Length") =
      some (toDecimal body.content.length) := by
    rw [lookup_prepared, if_pos rfl, hfree, Option.getD_none]
  have hchunked : bytes "chunked" ∉ fieldsNamed (bytes "transfer-encoding")
      ((r.prepared body).header.fieldsRead order) := by
    rw [fieldsNamed_fieldsRead (by decide), mem_fieldsNamed]
    rintro ⟨k, hk, hname⟩
    have hlookup := horder.mem_iff.mp hk
    exact (hkeys k (AList.lookup_isSome.mp (by rw [hlookup, Option.isSome_some]))).1 hname
  have hsize : fieldsNamed (bytes "content-length") ((r.prepared body).header.fieldsRead order) =
      [toDecimal body.content.length] := by
    rw [fieldsNamed_fieldsRead (by decide)]
    exact fieldsNamed_eq_singleton horder hfield (by decide) fun k hk => (hkeys k hk).2
  rw [readBodyOf]
  split_ifs with hbodiless
  · rw [bodiless_prepared hcode hbodiless]
    exact Reads.pure []
  · rw [hsize]
    dsimp only
    rw [decimalValue_toDecimal]
    exact Reads.take body.content

end ResponseHandler

/-! ### The writes -/

namespace Transfer

variable {cfg : Config} {order : ResponseHeader → List (Bytes × Bytes)} {text : Bytes} {body : Body}
  {s s' : Transfer} {ec : Option ErrorCode}

/-- What has been given to the writes, up to the first that fails. -/
def handed (s : Transfer) : Bytes := s.wire ++ (s.pending.map Prod.fst).getD []

theorem Awaits.handed_prefix (h : Awaits text body s) : s.handed <+: text ++ body.content := by
  cases h with
  | header hpending hwire =>
    rw [handed, hpending, hwire]
    exact List.prefix_append text body.content
  | whole hstream hpending hwire =>
    rw [handed, hpending, hwire]
    exact List.prefix_rfl
  | piece hstream data rest filled hpending hwire hlast =>
    rw [handed, hpending, ← hwire]
    exact List.prefix_append _ rest

theorem Ended.handed_eq {stream : Bool} (h : Ended stream s) : s.handed = s.wire := by
  rw [handed, h.pending]
  exact List.append_nil _

/-- Nothing is written after an error. -/
theorem wire_complete_of_error (h : Open s) (hawaits : Awaits text body s) {e : ErrorCode}
    (hstep : s.complete cfg order (some e) = some s') : s'.wire = s.wire := by
  have hopen : Open { s with pending := none } := ⟨h.sent, h.finished, h.removals⟩
  cases hawaits with
  | header hpending hwire =>
    rw [complete_of_pending hpending, Option.some.injEq] at hstep
    subst hstep
    exact (ended_cleanup order hopen rfl body.isStream).2
  | whole hstream hpending hwire =>
    rw [complete_of_pending hpending, Option.some.injEq] at hstep
    subst hstep
    exact (ended_cleanup order hopen rfl false).2
  | piece hstream data rest filled hpending hwire hlast =>
    rw [complete_of_pending hpending, Option.some.injEq] at hstep
    subst hstep
    rw [onWritten, if_neg fun hmore => absurd hmore.1 Bool.false_ne_true]
    exact (ended_cleanup order hopen rfl true).2

/-- **The writes follow each other in the response**, also when one of them fails. -/
theorem handed_prefix (hbuffer : 0 < cfg.bufferSize) {ecs : List (Option ErrorCode)} (h : Open s)
    (hawaits : Awaits text body s) (hrun : run (complete cfg order) s ecs = some s') :
    s'.handed <+: text ++ body.content := by
  induction ecs generalizing s with
  | nil =>
    rw [run_nil, Option.some.injEq] at hrun
    subst hrun
    exact hawaits.handed_prefix
  | cons ec ecs ih =>
    obtain ⟨s₁, hstep, hrest⟩ := run_cons.mp hrun
    rcases complete_cases hbuffer h hawaits hstep with ⟨-, h₁, hawaits₁, -⟩ | ⟨hended, hwire⟩
    · exact ih h₁ hawaits₁ hrest
    · -- the response has ended, with all of it written or after an error
      have hlast : s₁.handed <+: text ++ body.content := by
        rw [hended.handed_eq]
        cases ec with
        | none => rw [hwire rfl]
        | some e =>
          rw [wire_complete_of_error h hawaits hstep]
          exact (List.prefix_append s.wire _).trans hawaits.handed_prefix
      cases ecs with
      | nil =>
        rw [run_nil, Option.some.injEq] at hrest
        exact hrest ▸ hlast
      | cons ec' ecs =>
        obtain ⟨s₂, hstep₂, -⟩ := run_cons.mp hrest
        rw [complete_of_ended hended] at hstep₂
        cases hstep₂

variable (cfg order body) in
/-- A response that is sent for the first time, also without a content type. -/
theorem send_first {r : ResponseHandler} (hsent : r.headerSent = false) :
    (r.send body).2 = [.write (r.prepared body).header (.body body)] ∧
      Open (send cfg order r body) ∧
      Awaits ((r.prepared body).header.toString (order (r.prepared body).header)) body
        (send cfg order r body) := by
  have hopen : (r.prepared body).conclude.headerSent = false :=
    (ResponseHandler.prepared_kept.2.2.1).trans hsent
  have hsend : r.send body = ({ (r.prepared body).conclude with headerSent := true },
      [.write (r.prepared body).header (.body body)]) := by
    rw [ResponseHandler.send_eq_prepared, ResponseHandler.sendHeader, if_pos hopen]
    rfl
  rw [send, hsend]
  exact ⟨rfl, ⟨rfl, rfl, rfl⟩, .header rfl rfl⟩

end Transfer

/-- **A client takes what `send` writes for a response exactly when it has all of it**, and finds
the code, the fields and the body: in whatever pieces it is written, and also when a write fails
part of the way. The fields are those of the caller, who has set none about the length, and the code
is not one of a response without a body unless there is none. -/
theorem response_reads_back (cfg : Config) (hbuffer : 0 < cfg.bufferSize)
    (order : ResponseHeader → List (Bytes × Bytes)) (horder : ∀ h, Iterates h.fields (order h))
    (r : ResponseHandler) (hsent : r.headerSent = false) (hclean : r.header.Untouched)
    (hsafe : r.header.LineSafe) (hlength : SaysNoLength r.header) (body : Body)
    (hcode : bodiless (toDecimal r.header.code) → r.header.code = 204 ∨ body.content = []) :
    ∃ header : ResponseHeader, (r.send body).2 = [.write header (.body body)] ∧
      header.cookies = r.header.cookies ∧
      (∀ name value, r.header.fields.lookup name = some value →
        (name, value) ∈ header.fieldsRead (order header)) ∧
      ∀ ecs s, run (Transfer.complete cfg order) (Transfer.send cfg order r body) ecs = some s →
        ∀ received, received <+: s.handed →
          readResponse received =
            if received = header.toString (order header) ++ body.content then
              some (⟨toDecimal header.code, header.message, header.fieldsRead (order header),
                body.content⟩, [])
            else none := by
  obtain ⟨hwrite, hopen, hawaits⟩ := Transfer.send_first cfg order body hsent
  have hreads := (ResponseHandler.prepared_untouched hclean).reads_response
    (ResponseHandler.prepared_lineSafe hsafe) (horder (r.prepared body).header)
    (ResponseHandler.reads_prepared hcode hlength (horder _))
  refine ⟨(r.prepared body).header, hwrite, ResponseHandler.prepared_kept.1, ?_, ?_⟩
  · intro name value hfield
    refine List.mem_append_left _ ((horder _).mem_iff.mpr ?_)
    rw [ResponseHandler.lookup_prepared, hfield, Option.getD_some, Option.getD_some, ite_self,
      ite_self]
  · intro ecs s hrun received hreceived
    have hprefix := hreceived.trans (Transfer.handed_prefix hbuffer hopen hawaits hrun)
    split_ifs with hall
    · rw [hall, ← List.append_nil (_ ++ body.content)]
      exact hreads.whole []
    · exact hreads.part hprefix hall

theorem lineSafe_init : ResponseHeader.LineSafe {} where
  names name hname := absurd hname (AList.notMem_empty name)
  values name value hvalue := by
    rw [AList.lookup_empty] at hvalue
    cases hvalue
  cookies c hc := absurd hc List.not_mem_nil

theorem ResponseHeader.LineSafe.setField {h : ResponseHeader} (hh : h.LineSafe)
    {field value : Bytes} (hfield : ¬ CRLF <:+: field ∧ ¬ bytes ": " <:+: field)
    (hvalue : ¬ CRLF <:+: value) : (h.setField field value).LineSafe where
  names name hname := by
    rcases (AList.mem_insert _).mp hname with rfl | hname
    · exact hfield
    · exact hh.names name hname
  values name value' hlookup := by
    by_cases hsame : name = field
    · rw [ResponseHeader.setField, hsame, AList.lookup_insert, Option.some.injEq] at hlookup
      exact hlookup ▸ hvalue
    · rw [ResponseHeader.setField, AList.lookup_insert_ne hsame] at hlookup
      exact hh.values name value' hlookup
  cookies := hh.cookies

theorem ResponseHeader.LineSafe.setCookie {h : ResponseHeader} (hh : h.LineSafe) {cookie : Cookie}
    (hcookie : ∀ text ∈ cookie.texts, ¬ CRLF <:+: text) : (h.setCookie cookie).LineSafe where
  names := hh.names
  values := hh.values
  cookies c hc := by
    rcases List.mem_append.mp hc with hc | hc
    · exact hh.cookies c hc
    · rw [List.mem_singleton.mp hc]
      exact hcookie

/-- The order in which the fields are stored. -/
def ResponseHeader.stored (h : ResponseHeader) : List (Bytes × Bytes) :=
  h.fields.entries.map fun e => (e.1, e.2)

theorem ResponseHeader.iterates_stored (h : ResponseHeader) : Iterates h.fields h.stored :=
  List.Perm.refl _

/-- A response with a field and a cookie. -/
def exampleAnswer : ResponseHandler :=
  (({} : ResponseHandler).set (bytes "X-A") (bytes "1")).setCookie
    { name := bytes "sid", value := bytes "x" }

/-- When both writes have completed, the client reads it all. -/
theorem response_reads_back_text :
    ∃ s, run (Transfer.complete {} ResponseHeader.stored)
        (Transfer.send {} ResponseHeader.stored exampleAnswer (.string (bytes "hi"))) [none, none] =
          some s ∧
      readResponse s.wire =
        some (⟨bytes "200", bytes "Ok",
          [(bytes "Content-Type", bytes "text/plain"), (bytes "Content-Length", bytes "2"),
            (bytes "X-A", bytes "1"), (bytes "Set-Cookie", bytes "sid=x")], bytes "hi"⟩, []) := by
  have hsafe : exampleAnswer.header.LineSafe :=
    (lineSafe_init.setField (by decide) (by decide)).setCookie (by decide)
  have hlength : SaysNoLength exampleAnswer.header := by
    intro name hname
    rcases (AList.mem_insert _).mp hname with rfl | hname
    · decide
    · exact absurd hname (AList.notMem_empty name)
  obtain ⟨header, hwrite, -, -, hruns⟩ := response_reads_back {} (by decide)
    ResponseHeader.stored ResponseHeader.iterates_stored exampleAnswer rfl
    ⟨rfl, rfl, rfl⟩ hsafe hlength (.string (bytes "hi")) (fun _ => Or.inl rfl)
  have hsend := (Transfer.send_first {} ResponseHeader.stored (.string (bytes "hi"))
    (show exampleAnswer.headerSent = false from rfl)).1
  obtain rfl : (exampleAnswer.prepared (.string (bytes "hi"))).header = header := by
    simpa using hsend.symm.trans hwrite
  have hwire : (run (Transfer.complete {} ResponseHeader.stored)
      (Transfer.send {} ResponseHeader.stored exampleAnswer (.string (bytes "hi")))
      [none, none]).map Transfer.wire =
        some ((exampleAnswer.prepared (.string (bytes "hi"))).header.toString
          (exampleAnswer.prepared (.string (bytes "hi"))).header.stored ++
            (Body.string (bytes "hi")).content) := by
    decide +kernel
  obtain ⟨s, hrun, hwire⟩ := Option.map_eq_some_iff.mp hwire
  refine ⟨s, hrun, ?_⟩
  rw [hruns _ s hrun s.wire (List.prefix_append _ _), if_pos hwire]
  decide +kernel

/-! ### A response in chunks -/

namespace ResponseHandler

variable {r : ResponseHandler} {encoding : Bytes}

/-- The handler as `send_chunked` makes it before it writes the header. -/
def chunkedPrepared (r : ResponseHandler) (encoding : Bytes) : ResponseHandler :=
  (((r.status 200).trySet (bytes "Content-Encoding") encoding).set (bytes "Transfer-Encoding")
    (bytes "chunked")).observeConclusion

theorem sendChunked_eq_chunkedPrepared :
    r.sendChunked encoding = (r.chunkedPrepared encoding).sendHeader .chunked := rfl

theorem lookup_chunkedPrepared (name : Bytes) :
    (r.chunkedPrepared encoding).header.fields.lookup name =
      if name = bytes "Transfer-Encoding" then some (bytes "chunked")
      else if name = bytes "Content-Encoding" then
        some ((r.header.fields.lookup name).getD encoding)
      else r.header.fields.lookup name := by
  change AList.lookup name (AList.insert (bytes "Transfer-Encoding") (bytes "chunked")
    ((r.status 200).trySet (bytes "Content-Encoding") encoding).header.fields) = _
  split_ifs with htransfer hcontent
  · rw [htransfer, AList.lookup_insert]
  · rw [AList.lookup_insert_ne htransfer, hcontent, lookup_trySet]
    rfl
  · rw [AList.lookup_insert_ne htransfer, (trySet_kept _ _).2.2.2 _ hcontent]
    rfl

theorem chunkedPrepared_kept : (r.chunkedPrepared encoding).header.cookies = r.header.cookies ∧
    (r.chunkedPrepared encoding).header.code = 200 ∧
    (r.chunkedPrepared encoding).headerSent = r.headerSent := by
  obtain ⟨hcookies, hcode, hsent, -⟩ :=
    trySet_kept (r := r.status 200) (bytes "Content-Encoding") encoding
  exact ⟨hcookies, hcode, hsent⟩

theorem chunkedPrepared_untouched (h : r.header.Untouched) :
    (r.chunkedPrepared encoding).header.Untouched :=
  (untouched_keptByCalls.trySet (r := r.status 200) (h.setCode 200) _ _).setField _ _

theorem chunkedPrepared_lineSafe (h : r.header.LineSafe) (hencoding : ¬ CRLF <:+: encoding) :
    (r.chunkedPrepared encoding).header.LineSafe := by
  have hcases : ∀ name value, (r.chunkedPrepared encoding).header.fields.lookup name = some value →
      r.header.fields.lookup name = some value ∨
        (name = bytes "Transfer-Encoding" ∧ value = bytes "chunked") ∨
        (name = bytes "Content-Encoding" ∧ value = encoding) := by
    intro name value hvalue
    rw [lookup_chunkedPrepared] at hvalue
    split_ifs at hvalue with htransfer hcontent
    · exact Or.inr (Or.inl ⟨htransfer, (Option.some.inj hvalue).symm⟩)
    · cases hfield : r.header.fields.lookup name with
      | none =>
        rw [hfield] at hvalue
        exact Or.inr (Or.inr ⟨hcontent, (Option.some.inj hvalue).symm⟩)
      | some v =>
        rw [hfield] at hvalue
        exact Or.inl hvalue
    · exact Or.inl hvalue
  refine ⟨fun name hname => ?_, fun name value hvalue => ?_, fun c hc => ?_⟩
  · obtain ⟨value, hvalue⟩ := Option.isSome_iff_exists.mp (AList.lookup_isSome.mpr hname)
    rcases hcases name value hvalue with hfield | ⟨rfl, -⟩ | ⟨rfl, -⟩
    · exact h.names name (AList.lookup_isSome.mp (by rw [hfield, Option.isSome_some]))
    · decide
    · decide
  · rcases hcases name value hvalue with hfield | ⟨-, rfl⟩ | ⟨-, rfl⟩
    · exact h.values name value hfield
    · decide
    · exact hencoding
  · exact h.cookies c (chunkedPrepared_kept.1 ▸ hc)

end ResponseHandler

/-- Whether the chunks are all there, and what a client has of them. -/
theorem readBodyOf_chunked {code : Bytes} {fields : List (Bytes × Bytes)}
    (hcode : bodiless code = false)
    (hchunked : bytes "chunked" ∈ fieldsNamed (bytes "transfer-encoding") fields) {ds : List Bytes}
    (hds : ∀ d ∈ ds, d ≠ []) :
    Reads (readBodyOf code fields) (wire (ds.map .chunk ++ [.terminal])) ds.flatten := by
  rw [readBodyOf, hcode, if_neg Bool.false_ne_true, if_pos hchunked]
  exact (reads_chunks hds).map rfl

namespace Chunked

/-- **A client takes what `send_chunked` writes for a response exactly when the terminal chunk has
come**, and finds in it what has been pushed. Whatever the producer and the writes do in the
meantime, it never takes the chunks that have come for all of them. -/
theorem chunked_reads_back (order : ResponseHeader → List (Bytes × Bytes))
    (horder : ∀ h, Iterates h.fields (order h)) (r : ResponseHandler) (hsent : r.headerSent = false)
    (hclean : r.header.Untouched) (hsafe : r.header.LineSafe) (encoding : Bytes)
    (hencoding : ¬ CRLF <:+: encoding) :
    ∃ header : ResponseHeader, (r.sendChunked encoding).2 = [.write header .chunked] ∧
      header.cookies = r.header.cookies ∧
      (∀ name value, name ≠ bytes "Transfer-Encoding" → r.header.fields.lookup name = some value →
        (name, value) ∈ header.fieldsRead (order header)) ∧
      ∀ ops s, run Chunked.step {} ops = some s → payload s.frames <+: pushes ops ∧
        ∀ received, received <+: header.toString (order header) ++ wire s.frames →
          readResponse received =
            if .terminal ∈ s.frames ∧
                received = header.toString (order header) ++ wire s.frames then
              some (⟨bytes "200", header.message, header.fieldsRead (order header),
                payload s.frames⟩, [])
            else none := by
  have hopen : (r.chunkedPrepared encoding).conclude.headerSent = false :=
    ResponseHandler.chunkedPrepared_kept.2.2.trans hsent
  have hclean' := @ResponseHandler.chunkedPrepared_untouched r encoding hclean
  have hcode := (@ResponseHandler.chunkedPrepared_kept r encoding).2.1
  refine ⟨(r.chunkedPrepared encoding).header, ?_, ResponseHandler.chunkedPrepared_kept.1, ?_, ?_⟩
  · rw [ResponseHandler.sendChunked_eq_chunkedPrepared, ResponseHandler.sendHeader, if_pos hopen]
    rfl
  · intro name value hname hfield
    refine List.mem_append_left _ ((horder _).mem_iff.mpr ?_)
    rw [ResponseHandler.lookup_chunkedPrepared, if_neg hname, hfield, Option.getD_some, ite_self]
  · intro ops s hrun
    have hframed : Chunked.Framed (pushes ops) s := Chunked.framed_run Chunked.framed_init hrun
    refine ⟨hframed.order, fun received hreceived => ?_⟩
    obtain ⟨ds, hds⟩ := hframed.inv.order
    have hnonempty : ∀ d ∈ ds, d ≠ [] := by
      intro d hd
      refine hframed.nonempty d ?_
      rw [hds]
      exact List.mem_append_left _ (List.mem_map_of_mem hd)
    have hchunked : bytes "chunked" ∈ fieldsNamed (bytes "transfer-encoding")
        ((r.chunkedPrepared encoding).header.fieldsRead
          (order (r.chunkedPrepared encoding).header)) := by
      rw [fieldsNamed_fieldsRead (by decide), mem_fieldsNamed]
      refine ⟨bytes "Transfer-Encoding", (horder _).mem_iff.mpr ?_, by decide⟩
      rw [ResponseHandler.lookup_chunkedPrepared, if_pos rfl]
    have hreads := hclean'.reads_response (ResponseHandler.chunkedPrepared_lineSafe hsafe hencoding)
      (horder (r.chunkedPrepared encoding).header)
      (readBodyOf_chunked (by rw [hcode]; decide) hchunked hnonempty)
    have hok : toDecimal 200 = bytes "200" := by decide
    rw [hcode, hok] at hreads
    by_cases hterminal : .terminal ∈ s.frames
    · rw [if_pos hterminal] at hds
      have hpayload : payload s.frames = ds.flatten := by
        rw [hds]
        exact payload_chunks ds (Or.inr rfl)
      rw [← hds] at hreads
      rw [hpayload]
      split_ifs with hall
      · rw [hall.2, ← List.append_nil (_ ++ wire s.frames)]
        exact hreads.whole []
      · exact hreads.part hreceived fun heq => hall ⟨hterminal, heq⟩
    · -- the terminal chunk is still to come
      rw [if_neg hterminal, List.append_nil] at hds
      rw [if_neg fun hall => hterminal hall.1]
      have hmore : wire (ds.map .chunk ++ [.terminal]) = wire s.frames ++ bytes "0\r\n\r\n" := by
        rw [hds, wire, List.flatMap_append]
        rfl
      rw [hmore, ← List.append_assoc] at hreads
      refine hreads.part (hreceived.trans (List.prefix_append _ _)) ?_
      rintro rfl
      have hlast : (bytes "0\r\n\r\n").length = 5 := rfl
      have hlength := hreceived.length_le
      rw [List.length_append, hlast] at hlength
      omega

/-- A response of one chunk. -/
theorem chunked_reads_back_pushed :
    ∃ header : ResponseHeader,
      (({} : ResponseHandler).sendChunked (bytes "identity")).2 = [.write header .chunked] ∧
        (readResponse (header.toString header.stored ++
          wire [.chunk (bytes "ab"), .terminal])).map (fun p => p.1.body) = some (bytes "ab") := by
  obtain ⟨header, hwrite, -, -, hruns⟩ := chunked_reads_back ResponseHeader.stored
    ResponseHeader.iterates_stored {} rfl ResponseHeader.untouched_init lineSafe_init
    (bytes "identity") (by decide)
  obtain ⟨-, hreads⟩ := hruns [.attach, .startProduction, .push (bytes "ab"), .written none,
    .finish, .written none]
    { completed := true, consuming := true, phase := .started,
      frames := [.chunk (bytes "ab"), .terminal], ended := 1 } (by decide)
  refine ⟨header, hwrite, ?_⟩
  rw [hreads _ List.prefix_rfl, if_pos ⟨by decide, rfl⟩]
  rfl

end Chunked

end Attender.Http
