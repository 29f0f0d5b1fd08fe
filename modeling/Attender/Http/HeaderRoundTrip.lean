import Attender.Http.HeaderGrammar
import Attender.Http.RequestHandler
import Attender.Library.Maps

/-!
# Printed headers

A header that the parser has finished is printed and parsed again. The fields it
holds are the names and values of lines, so each is printed as a line that has
the same name and value, and the printed header is a header section of its own.
-/

namespace Attender.Http

open Attender.Library HeaderSection

/-! ### Fields and their lines -/

/-- What the parser may leave in a field that it stores. -/
structure IsField (kv : Bytes × Bytes) : Prop where
  start : ∃ c k, kv.1 = c :: k ∧ isAlnum c
  name : trimRight kv.1 = kv.1
  nameUnbroken : ¬ CRLF <:+: kv.1
  noColon : 58 ∉ kv.1
  noCookie : toLowerCopy kv.1 ≠ bytes "cookie"
  value : trimLeft kv.2 = kv.2
  valueUnbroken : ¬ CRLF <:+: kv.2

/-- The name and the value of a line make a field. -/
theorem isField_of_line {l : Bytes} (hl : IsFieldLine l) (hcookie : ¬ IsCookieLine l) :
    IsField (fieldName l, fieldValue l) := by
  obtain ⟨c, l', rfl, hc⟩ := hl.start
  obtain ⟨⟨a, b⟩, hcut⟩ := Option.ne_none_iff_exists'.mp fun h => cut_eq_none_iff.mp h hl.colon
  obtain ⟨hsplit, hcolon⟩ := cut_eq_some_iff.mp hcut
  have hname : fieldName (c :: l') = trimRight a := by rw [fieldName, colonParts_of_cut hcut]
  have hvalue : fieldValue (c :: l') = trimLeft b := by rw [fieldValue, colonParts_of_cut hcut]
  have hinit : trimRight a <+: a := List.rdropWhile_prefix ..
  have hsuffix : trimLeft b <:+ b := List.dropWhile_suffix ..
  have hunbroken := hsplit ▸ hl.unbroken
  rw [hname, hvalue]
  refine ⟨?_, List.rdropWhile_idempotent .., ?_, fun h => hcolon (hinit.subset h), ?_,
    List.dropWhile_idempotent .., ?_⟩
  · -- the name starts as the line does, with a byte that is not trimmed
    have ha : c ∈ a := by
      cases a with
      | nil =>
        rw [List.nil_append, List.cons.injEq] at hsplit
        rw [hsplit.1] at hc
        exact absurd hc (by decide)
      | cons c' a =>
        rw [List.cons_append, List.cons.injEq] at hsplit
        rw [hsplit.1]
        exact List.mem_cons_self ..
    cases htrim : trimRight a with
    | nil =>
      have hspace := List.rdropWhile_eq_nil_iff.mp htrim c ha
      rw [(isAlnum_not_space hc).1] at hspace
      cases hspace
    | cons d k =>
      obtain ⟨t, ht⟩ := hinit
      rw [htrim] at ht
      rw [← ht, List.cons_append, List.cons_append, List.cons.injEq] at hsplit
      exact ⟨d, k, rfl, hsplit.1 ▸ hc⟩
  · intro h
    exact hunbroken ((h.trans hinit.isInfix).trans (List.infix_append' [] a _))
  · rw [← hname]
    exact hcookie
  · intro h
    have hinfix : b <:+: a ++ 58 :: b := ⟨a ++ [58], [], by simp⟩
    exact hunbroken ((h.trans hsuffix.isInfix).trans hinfix)

section FieldLine

variable {kv : Bytes × Bytes}

theorem cut_fieldLine (h : IsField kv) : cut 58 (fieldLine kv) = some (kv.1, SP :: kv.2) :=
  cut_eq_some_iff.mpr ⟨fieldLine_eq kv, h.noColon⟩

theorem fieldName_fieldLine (h : IsField kv) : fieldName (fieldLine kv) = kv.1 := by
  rw [fieldName, colonParts_of_cut (cut_fieldLine h), h.name]

theorem fieldValue_fieldLine (h : IsField kv) : fieldValue (fieldLine kv) = kv.2 := by
  rw [fieldValue, colonParts_of_cut (cut_fieldLine h)]
  exact h.value

theorem not_isCookieLine_fieldLine (h : IsField kv) : ¬ IsCookieLine (fieldLine kv) := by
  rw [IsCookieLine, fieldName_fieldLine h]
  exact h.noCookie

/-- **The line printed for a field is a line of a header.** -/
theorem isFieldLine_fieldLine (h : IsField kv) : IsFieldLine (fieldLine kv) where
  start := by
    obtain ⟨c, k, e, hc⟩ := h.start
    exact ⟨c, k ++ bytes ": " ++ kv.2, by rw [fieldLine, e]; rfl, hc⟩
  unbroken := by
    intro hbroken
    rw [pair_infix_fieldLine (by decide) (by decide)] at hbroken
    exact hbroken.elim h.nameUnbroken h.valueUnbroken
  colon := (cut_eq_some_iff.mp (cut_fieldLine h)).1 ▸ by simp
  cookie hcookie := absurd hcookie (not_isCookieLine_fieldLine h)

end FieldLine

/-! ### Finished headers -/

/-- The lines of a header insert their names and values. -/
theorem foldl_storeLine_fields (ls : List Bytes) (h : RequestHeaderIntermediate) :
    (ls.foldl storeLine h).fields = insertAll h.fields (fieldPairs ls) := by
  induction ls generalizing h with
  | nil => rfl
  | cons l ls ih =>
    rw [List.foldl_cons, ih, storeLine_fields]
    by_cases hcl : IsCookieLine l
    · simp [fieldPairs, hcl]
    · simp [fieldPairs, hcl]

/-- What the header of a request holds of its header section. -/
structure HeaderOf (s : HeaderSection) (h : RequestHeader) : Prop where
  method : h.method = s.method
  url : h.url = s.url
  protocol : h.protocol = s.protocol
  version : h.version = s.version
  target : RequestHeader.targetParts s.url ∅ = some (h.path, h.query)
  fields : h.fields = insertAll ∅ (fieldPairs s.lines)

/-- A header is constructed for a finished section exactly if its target can be parsed. -/
theorem requestHeader_finished (s : HeaderSection) (r : Bytes) :
    (finishedParser s r).header.requestHeader =
      (RequestHeader.targetParts s.url ∅).map
        (finishedParser s r).header.toRequestHeader.withTarget := by
  have hurl : (finishedParser s r).header.toRequestHeader.url = s.url :=
    (foldl_storeLine_words s.lines _).2.1
  rw [RequestHeaderIntermediate.requestHeader, RequestHeader.parseUrl_eq, hurl]
  rfl

theorem headerOf_finished (s : HeaderSection) (r : Bytes) {t : Bytes × StringMap}
    (ht : RequestHeader.targetParts s.url ∅ = some t) :
    HeaderOf s ((finishedParser s r).header.toRequestHeader.withTarget t) := by
  obtain ⟨hmethod, hurl, hprotocol, hversion⟩ := foldl_storeLine_words s.lines
    { method := s.method, url := s.url, protocol := s.protocol, version := s.version }
  exact ⟨hmethod, hurl, hprotocol, hversion, ht, foldl_storeLine_fields s.lines _⟩

namespace HeaderOf

variable {s : HeaderSection} {h : RequestHeader}

/-- The fields of a header are fields of its lines. -/
theorem isField (hh : HeaderOf s h) (hls : ∀ l ∈ s.lines, IsFieldLine l) {kv : Bytes × Bytes}
    (hkv : h.fields.lookup kv.1 = some kv.2) : IsField kv := by
  rw [hh.fields] at hkv
  rcases mem_of_lookup_insertAll hkv with hnone | hmem
  · rw [AList.lookup_empty] at hnone
    cases hnone
  · obtain ⟨l, hl, e⟩ := List.mem_map.mp hmem
    rw [List.mem_filter, decide_eq_true_iff] at hl
    rw [← Prod.eta kv, ← e]
    exact isField_of_line (hls l hl.1) hl.2

/-- There are not more fields than lines. -/
theorem length_keys_le (hh : HeaderOf s h) : h.fields.keys.length ≤ s.lines.length := by
  have hpairs : (fieldPairs s.lines).length ≤ s.lines.length := by
    rw [fieldPairs, List.length_map]
    exact List.length_filter_le ..
  have hkeys := length_keys_insertAll (∅ : StringMap) (fieldPairs s.lines)
  rw [AList.keys_empty, List.length_nil] at hkeys
  rw [hh.fields]
  omega

end HeaderOf

/-! ### Printing -/

/-- The header section that `to_string` prints. -/
def printed (h : RequestHeader) (order : List (Bytes × Bytes)) : HeaderSection where
  method := h.method
  url := h.url
  protocol := h.protocol
  version := h.version
  lines := order.map fieldLine

theorem text_printed (h : RequestHeader) (order : List (Bytes × Bytes)) :
    (printed h order).text = h.toString order := by
  have hlines : linesText (order.map fieldLine) =
      (order.map fun i => i.1 ++ bytes ": " ++ i.2 ++ CRLF).flatten := by
    rw [linesText, List.map_map]
    rfl
  simp only [HeaderSection.text, printed, RequestHeader.toString, hlines]
  simp

/-- The printed lines hold the fields printed. -/
theorem fieldPairs_printed {order : List (Bytes × Bytes)} (h : ∀ kv ∈ order, IsField kv) :
    fieldPairs (order.map fieldLine) = order := by
  induction order with
  | nil => rfl
  | cons kv order ih =>
    rw [List.forall_mem_cons] at h
    have htail := ih h.2
    rw [fieldPairs] at htail
    rw [fieldPairs, List.map_cons, List.filter_cons_of_pos
      (by simpa using not_isCookieLine_fieldLine h.1), List.map_cons, htail,
      fieldName_fieldLine h.1, fieldValue_fieldLine h.1]

/-- Two headers with the same words, path and query, and with the same fields. -/
structure SameHeader (h h' : RequestHeader) : Prop where
  method : h'.method = h.method
  url : h'.url = h.url
  protocol : h'.protocol = h.protocol
  version : h'.version = h.version
  path : h'.path = h.path
  query : h'.query = h.query
  fields : ∀ key, h'.getField key = h.getField key

/-- **The printed header is a header section**, if the header came from one. -/
theorem valid_printed {cfg : Config} {s : HeaderSection} {h : RequestHeader}
    {order : List (Bytes × Bytes)} (hvalid : s.Valid cfg) (hh : HeaderOf s h)
    (horder : Iterates h.fields order) : (printed h order).Valid cfg where
  method := (congrArg IsWord hh.method).mpr hvalid.method
  url := (congrArg IsWord hh.url).mpr hvalid.url
  protocol := (congrArg IsWord hh.protocol).mpr hvalid.protocol
  slash := (congrArg (fun protocol => 47 ∉ protocol) hh.protocol).mpr hvalid.slash
  version := (congrArg IsWord hh.version).mpr hvalid.version
  count := by
    have hkeys := horder.keys_perm.length_eq
    rw [List.length_map] at hkeys
    rw [printed, List.length_map, hkeys]
    exact hh.length_keys_le.trans hvalid.count
  lines := by
    intro l hl
    obtain ⟨kv, hkv, rfl⟩ := List.mem_map.mp hl
    exact isFieldLine_fieldLine (hh.isField hvalid.lines (horder.mem_iff.mp hkv))

/-- **Printing and parsing a header**: the header of a finished request, printed in any order of
its fields and fed to a fresh parser in any reads, finishes with nothing left and gives the header
again. -/
theorem header_round_trip (cfg : Config) (cs ds : List Bytes) (p : RequestParser)
    (rest : List Bytes) (h : RequestHeader) (order : List (Bytes × Bytes))
    (hrun : feedAll (feed cfg) {} cs = (.done p, rest)) (hheader : p.header.requestHeader = some h)
    (horder : Iterates h.fields order) (hprinted : ds.flatten = h.toString order)
    (hlimit : (feedAll (feed cfg) {} ds).1 ≠ .rejected .headerBuffer) :
    ∃ p' rest' h', feedAll (feed cfg) {} ds = (.done p', rest') ∧
      p'.headerBuffer ++ rest'.flatten = [] ∧ p'.header.requestHeader = some h' ∧
        SameHeader h h' := by
  have hcs : (feedAll (feed cfg) {} cs).1 ≠ .rejected .headerBuffer := by
    rw [hrun]
    exact nofun
  obtain ⟨s, hvalid, -, hp⟩ := (finishes_iff hcs).mp ⟨p, rest, hrun, rfl, rfl⟩
  rw [hp, requestHeader_finished] at hheader
  obtain ⟨t, ht, rfl⟩ := Option.map_eq_some_iff.mp hheader
  have hh := headerOf_finished s (p.headerBuffer ++ rest.flatten) ht
  generalize (finishedParser s (p.headerBuffer ++ rest.flatten)).header.toRequestHeader.withTarget
    t = h at hh horder hprinted ⊢
  -- the printed header is a section with the words, the target and the fields of the header
  obtain ⟨p', rest', hrun', hp', hnothing⟩ := (finishes_iff hlimit).mpr
    ⟨printed h order, valid_printed hvalid hh horder,
      by rw [hprinted, ← text_printed, List.append_nil], rfl⟩
  have ht' : RequestHeader.targetParts (printed h order).url ∅ = some (h.path, h.query) := by
    rw [← hh.target, ← hh.url]
    rfl
  have hh' := headerOf_finished (printed h order) [] ht'
  refine ⟨p', rest', _, hrun', hnothing, by rw [hp', requestHeader_finished, ht']; rfl, ?_⟩
  refine ⟨hh'.method, hh'.url, hh'.protocol, hh'.version, rfl, rfl, ?_⟩
  intro key
  have hpairs : fieldPairs (printed h order).lines = order := by
    refine fieldPairs_printed ?_
    intro kv hkv
    exact hh.isField hvalid.lines (horder.mem_iff.mp hkv)
  rw [RequestHeader.getField, hh'.fields, hpairs, horder.lookup_insertAll, RequestHeader.getField]

/-- A request with two fields, printed in the other order and fed in two reads. -/
theorem header_round_trip_get :
    ∃ h p' rest' h', feedAll (feed {}) {}
        [bytes "GET /a?b=c HTTP/1.1\r\nAccept: y\r", bytes "\nHost: x\r\n\r\n"] =
          (.done p', rest') ∧
      p'.headerBuffer ++ rest'.flatten = [] ∧ p'.header.requestHeader = some h' ∧
        SameHeader h h' := by
  let s : HeaderSection :=
    ⟨bytes "GET", bytes "/a?b=c", bytes "HTTP", bytes "1.1", [bytes "Host:x", bytes "Accept :y"]⟩
  have hvalid : s.Valid {} := by
    refine ⟨by decide, by decide, by decide, by decide, by decide, by decide, ?_⟩
    simp only [s, List.forall_mem_cons, List.not_mem_nil, false_implies, implies_true, and_true]
    exact ⟨⟨⟨_, _, rfl, by decide⟩, by decide, by decide, fun h => absurd h (by decide)⟩,
      ⟨_, _, rfl, by decide⟩, by decide, by decide, fun h => absurd h (by decide)⟩
  have hlimit : (feedAll (feed {}) {} [s.text]).1 ≠ .rejected .headerBuffer := by decide +kernel
  obtain ⟨p, rest, hrun, hp, -⟩ :=
    (finishes_iff (r := []) hlimit).mpr ⟨s, hvalid, by simp, rfl⟩
  have htarget : RequestHeader.targetParts s.url ∅ =
      some (bytes "/a", AList.insert (bytes "b") (bytes "c") ∅) := rfl
  obtain ⟨p', rest', h', hrun', hnothing, hheader, hsame⟩ := header_round_trip {} [s.text]
    [bytes "GET /a?b=c HTTP/1.1\r\nAccept: y\r", bytes "\nHost: x\r\n\r\n"] p rest _
    [(bytes "Accept", bytes "y"), (bytes "Host", bytes "x")] hrun
    (by rw [hp, requestHeader_finished, htarget]; rfl) (by unfold Iterates; decide +kernel)
    (by decide +kernel) (by decide +kernel)
  exact ⟨_, p', rest', h', hrun', hnothing, hheader, hsame⟩

end Attender.Http
