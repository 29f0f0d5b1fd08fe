import Attender.Http.Mounting
import Attender.Http.RequestHandler
import Attender.Library.Maps
import Attender.Library.Regex

/-!
# Routes

The routes that are no mounts: the template and the path are split at slashes,
and the parts of the path are matched one by one. A parameter matches what has
no line terminator in it. The path is decoded before it is split, so a slash in
a value splits it. The routes are over any engine of regular expressions.
-/

namespace Attender.Http

open Attender.Library

/-- The colon. -/
abbrev COLON : Byte := 58

/-- The separator of the parts of a path. -/
def isSlash (b : Byte) : Bool := b == SLASH

/-! ### The parts of a template -/

/-- The text of the pattern of a `path_part`. `front` of an empty string is its terminating zero. -/
def patternText (part : Bytes) : Bytes :=
  if part.head? = some COLON then bytes ".*"
  else
    let p := if part.headD 0 ≠ 94 then 94 :: part else part
    if p.getLastD 0 ≠ 36 then p ++ [36] else p

/-- `path_part`. -/
structure PathPart (engine : RegexEngine) where
  part : Bytes
  pattern : Bytes → Bool
  /-- A parameter has a name. -/
  named : part ≠ bytes ":"
  compiled : engine.compile (patternText part) = some pattern

/-- `path_part::path_part`; it throws for a parameter without a name, and where `std::regex`
does. -/
def PathPart.make (engine : RegexEngine) (part : Bytes) : Option (PathPart engine) :=
  if named : part = bytes ":" then none
  else
    match compiled : engine.compile (patternText part) with
    | none => none
    | some pattern => some ⟨part, pattern, named, compiled⟩

variable {engine : RegexEngine}

/-- `path_part::matches`. -/
def PathPart.matches (p : PathPart engine) (str : Bytes) : Bool := p.pattern str

/-- `path_part::is_parameter`. -/
def PathPart.isParameter (p : PathPart engine) : Bool := p.part.head? = some COLON

/-- `path_part::get_template`. -/
def PathPart.getTemplate (p : PathPart engine) : Bytes :=
  if p.isParameter then p.part.drop 1 else p.part

/-- A `route` with `mount_route_` not set, less its callback. -/
structure Route (engine : RegexEngine) where
  method : Bytes
  pathParts : List (PathPart engine)

/-- `route::route`, with `initialize`. -/
def Route.make (engine : RegexEngine) (method pathTemplate : Bytes) : Option (Route engine) :=
  ((split isSlash pathTemplate).tail.mapM (PathPart.make engine)).map fun pathParts =>
    ⟨method, pathParts⟩

/-- `route::matches`. -/
def Route.matches (route : Route engine) (header : RequestHeader) : MatchResult :=
  let passedParts := (split isSlash header.path).tail
  if passedParts.length ≠ route.pathParts.length then .noMatch
  else if ¬ (route.pathParts.zip passedParts).all fun p => p.1.matches p.2 then .noMatch
  else if header.method ≠ route.method then .pathMatch
  else .fullMatch

/-- `route::get_path_parameters`, of a path with as many parts as the route. -/
def Route.getPathParameters (route : Route engine) (path : Bytes) : StringMap :=
  (route.pathParts.zip (split isSlash path).tail).foldl
    (fun result p => if p.1.isParameter then result.insert p.1.getTemplate p.2 else result) ∅

/-- `request_handler::param`, of the parameters given to `set_parameters`; it throws if there is no
such key. -/
def param (params : StringMap) (key : Bytes) : Option Bytes := params.lookup key

/-! ### What the parts match -/

namespace PathPart

theorem make_eq_some_iff {part : Bytes} {p : PathPart engine} :
    make engine part = some p ↔ p.part = part := by
  constructor
  · intro h
    unfold make at h
    split_ifs at h with hnamed
    split at h
    · cases h
    · cases h
      rfl
  · rintro rfl
    unfold make
    rw [dif_neg p.named]
    split
    · next hnone =>
      rw [p.compiled] at hnone
      cases hnone
    · next pattern hpattern =>
      have hsame : pattern = p.pattern := by
        rw [p.compiled, Option.some.injEq] at hpattern
        exact hpattern.symm
      subst hsame
      rfl

/-- A parameter matches what has no line terminator in it. -/
theorem matches_of_isParameter {p : PathPart engine} (h : p.isParameter) (str : Bytes) :
    p.matches str ↔ ∀ b ∈ str, isLineTerminator b = false := by
  have hpattern := p.compiled
  rw [patternText, if_pos (of_decide_eq_true h), engine.agrees _ [.atom .any .star] rfl,
    Option.some.injEq] at hpattern
  rw [PathPart.matches, ← hpattern, regexMatch_any]

/-- The parts of a list of texts. -/
theorem mapM_make_eq_some {texts : List Bytes} {ps : List (PathPart engine)}
    (h : ps.map PathPart.part = texts) : texts.mapM (make engine) = some ps := by
  induction ps generalizing texts with
  | nil =>
    subst h
    rfl
  | cons p ps ih =>
    subst h
    rw [List.map_cons, List.mapM_cons, make_eq_some_iff.mpr rfl, ih rfl]
    rfl

end PathPart

/-! ### Templates -/

/-- A part of a template. -/
inductive Segment where
  | parameter (name : Bytes)
  | literal (text : Bytes)
  deriving DecidableEq

namespace Segment

/-- How it is written in the template. -/
def text : Segment → Bytes
  | .parameter name => COLON :: name
  | .literal text => text

/-- What stands in its place when the parameters have these values. -/
def fill (value : Bytes → Bytes) : Segment → Bytes
  | .parameter name => value name
  | .literal text => text

/-- What stands in its place in the url: the values are percent-encoded. -/
def Encodes (value : Bytes → Bytes) : Segment → Bytes → Prop
  | .parameter name, e => FullyEncoded (value name) e
  | .literal text, e => e = text

def name? : Segment → Option Bytes
  | .parameter name => some name
  | .literal _ => none

/-- A name that is not empty, or a text that is no parameter and a pattern of itself. -/
def Plain : Segment → Prop
  | .parameter name => name ≠ [] ∧ SLASH ∉ name
  | .literal text =>
    text.head? ≠ some COLON ∧ ∀ b ∈ text, b ≠ SLASH ∧ isSyntaxCharacter b = false

/-- A name that is not empty, or a plain text. -/
def Valid : Segment → Prop
  | .parameter name => name ≠ [] ∧ SLASH ∉ name
  | .literal text =>
    text.head? ≠ some COLON ∧ ∀ b ∈ text, b ≠ SLASH ∧ b ≠ 37 ∧ isSyntaxCharacter b = false

end Segment

/-- A slash before each of the parts. -/
def pathText (parts : List Bytes) : Bytes := parts.flatMap fun part => SLASH :: part

/-- The names of the parameters. -/
def parameterNames (segments : List Segment) : List Bytes := segments.filterMap Segment.name?

/-- A template of valid parts, and with distinct names. -/
structure ValidTemplate (segments : List Segment) : Prop where
  valid : ∀ segment ∈ segments, segment.Valid
  distinct : (parameterNames segments).Nodup

/-- No value holds a slash or a line terminator. -/
def FreeOfTerminators (segments : List Segment) (value : Bytes → Bytes) : Prop :=
  ∀ name ∈ parameterNames segments, ∀ b ∈ value name, b ≠ SLASH ∧ b ≠ CR ∧ b ≠ LF

section Segments

variable {segments : List Segment} {value : Bytes → Bytes} {es : List Bytes}

/-- What is valid is plain: it is also free of the percent sign. -/
theorem Segment.Valid.plain {segment : Segment} (h : segment.Valid) : segment.Plain := by
  cases segment with
  | parameter name => exact h
  | literal text => exact ⟨h.1, fun b hb => ⟨(h.2 b hb).1, (h.2 b hb).2.2⟩⟩

/-- The parts of a path without other slashes are found again. -/
theorem split_pathText {parts : List Bytes} (h : ∀ part ∈ parts, SLASH ∉ part) :
    (split isSlash (pathText parts)).tail = parts := by
  have hfree : ∀ part ∈ ([] : Bytes) :: parts, ∀ b ∈ part, isSlash b = false := by
    intro part hpart b hb
    rw [isSlash, beq_eq_false_iff_ne]
    rintro rfl
    rcases List.mem_cons.mp hpart with rfl | hpart
    · cases hb
    · exact h part hpart hb
  rw [pathText, ← join_nil_cons, split_join (by decide) (List.cons_ne_nil _ _) hfree,
    List.tail_cons]

/-- The pattern of a plain text is the text between the two assertions. -/
theorem regex_patternText {text : Bytes} (h : (Segment.literal text).Plain) :
    regex (patternText text) =
      .ok (.inputStart :: (text.map fun b => .atom (.byte b) .once) ++ [.inputEnd]) := by
  obtain ⟨hhead, hplain⟩ := h
  have hne : ∀ b : Byte, isSyntaxCharacter b → b ∉ text := by
    intro b hb hmem
    rw [(hplain b hmem).2] at hb
    cases hb
  have hfront : text.headD 0 ≠ 94 := by
    cases text with
    | nil => decide
    | cons b text =>
      rintro rfl
      exact hne 94 (by decide) (List.mem_cons_self ..)
  have hback : (94 :: text).getLastD 0 ≠ 36 := by
    intro h
    have hmem := List.getLastD_mem_cons (l := text) (a := 94)
    rw [← List.getLastD_cons (a := 0), h] at hmem
    rcases List.mem_cons.mp hmem with hb | hb
    · cases hb
    · exact hne 36 (by decide) hb
  rw [patternText, if_neg hhead, if_pos hfront, if_pos hback,
    regex_literal fun b hb => (hplain b hb).2]

/-- **The parts of a template** can be constructed. -/
theorem Segment.Plain.exists_pathPart {segment : Segment} (h : segment.Plain) :
    ∃ p : PathPart engine, p.part = segment.text := by
  cases segment with
  | parameter name =>
    refine ⟨⟨COLON :: name, _, ?_, engine.agrees _ [.atom .any .star] rfl⟩, rfl⟩
    intro hname
    exact h.1 (List.cons.inj hname).2
  | literal text =>
    refine ⟨⟨text, _, ?_, engine.agrees _ _ (regex_patternText h)⟩, rfl⟩
    rintro rfl
    exact h.1 rfl

/-- A parameter is one, and its name is what it is bound to. -/
theorem isParameter_of_parameter {p : PathPart engine} {name : Bytes}
    (h : p.part = (Segment.parameter name).text) : p.isParameter ∧ p.getTemplate = name := by
  have hparameter : p.isParameter := by
    rw [PathPart.isParameter, h]
    exact decide_eq_true rfl
  refine ⟨hparameter, ?_⟩
  rw [PathPart.getTemplate, if_pos hparameter, h]
  rfl

theorem not_isParameter_of_literal {p : PathPart engine} {text : Bytes}
    (hplain : (Segment.literal text).Plain) (h : p.part = text) : ¬ p.isParameter := by
  rw [PathPart.isParameter, h, decide_eq_true_iff]
  exact hplain.1

/-- A plain text matches itself alone. -/
theorem matches_of_literal {p : PathPart engine} {text : Bytes}
    (hplain : (Segment.literal text).Plain) (h : p.part = text) (str : Bytes) :
    p.matches str ↔ str = text := by
  have hpattern := p.compiled
  rw [h, engine.agrees _ _ (regex_patternText hplain), Option.some.injEq] at hpattern
  rw [PathPart.matches, ← hpattern, regexMatch_literal]

theorem exists_pathParts (h : ∀ segment ∈ segments, segment.Plain) :
    ∃ ps : List (PathPart engine),
      List.Forall₂ (fun segment p => p.part = segment.text) segments ps := by
  induction segments with
  | nil => exact ⟨[], .nil⟩
  | cons segment segments ih =>
    rw [List.forall_mem_cons] at h
    obtain ⟨p, hp⟩ := h.1.exists_pathPart
    obtain ⟨ps, hps⟩ := ih h.2
    exact ⟨p :: ps, .cons hp hps⟩

/-- The parts of a template hold no slash. -/
theorem Segment.Plain.text_free {segment : Segment} (h : segment.Plain) : SLASH ∉ segment.text := by
  cases segment with
  | parameter name =>
    intro hmem
    rcases List.mem_cons.mp hmem with hb | hb
    · cases hb
    · exact h.2 hb
  | literal text =>
    intro hmem
    exact (h.2 SLASH hmem).1 rfl

/-- **The route of a template.** -/
theorem make_pathText (method : Bytes) (h : ∀ segment ∈ segments, segment.Plain)
    {ps : List (PathPart engine)}
    (hps : List.Forall₂ (fun segment p => p.part = segment.text) segments ps) :
    Route.make engine method (pathText (segments.map Segment.text)) = some ⟨method, ps⟩ := by
  have hfree : ∀ part ∈ segments.map Segment.text, SLASH ∉ part := by
    intro part hpart
    obtain ⟨segment, hsegment, rfl⟩ := List.mem_map.mp hpart
    exact (h segment hsegment).text_free
  have hparts : ps.map PathPart.part = segments.map Segment.text := by
    induction hps with
    | nil => rfl
    | cons hp hps ih =>
      rw [List.map_cons, List.map_cons, hp, ih (List.forall_mem_cons.mp h).2 ?_]
      exact fun part hpart => hfree part (List.mem_cons_of_mem _ hpart)
  rw [Route.make, split_pathText hfree, PathPart.mapM_make_eq_some hparts, Option.map_some]

/-! ### The parameters of a path -/

/-- The name of a parameter with what stands in its place. -/
def passedParameter (p : PathPart engine × Bytes) : Option (Bytes × Bytes) :=
  if p.1.isParameter then some (p.1.getTemplate, p.2) else none

/-- The names of the parameters with what stands in their places. -/
def passedParameters (ps : List (PathPart engine)) (passedParts : List Bytes) :
    List (Bytes × Bytes) :=
  (ps.zip passedParts).filterMap passedParameter

/-- A parameter takes what stands in its place. -/
theorem passedParameters_of_parameter {p : PathPart engine} {name : Bytes}
    (h : p.part = (Segment.parameter name).text) (ps : List (PathPart engine)) (passed : Bytes)
    (passedParts : List Bytes) :
    passedParameters (p :: ps) (passed :: passedParts) =
      (name, passed) :: passedParameters ps passedParts := by
  obtain ⟨hparameter, htemplate⟩ := isParameter_of_parameter h
  have hhead : passedParameter (p, passed) = some (name, passed) := by
    rw [passedParameter, if_pos hparameter, htemplate]
  rw [passedParameters, List.zip_cons_cons]
  exact List.filterMap_cons_some hhead

/-- A literal takes nothing. -/
theorem passedParameters_of_literal {p : PathPart engine} {text : Bytes}
    (hplain : (Segment.literal text).Plain) (h : p.part = text) (ps : List (PathPart engine))
    (passed : Bytes) (passedParts : List Bytes) :
    passedParameters (p :: ps) (passed :: passedParts) = passedParameters ps passedParts := by
  have hhead : passedParameter (p, passed) = none :=
    if_neg (not_isParameter_of_literal hplain h)
  rw [passedParameters, List.zip_cons_cons]
  exact List.filterMap_cons_none hhead

theorem getPathParameters_eq (route : Route engine) (path : Bytes) :
    route.getPathParameters path =
      insertAll ∅ (passedParameters route.pathParts (split isSlash path).tail) := by
  have hfoldl : ∀ (zs : List (PathPart engine × Bytes)) (m : StringMap),
      zs.foldl (fun result p =>
          if p.1.isParameter then result.insert p.1.getTemplate p.2 else result) m =
        insertAll m (zs.filterMap passedParameter) := by
    intro zs
    induction zs with
    | nil => exact fun _ => rfl
    | cons z zs ih =>
      intro m
      by_cases hz : z.1.isParameter
      · have hpassed : passedParameter z = some (z.1.getTemplate, z.2) := if_pos hz
        rw [List.foldl_cons, if_pos hz, ih, List.filterMap_cons_some hpassed, insertAll_cons]
      · have hpassed : passedParameter z = none := if_neg hz
        rw [List.foldl_cons, if_neg hz, ih, List.filterMap_cons_none hpassed]
  exact hfoldl _ _

/-- What a route matches has a part for each of its own, which that part matches. -/
theorem matches_ne_noMatch_iff (route : Route engine) (header : RequestHeader) :
    route.matches header ≠ .noMatch ↔
      (split isSlash header.path).tail.length = route.pathParts.length ∧
        ∀ p ∈ route.pathParts.zip (split isSlash header.path).tail, p.1.matches p.2 := by
  rw [Route.matches]
  split_ifs with hlength hall hmethod
  · exact iff_of_false (fun h => h rfl) fun h => hlength h.1
  · exact iff_of_true nofun ⟨not_not.mp hlength, List.all_eq_true.mp hall⟩
  · exact iff_of_true nofun ⟨not_not.mp hlength, List.all_eq_true.mp hall⟩
  · exact iff_of_false (fun h => h rfl) fun h => hall (List.all_eq_true.mpr h.2)

/-- **What is bound by a match** holds neither a slash nor a line terminator. -/
theorem free_of_param {route : Route engine} {header : RequestHeader} {name v : Bytes}
    (hmatches : route.matches header ≠ .noMatch)
    (hparam : param (route.getPathParameters header.path) name = some v) :
    ∀ b ∈ v, b ≠ SLASH ∧ b ≠ CR ∧ b ≠ LF := by
  obtain ⟨-, hall⟩ := (matches_ne_noMatch_iff route header).mp hmatches
  rw [param, getPathParameters_eq] at hparam
  rcases mem_of_lookup_insertAll hparam with hnone | hmem
  · rw [AList.lookup_empty] at hnone
    cases hnone
  · obtain ⟨⟨p, str⟩, hzip, hpair⟩ := List.mem_filterMap.mp hmem
    rw [passedParameter] at hpair
    split_ifs at hpair with hparameter
    rw [Option.some.injEq, Prod.mk.injEq] at hpair
    obtain ⟨-, rfl⟩ := hpair
    have hmatch := (PathPart.matches_of_isParameter hparameter str).mp (hall _ hzip)
    have hpart := List.mem_of_mem_tail (List.of_mem_zip hzip).2
    intro b hb
    have hslash := (mem_of_mem_split hpart hb).2
    have hline := hmatch b hb
    rw [isSlash, beq_eq_false_iff_ne] at hslash
    rw [isLineTerminator, Bool.or_eq_false_iff, beq_eq_false_iff_ne, beq_eq_false_iff_ne] at hline
    exact ⟨hslash, hline.2, hline.1⟩

/-- The places of a path filled with the values, and what the parts of the template do with
them. -/
theorem passed_fill (hvalid : ∀ segment ∈ segments, segment.Valid) {ps : List (PathPart engine)}
    (hps : List.Forall₂ (fun segment p => p.part = segment.text) segments ps)
    (hfree : FreeOfTerminators segments value) :
    (∀ p ∈ ps.zip (segments.map (Segment.fill value)), p.1.matches p.2) ∧
      passedParameters ps (segments.map (Segment.fill value)) =
        (parameterNames segments).map fun name => (name, value name) := by
  induction hps with
  | nil => exact ⟨fun p hp => absurd hp List.not_mem_nil, rfl⟩
  | @cons segment p segments ps hp hps ih =>
    rw [List.forall_mem_cons] at hvalid
    rw [List.map_cons, List.zip_cons_cons, List.forall_mem_cons]
    cases segment with
    | parameter name =>
      obtain ⟨hparameter, -⟩ := isParameter_of_parameter hp
      have hnames : parameterNames (.parameter name :: segments) =
          name :: parameterNames segments := rfl
      rw [FreeOfTerminators, hnames, List.forall_mem_cons] at hfree
      obtain ⟨hmatches, hpassed⟩ := ih hvalid.2 hfree.2
      refine ⟨⟨?_, hmatches⟩, ?_⟩
      · rw [PathPart.matches_of_isParameter hparameter]
        intro b hb
        have hb' := hfree.1 b hb
        rw [isLineTerminator, Bool.or_eq_false_iff, beq_eq_false_iff_ne, beq_eq_false_iff_ne]
        exact ⟨hb'.2.2, hb'.2.1⟩
      · rw [hnames, List.map_cons, ← hpassed]
        exact passedParameters_of_parameter hp ps _ _
    | literal text =>
      have hnames : parameterNames (.literal text :: segments) = parameterNames segments := rfl
      rw [FreeOfTerminators, hnames] at hfree
      obtain ⟨hmatches, hpassed⟩ := ih hvalid.2 hfree
      refine ⟨⟨(matches_of_literal hvalid.1.plain hp _).mpr rfl, hmatches⟩, ?_⟩
      rw [hnames, ← hpassed]
      exact passedParameters_of_literal hvalid.1.plain hp ps _ _

/-- The url of encoded values holds no `?`, and is decoded to the path of the values. -/
theorem decodeUrl_pathText (hvalid : ∀ segment ∈ segments, segment.Valid)
    (henc : List.Forall₂ (Segment.Encodes value) segments es) :
    63 ∉ pathText es ∧ RequestHeader.decodeUrl (pathText es) =
      some (pathText (segments.map (Segment.fill value))) := by
  induction henc with
  | nil => exact ⟨List.not_mem_nil, rfl⟩
  | @cons segment e segments es he henc ih =>
    rw [List.forall_mem_cons] at hvalid
    obtain ⟨hquery, hdecoded⟩ := ih hvalid.2
    have hhead : 63 ∉ e ∧ ∀ encoded, RequestHeader.decodeUrl (e ++ encoded) =
        (RequestHeader.decodeUrl encoded).map fun decoded => segment.fill value ++ decoded := by
      cases segment with
      | parameter name =>
        exact ⟨FullyEncoded.not_mem he (by decide) (by decide),
          RequestHeader.decodeUrl_fullyEncoded he⟩
      | literal text =>
        obtain rfl : e = text := he
        have hplain := hvalid.1.2
        refine ⟨fun hmem => ?_, RequestHeader.decodeUrl_append fun hmem => ?_⟩
        · exact absurd (hplain 63 hmem).2.2 (by decide)
        · exact (hplain 37 hmem).2.1 rfl
    have hcons : pathText (e :: es) = SLASH :: (e ++ pathText es) := rfl
    constructor
    · rw [hcons, List.mem_cons, List.mem_append, not_or, not_or]
      exact ⟨by decide, hhead.1, hquery⟩
    · rw [hcons, RequestHeader.decodeUrl_cons (by decide), hhead.2, hdecoded]
      rfl

theorem requestHeader_pathText (hvalid : ∀ segment ∈ segments, segment.Valid)
    (henc : List.Forall₂ (Segment.Encodes value) segments es) {im : RequestHeaderIntermediate}
    (hurl : im.url = pathText es) :
    im.requestHeader =
      some { im.toRequestHeader with path := pathText (segments.map (Segment.fill value)) } := by
  obtain ⟨hquery, hdecoded⟩ := decodeUrl_pathText hvalid henc
  have hcut : cutLast 63 im.toRequestHeader.url = none := by
    rw [cutLast_eq_none_iff, show im.toRequestHeader.url = pathText es from hurl]
    exact hquery
  have hsame : RequestHeader.decodeUrl im.toRequestHeader.url =
      some (pathText (segments.map (Segment.fill value))) := by
    rw [← hdecoded, ← hurl]
    rfl
  rw [RequestHeaderIntermediate.requestHeader, RequestHeader.parseUrl, hcut]
  dsimp only
  rw [hsame, Option.map_some]

end Segments

/-! ### Encoded parameters -/

/-- A request is matched by the route of a template, and the parameters are bound to these
values. -/
def BindsParameters (engine : RegexEngine) (method : Bytes) (segments : List Segment)
    (value : Bytes → Bytes) (im : RequestHeaderIntermediate) : Prop :=
  ∃ route h, Route.make engine method (pathText (segments.map Segment.text)) = some route ∧
    im.requestHeader = some h ∧ route.matches h ≠ .noMatch ∧
      ∀ name ∈ parameterNames segments,
        param (route.getPathParameters h.path) name = some (value name)

/-- **What becomes of encoded parameters**: they are bound to their values exactly if no slash and
no line terminator is among their bytes. -/
theorem path_parameters_iff (engine : RegexEngine) (method : Bytes) (segments : List Segment)
    (hvalid : ValidTemplate segments) (value : Bytes → Bytes) (es : List Bytes)
    (henc : List.Forall₂ (Segment.Encodes value) segments es) (im : RequestHeaderIntermediate)
    (hurl : im.url = pathText es) :
    BindsParameters engine method segments value im ↔ FreeOfTerminators segments value := by
  have hplain : ∀ segment ∈ segments, segment.Plain := fun segment hsegment =>
    (hvalid.valid segment hsegment).plain
  obtain ⟨ps, hps⟩ : ∃ ps : List (PathPart engine), List.Forall₂ _ segments ps :=
    exists_pathParts hplain
  have hmake := make_pathText method hplain hps
  have hheader := requestHeader_pathText hvalid.valid henc hurl
  constructor
  · rintro ⟨route, h, -, -, hmatches, hparams⟩
    intro name hname
    exact free_of_param hmatches (hparams name hname)
  · intro hfree
    have hparts : ∀ part ∈ segments.map (Segment.fill value), SLASH ∉ part := by
      intro part hpart hmem
      obtain ⟨segment, hsegment, rfl⟩ := List.mem_map.mp hpart
      cases segment with
      | parameter name =>
        have hname : name ∈ parameterNames segments := List.mem_filterMap.mpr ⟨_, hsegment, rfl⟩
        exact (hfree name hname SLASH hmem).1 rfl
      | literal text => exact ((hvalid.valid _ hsegment).2 SLASH hmem).1 rfl
    have hsplit := split_pathText hparts
    obtain ⟨hmatches, hpassed⟩ := passed_fill hvalid.valid hps hfree
    refine ⟨_, _, hmake, hheader, ?_, ?_⟩
    · rw [matches_ne_noMatch_iff]
      dsimp only
      rw [hsplit, List.length_map]
      exact ⟨hps.length_eq, hmatches⟩
    · intro name hname
      rw [param, getPathParameters_eq]
      dsimp only
      rw [hsplit, hpassed]
      have hmem : (name, value name) ∈
          (parameterNames segments).map fun name => (name, value name) :=
        List.mem_map_of_mem hname
      refine lookup_insertAll_of_mem ?_ hmem
      rw [List.map_map]
      exact (List.map_id _).symm ▸ hvalid.distinct

/-- The template `/a/:x`. -/
def exampleTemplate : List Segment := [.literal (bytes "a"), .parameter (bytes "x")]

theorem validTemplate_example : ValidTemplate exampleTemplate where
  valid := by
    intro segment hsegment
    rcases List.mem_cons.mp hsegment with rfl | hsegment
    · refine ⟨by decide, ?_⟩
      intro b hb
      have ha : b ∈ ([97] : Bytes) := hb
      obtain rfl := List.mem_singleton.mp ha
      decide
    · rw [List.mem_singleton] at hsegment
      subst hsegment
      exact ⟨by decide, by decide⟩
  distinct := List.nodup_singleton _

/-- The request for `/a/1`, with the value encoded. -/
theorem path_parameters_iff_one :
    BindsParameters .least (bytes "GET") exampleTemplate (fun _ => bytes "1")
        { url := bytes "/a/%31" } ↔
      FreeOfTerminators exampleTemplate fun _ => bytes "1" := by
  refine path_parameters_iff .least (bytes "GET") exampleTemplate validTemplate_example
    (fun _ => bytes "1") [bytes "a", bytes "%31"] ?_ _ (by decide)
  exact .cons rfl
    (.cons (.escaped (x := 3) (y := 1) (by decide) (by decide) (by decide) .nil) .nil)

/-- A value that is a slash splits the path, and the route does not match. -/
theorem not_binds_slash :
    ¬ ∀ (engine : RegexEngine) (method : Bytes) (segments : List Segment), ValidTemplate segments →
      ∀ value : Bytes → Bytes, (∀ name ∈ parameterNames segments, value name ≠ []) →
      ∀ es : List Bytes, List.Forall₂ (Segment.Encodes value) segments es →
      ∀ im : RequestHeaderIntermediate, im.url = pathText es →
        BindsParameters engine method segments value im := by
  intro hall
  have henc : List.Forall₂ (Segment.Encodes fun _ => bytes "/") exampleTemplate
      [bytes "a", bytes "%2f"] := by
    exact .cons rfl
      (.cons (.escaped (x := 2) (y := 15) (by decide) (by decide) (by decide) .nil) .nil)
  obtain ⟨route, h, hmake, hheader, hmatches, -⟩ := hall .least [] exampleTemplate
    validTemplate_example (fun _ => bytes "/") (fun _ _ => by decide) _ henc
    { url := bytes "/a/%2f" } (by decide)
  have hnone : (Route.make .least [] (pathText (exampleTemplate.map Segment.text))).bind
      (fun route =>
        (RequestHeaderIntermediate.requestHeader { url := bytes "/a/%2f" }).map route.matches) =
          some .noMatch := by
    decide
  rw [hmake, Option.bind_some, hheader, Option.map_some, Option.some.injEq] at hnone
  exact hmatches hnone

end Attender.Http
