import Attender.Http.Routes

/-!
# The paths of a route

What a route makes of a path that it matches. The part in front of the first
slash is dropped from the path as it is from the template, and nothing looks at
it, so a path that does not start with a slash is matched by its other parts.
-/

namespace Attender.Http

open Attender.Library

variable {engine : RegexEngine}

/-- The loop of `route::get_path_parameters`; nothing if it indexes outside of the passed parts. -/
def Route.parametersFrom (passedParts : List Bytes) :
    Nat → List (PathPart engine) → StringMap → Option StringMap
  | _, [], result => some result
  | i, part :: parts, result =>
    if part.isParameter then
      (passedParts[i]?).bind fun passed =>
        parametersFrom passedParts (i + 1) parts (result.insert part.getTemplate passed)
    else parametersFrom passedParts (i + 1) parts result

/-- `route::get_path_parameters`, by its indices. -/
def Route.indexPathParameters (route : Route engine) (path : Bytes) : Option StringMap :=
  Route.parametersFrom (split isSlash path).tail 0 route.pathParts ∅

/-- What stands in the place of a part of a template when the parameters are those of a map. -/
def Segment.substitute (params : StringMap) : Segment → Option Bytes
  | .parameter name => param params name
  | .literal text => some text

/-- A template whose parts are plain and whose parameters have distinct names. -/
structure PlainTemplate (segments : List Segment) : Prop where
  plain : ∀ segment ∈ segments, segment.Plain
  distinct : (parameterNames segments).Nodup

/-- No index is out of range, and the parameters substituted into the template give back the
path. -/
def GivesBack (segments : List Segment) (route : Route engine) (path : Bytes) : Prop :=
  ∃ params, route.indexPathParameters path = some params ∧
    (segments.mapM (Segment.substitute params)).map pathText = some path

/-! ### The indices -/

/-- No index is out of range if there are as many parts as the route has. -/
theorem Route.parametersFrom_eq (passedParts : List Bytes) (i : Nat)
    (parts : List (PathPart engine)) (result : StringMap)
    (hlength : i + parts.length ≤ passedParts.length) :
    Route.parametersFrom passedParts i parts result =
      some (insertAll result (passedParameters parts (passedParts.drop i))) := by
  induction parts generalizing i result with
  | nil => rfl
  | cons part parts ih =>
    rw [List.length_cons] at hlength
    have hi : i < passedParts.length := by omega
    have hrest := fun result => ih (i + 1) result (by omega)
    have hdrop : passedParts.drop i = passedParts[i] :: passedParts.drop (i + 1) :=
      List.drop_eq_getElem_cons hi
    rw [Route.parametersFrom, passedParameters, hdrop, List.zip_cons_cons]
    split_ifs with hparameter
    · have hpassed : passedParameter (part, passedParts[i]) =
          some (part.getTemplate, passedParts[i]) := if_pos hparameter
      rw [List.getElem?_eq_getElem hi, Option.bind_some, hrest, List.filterMap_cons_some hpassed,
        insertAll_cons]
      rfl
    · have hpassed : passedParameter (part, passedParts[i]) = none := if_neg hparameter
      rw [hrest, List.filterMap_cons_none hpassed]
      rfl

theorem indexPathParameters_of_matches {route : Route engine} {header : RequestHeader}
    (hmatches : route.matches header ≠ .noMatch) :
    route.indexPathParameters header.path = some (route.getPathParameters header.path) := by
  obtain ⟨hlength, -⟩ := (matches_ne_noMatch_iff route header).mp hmatches
  rw [Route.indexPathParameters, Route.parametersFrom_eq, List.drop_zero, getPathParameters_eq]
  omega

/-! ### The parts -/

section Parts

variable {segments : List Segment} {ps : List (PathPart engine)} {passedParts : List Bytes}

theorem map_fst_passedParameters (hplain : ∀ segment ∈ segments, segment.Plain)
    (hps : List.Forall₂ (fun segment p => p.part = segment.text) segments ps)
    (hlength : passedParts.length = ps.length) :
    (passedParameters ps passedParts).map Prod.fst = parameterNames segments := by
  induction hps generalizing passedParts with
  | nil => rfl
  | @cons segment p segments ps hp hps ih =>
    obtain ⟨passed, passedParts, rfl⟩ :=
      List.exists_cons_of_length_eq_add_one (hlength.trans List.length_cons)
    rw [List.forall_mem_cons] at hplain
    have hrest := ih hplain.2 (Nat.succ.inj hlength)
    cases segment with
    | parameter name =>
      rw [passedParameters_of_parameter hp, List.map_cons, hrest]
      rfl
    | literal text =>
      rw [passedParameters_of_literal hplain.1 hp, hrest]
      rfl

theorem mapM_substitute {params : StringMap} (hplain : ∀ segment ∈ segments, segment.Plain)
    (hps : List.Forall₂ (fun segment p => p.part = segment.text) segments ps)
    (hlength : passedParts.length = ps.length)
    (hmatches : ∀ p ∈ ps.zip passedParts, p.1.matches p.2)
    (hparams : ∀ kv ∈ passedParameters ps passedParts, params.lookup kv.1 = some kv.2) :
    segments.mapM (Segment.substitute params) = some passedParts := by
  induction hps generalizing passedParts with
  | nil =>
    rw [List.length_eq_zero_iff.mp hlength]
    rfl
  | @cons segment p segments ps hp hps ih =>
    obtain ⟨passed, passedParts, rfl⟩ :=
      List.exists_cons_of_length_eq_add_one (hlength.trans List.length_cons)
    rw [List.forall_mem_cons] at hplain
    rw [List.zip_cons_cons, List.forall_mem_cons] at hmatches
    obtain ⟨hpart, hparams⟩ : segment.substitute params = some passed ∧
        ∀ kv ∈ passedParameters ps passedParts, params.lookup kv.1 = some kv.2 := by
      cases segment with
      | parameter name =>
        rw [passedParameters_of_parameter hp, List.forall_mem_cons] at hparams
        exact hparams
      | literal text =>
        rw [passedParameters_of_literal hplain.1 hp] at hparams
        refine ⟨?_, hparams⟩
        rw [Segment.substitute, (matches_of_literal hplain.1 hp passed).mp hmatches.1]
    have hrest := ih hplain.2 (Nat.succ.inj hlength) hmatches.2 hparams
    rw [List.mapM_cons, hpart, hrest]
    rfl

/-- The parts behind the first slash make up the path exactly if nothing stands before it. -/
theorem pathText_tail_split_iff (path : Bytes) :
    pathText (split isSlash path).tail = path ↔ path = [] ∨ path.head? = some SLASH := by
  have hjoin : join SLASH (split isSlash path) = path := join_split SLASH path
  obtain ⟨first, parts, hsplit⟩ := List.exists_cons_of_ne_nil (List.splitOnP_ne_nil isSlash path)
  have hfirst : SLASH ∉ first := by
    intro hmem
    have hpart : first ∈ split isSlash path := by
      rw [split, hsplit]
      exact List.mem_cons_self
    exact absurd (mem_of_mem_split hpart hmem).2 (by decide)
  rw [split, hsplit, join_cons] at hjoin
  rw [split, hsplit, List.tail_cons, ← hjoin, pathText, List.self_eq_append_left]
  constructor
  · rintro rfl
    cases parts with
    | nil => exact Or.inl rfl
    | cons part parts => exact Or.inr rfl
  · intro h
    cases first with
    | nil => rfl
    | cons b first =>
      rcases h with h | h
      · cases h
      · rw [List.cons_append, List.head?_cons, Option.some.injEq] at h
        exact absurd (h ▸ List.mem_cons_self) hfirst

end Parts

/-! ### The path of a match -/

/-- **What a route matches**: the parameters give back the path exactly if it is empty or starts
with a slash. -/
theorem matches_givesBack_iff (engine : RegexEngine) (method : Bytes) (segments : List Segment)
    (htemplate : PlainTemplate segments) (route : Route engine)
    (hroute : Route.make engine method (pathText (segments.map Segment.text)) = some route)
    (header : RequestHeader) (hmatches : route.matches header ≠ .noMatch) :
    GivesBack segments route header.path ↔
      header.path = [] ∨ header.path.head? = some SLASH := by
  obtain ⟨ps, hps⟩ : ∃ ps : List (PathPart engine), List.Forall₂ _ segments ps :=
    exists_pathParts htemplate.plain
  rw [make_pathText method htemplate.plain hps, Option.some.injEq] at hroute
  subst hroute
  obtain ⟨hlength, hall⟩ := (matches_ne_noMatch_iff _ header).mp hmatches
  have hsubstitute : segments.mapM (Segment.substitute
      (Route.getPathParameters ⟨method, ps⟩ header.path)) =
        some (split isSlash header.path).tail := by
    refine mapM_substitute htemplate.plain hps hlength hall ?_
    intro kv hkv
    rw [getPathParameters_eq]
    refine lookup_insertAll_of_mem ?_ hkv
    rw [map_fst_passedParameters htemplate.plain hps hlength]
    exact htemplate.distinct
  simp only [GivesBack, indexPathParameters_of_matches hmatches, Option.some.injEq,
    exists_eq_left', hsubstitute, Option.map_some, pathText_tail_split_iff]

theorem plainTemplate_example : PlainTemplate exampleTemplate :=
  ⟨fun segment hsegment => (validTemplate_example.valid segment hsegment).plain,
    validTemplate_example.distinct⟩

theorem exists_exampleRoute : ∃ route,
    Route.make .least (bytes "GET") (pathText (exampleTemplate.map Segment.text)) = some route ∧
      route.matches { method := bytes "GET", path := bytes "/a/1" } ≠ .noMatch ∧
      route.matches { method := bytes "GET", path := bytes "x/a/1" } ≠ .noMatch :=
  ⟨_, rfl, by decide, by decide⟩

/-- The path `/a/1`. -/
theorem matches_givesBack_iff_one : ∃ route,
    Route.make .least (bytes "GET") (pathText (exampleTemplate.map Segment.text)) = some route ∧
      (GivesBack exampleTemplate route (bytes "/a/1") ↔
        bytes "/a/1" = [] ∨ (bytes "/a/1").head? = some SLASH) := by
  obtain ⟨route, hroute, hmatches, -⟩ := exists_exampleRoute
  exact ⟨route, hroute, matches_givesBack_iff .least (bytes "GET") exampleTemplate
    plainTemplate_example route hroute { method := bytes "GET", path := bytes "/a/1" } hmatches⟩

/-- The path `x/a/1` is matched by the route of `/a/:x`, and what is given back is `/a/1`. -/
theorem not_givesBack_unrooted :
    ¬ ∀ (engine : RegexEngine) (method : Bytes) (segments : List Segment), PlainTemplate segments →
      ∀ route, Route.make engine method (pathText (segments.map Segment.text)) = some route →
      ∀ header : RequestHeader, route.matches header ≠ .noMatch →
        GivesBack segments route header.path := by
  intro hall
  obtain ⟨route, hroute, -, hmatches⟩ := exists_exampleRoute
  obtain ⟨params, hparams, hpath⟩ :=
    hall .least (bytes "GET") exampleTemplate plainTemplate_example route hroute _ hmatches
  rw [Option.map_eq_some_iff] at hpath
  obtain ⟨parts, hparts, hpath⟩ := hpath
  -- what is given back starts with a slash
  have hhead : (pathText parts).head? = some SLASH := by
    cases parts with
    | nil => cases hpath
    | cons part parts => rfl
  rw [hpath] at hhead
  exact absurd hhead (by decide)

end Attender.Http
