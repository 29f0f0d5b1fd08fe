import Attender.Http.CookieCodec
import Attender.Http.HeaderRoundTrip
import Attender.Http.HttpBasicServer
import Attender.Http.QueryCoding
import Attender.Http.RequestRouter
import Attender.Http.Routes

/-!
# From a client to a handler

A request from end to end. A client writes it: the target with its values
percent-encoded, the cookies on lines of their own, the fields. The bytes arrive
in pieces, the parser reads them, the header is constructed, and the router
finds a route. The handler of that route is given what the client has written,
and the body is left behind the header (`request_dispatched`).
-/

namespace Attender.Http

open Attender.Library Attender.Session HeaderSection

/-! ### What a client writes -/

/-- A request as a client means it. -/
structure ClientRequest where
  method : Bytes
  /-- The path, by the template that the server has for it. -/
  segments : List Segment
  value : Bytes → Bytes
  query : List (Bytes × Bytes) := []
  cookies : List (Bytes × Bytes) := []
  fields : List (Bytes × Bytes) := []

namespace ClientRequest

variable (c : ClientRequest)

/-- The path with the values in it. -/
def path : Bytes := pathText (c.segments.map (Segment.fill c.value))

/-- What can be written. -/
structure Valid : Prop where
  template : ValidTemplate c.segments
  values : FreeOfTerminators c.segments c.value
  query : FreeOfSeparators c.query
  cookies : ∀ cookie ∈ c.cookies, IsCookiePair cookie
  cookieNames : (c.cookies.map Prod.fst).Nodup
  fields : ∀ kv ∈ c.fields, IsField kv

/-- The header section is a way of writing the request. -/
structure Written (cfg : Config) (s : HeaderSection) : Prop where
  method : s.method = c.method
  target : ∃ es qs, List.Forall₂ (Segment.Encodes c.value) c.segments es ∧
    EncodedPairs c.query qs ∧
      s.url = pathText es ++ if c.query = [] then [] else 63 :: queryText qs
  lines : Arranged c.cookies (c.fields.map fieldLine) s.lines
  start : { s with lines := [] }.Valid cfg
  count : s.lines.length ≤ cfg.headerFieldMax

/-- A handler can find in the header what the client has written, and nothing else. -/
structure Understood (h : RequestHeader) : Prop where
  method : h.method = c.method
  path : h.path = c.path
  query : ∀ key, h.getQuery key = lastWins c.query key
  cookie : ∀ name, h.getCookie name = c.cookies.lookup name
  field : ∀ key, h.getField key = lastWins c.fields key

end ClientRequest

/-! ### What the parser and the header make of it -/

/-- Of several values for a key the last one stays. -/
theorem lookup_insertAll (m : StringMap) (kvs : List (Bytes × Bytes)) (key : Bytes) :
    (insertAll m kvs).lookup key = (lastWins kvs key).or (m.lookup key) := by
  induction kvs generalizing m with
  | nil => rfl
  | cons kv kvs ih =>
    rw [insertAll_cons, ih, lastWins_cons, Option.or_assoc]
    congr 1
    split_ifs with hkey
    · rw [hkey, AList.lookup_insert]
      rfl
    · rw [AList.lookup_insert_ne hkey]
      rfl

/-- Without two values for one key it does not matter which of them stays. -/
theorem lastWins_of_nodup {kvs : List (Bytes × Bytes)} (h : (kvs.map Prod.fst).Nodup)
    (key : Bytes) : lastWins kvs key = kvs.lookup key := by
  induction kvs with
  | nil => rfl
  | cons kv kvs ih =>
    obtain ⟨hkv, hkvs⟩ := List.nodup_cons.mp h
    rw [lastWins_cons, ih hkvs, List.lookup_cons]
    by_cases hkey : key = kv.1
    · have hnone : kvs.lookup key = none := by
        rw [List.lookup_eq_none_iff]
        intro kv' hkv'
        rw [bne_iff_ne, hkey]
        rintro he
        exact hkv (he ▸ List.mem_map_of_mem hkv')
      simp [hkey ▸ hnone, hkey]
    · simp [hkey, beq_eq_false_iff_ne.mpr hkey]

namespace ClientRequest

variable {c : ClientRequest} {cfg : Config} {s : HeaderSection}

/-- **The target** is decoded to the path with the values in it, and to the query. -/
theorem Written.targetParts (hw : c.Written cfg s) (hc : c.Valid) :
    RequestHeader.targetParts s.url ∅ = some (c.path, insertAll ∅ c.query) := by
  obtain ⟨es, qs, hes, hqs, hurl⟩ := hw.target
  obtain ⟨hfree, hpath⟩ := decodeUrl_pathText hc.template.valid hes
  rw [RequestHeader.targetParts, hurl]
  split_ifs with hquery
  · rw [List.append_nil, cutLast_eq_none_iff.mpr hfree, hquery]
    dsimp only
    rw [hpath]
    rfl
  · rw [cutLast_eq_some_iff.mpr ⟨rfl, not_mem_queryText hqs⟩]
    dsimp only
    rw [decodeUrl_queryText hqs, hpath, Option.bind_some, Option.map_some]
    have hadd : ∀ (query : StringMap) (pairs : List Bytes),
        pairs.foldl RequestHeader.addQuery query = insertAll query (pairs.map queryPair) := by
      intro query pairs
      induction pairs generalizing query with
      | nil => rfl
      | cons pair pairs ih => rw [List.foldl_cons, addQuery_eq, ih, List.map_cons, insertAll_cons]
    rw [hadd, split_queryText hquery hc.query]
    rfl

theorem Written.valid (hw : c.Written cfg s) (hc : c.Valid) : s.Valid cfg :=
  { hw.start with count := hw.count, lines := hw.lines.isFieldLine hc.cookies }

/-- **What is read of the lines**. -/
theorem Written.understood (hw : c.Written cfg s) (hc : c.Valid) (r : Bytes) :
    ∃ h, (finishedParser s r).header.requestHeader = some h ∧ c.Understood h := by
  rw [requestHeader_finished, hw.targetParts hc]
  refine ⟨_, rfl, ?_⟩
  constructor
  · exact (foldl_storeLine_words s.lines _).1.trans hw.method
  · rfl
  · intro key
    refine (lookup_insertAll ∅ c.query key).trans ?_
    rw [AList.lookup_empty, Option.or_none]
  · intro name
    refine (hw.lines.lookup_cookies hc.cookies hc.cookieNames _ name).trans ?_
    rw [AList.lookup_empty, Option.none_or, lookup_insertAll, AList.lookup_empty, Option.or_none,
      lastWins_of_nodup hc.cookieNames]
  · intro key
    refine (lookup_foldl_storeLine s.lines _ key).trans ?_
    have hfields : ((c.fields.map fieldLine).map fun l => (fieldName l, fieldValue l)) =
        c.fields := by
      rw [List.map_map]
      refine (List.map_congr_left ?_).trans (List.map_id _)
      intro kv hkv
      exact Prod.ext (fieldName_fieldLine (hc.fields kv hkv))
        (fieldValue_fieldLine (hc.fields kv hkv))
    rw [hw.lines.fieldPairs hc.cookies, hfields, AList.lookup_empty, Option.or_none]

/-! ### The route -/

end ClientRequest

variable {κ : Type} {engine : RegexEngine}

/-- `route::get_path_parameters`; the template of a mount is its only part. -/
def CallbackRoute.getPathParameters (path : Bytes) : CallbackRoute engine κ → StringMap
  | .parts route _ => route.getPathParameters path
  | .mount route _ =>
    Route.getPathParameters ⟨route.method, (PathPart.make engine route.pathTemplate).toList⟩ path

/-- `router_.find_route`, and what `set_parameters` is given for the route found. -/
def RequestRouter.routed (router : RequestRouter (CallbackRoute engine κ))
    (header : RequestHeader) : RouteMatch (κ × StringMap) :=
  match router.findRoute (libraryRouting engine κ) header with
  | (some route, _) => .route (route.getCallback, route.getPathParameters header.path)
  | (none, bestMatch) => .missing bestMatch

theorem matches_congr {h h' : RequestHeader} (hmethod : h.method = h'.method)
    (hpath : h.path = h'.path) (route : CallbackRoute engine κ) :
    (libraryRouting engine κ).matches_ route h = (libraryRouting engine κ).matches_ route h' := by
  cases route with
  | parts route callback =>
    show route.matches h = route.matches h'
    rw [Route.matches, Route.matches, hmethod, hpath]
  | mount route callback =>
    show route.matches h.method h.path = route.matches h'.method h'.path
    rw [hmethod, hpath]

theorem findRoute_of_selected {calls : List (RouterCall (CallbackRoute engine κ) κ)}
    {header : RequestHeader} {i : Nat} {priority : Int} {route : CallbackRoute engine κ}
    (h : RequestRouter.Selected (libraryRouting engine κ)
      (calls.flatMap (RouterCall.added (libraryRouting engine κ))) header i priority route) :
    ((calls.foldl (RequestRouter.apply (libraryRouting engine κ)) {}).findRoute
      (libraryRouting engine κ) header).1 = some route := by
  have hroutes := RequestRouter.routes_foldl (libraryRouting engine κ) calls {}
  rw [RequestRouter.findRoute, RequestRouter.fst_findRouteFrom, hroutes, Option.map_eq_some_iff]
  refine ⟨(priority, route), Multimap.find?_ofList_eq_some_iff.mpr ⟨i, h.mem, ?_, ?_⟩, rfl⟩
  · simpa using h.full
  · rintro j ⟨priority', route'⟩ hj hfull'
    exact h.best j priority' route' hj (by simpa using hfull')

namespace ClientRequest

variable {c : ClientRequest} {cfg : Config} {s : HeaderSection}

/-- The method and the path that a request is routed by. -/
def routedBy (c : ClientRequest) : RequestHeader := { method := c.method, path := c.path }

/-- **The route of the template** matches the request, and binds each parameter to its value. -/
theorem Valid.route (hc : c.Valid) {route : Route engine}
    (hroute : Route.make engine c.method (pathText (c.segments.map Segment.text)) = some route) :
    route.matches c.routedBy = .fullMatch ∧
      ∀ name, param (route.getPathParameters c.path) name =
        if name ∈ parameterNames c.segments then some (c.value name) else none := by
  have hplain : ∀ segment ∈ c.segments, segment.Plain := fun segment hsegment =>
    (hc.template.valid segment hsegment).plain
  obtain ⟨ps, hps⟩ : ∃ ps : List (PathPart engine), List.Forall₂ _ c.segments ps :=
    exists_pathParts hplain
  rw [make_pathText c.method hplain hps] at hroute
  obtain rfl := Option.some.inj hroute
  have hfree : ∀ part ∈ c.segments.map (Segment.fill c.value), SLASH ∉ part := by
    intro part hpart hmem
    obtain ⟨segment, hsegment, rfl⟩ := List.mem_map.mp hpart
    cases segment with
    | parameter name =>
      have hname : name ∈ parameterNames c.segments := List.mem_filterMap.mpr ⟨_, hsegment, rfl⟩
      exact (hc.values name hname SLASH hmem).1 rfl
    | literal text => exact ((hc.template.valid _ hsegment).2 SLASH hmem).1 rfl
  have hsplit : (split isSlash c.path).tail = c.segments.map (Segment.fill c.value) :=
    split_pathText hfree
  obtain ⟨hmatches, hpassed⟩ := passed_fill hc.template.valid hps hc.values
  constructor
  · rw [Route.matches, show c.routedBy.path = c.path from rfl, hsplit]
    dsimp only
    rw [if_neg (by rw [List.length_map, hps.length_eq]; exact not_not.mpr rfl),
      if_neg (not_not.mpr (List.all_eq_true.mpr hmatches))]
    exact if_neg (not_not.mpr rfl)
  · intro name
    rw [param, getPathParameters_eq, hsplit]
    dsimp only
    rw [hpassed]
    have hnames : (parameterNames c.segments).map (Prod.fst ∘ fun name => (name, c.value name)) =
        parameterNames c.segments := List.map_id _
    split_ifs with hname
    · have hmem : (name, c.value name) ∈
          (parameterNames c.segments).map fun name => (name, c.value name) :=
        List.mem_map_of_mem hname
      refine Library.lookup_insertAll_of_mem ?_ hmem
      rw [List.map_map, hnames]
      exact hc.template.distinct
    · refine (lookup_insertAll_of_not_mem ?_).trans (AList.lookup_empty _)
      rw [List.map_map, hnames]
      exact hname

end ClientRequest

/-! ### The handler -/

/-- A `GET` of `/a/1?k=v`, with a cookie and a field. -/
def exampleRequest : ClientRequest where
  method := bytes "GET"
  segments := exampleTemplate
  value := fun _ => bytes "1"
  query := [(bytes "k", bytes "v")]
  cookies := [(bytes "sid", bytes "x")]
  fields := [(bytes "Host", bytes "x")]

/-- It is written with escapes. -/
def exampleSection : HeaderSection where
  method := bytes "GET"
  url := bytes "/a/%31?%6b=%76"
  protocol := bytes "HTTP"
  version := bytes "1.1"
  lines := [bytes "cookie:sid=x", bytes "Host: x"]

theorem valid_exampleRequest : exampleRequest.Valid where
  template := validTemplate_example
  values := by
    intro name _
    exact List.forall_mem_singleton.mpr (by decide)
  query := List.forall_mem_singleton.mpr ⟨List.forall_mem_singleton.mpr (by decide),
    List.forall_mem_singleton.mpr (by decide)⟩
  cookies := List.forall_mem_singleton.mpr
    ⟨by decide, by decide, by decide, by rintro _ ⟨⟩; decide, by decide, by decide⟩
  cookieNames := List.nodup_singleton _
  fields := List.forall_mem_singleton.mpr
    ⟨⟨_, _, rfl, by decide⟩, by decide, by decide, by decide, by decide, by decide, by decide⟩

theorem written_exampleSection : exampleRequest.Written {} exampleSection where
  method := rfl
  target := by
    have hone : FullyEncoded (bytes "1") (bytes "%31") :=
      .escaped (x := 3) (y := 1) (by decide) (by decide) (by decide) .nil
    have hk : FullyEncoded (bytes "k") (bytes "%6b") :=
      .escaped (x := 6) (y := 11) (by decide) (by decide) (by decide) .nil
    have hv : FullyEncoded (bytes "v") (bytes "%76") :=
      .escaped (x := 7) (y := 6) (by decide) (by decide) (by decide) .nil
    exact ⟨[bytes "a", bytes "%31"], [(bytes "%6b", bytes "%76")], .cons rfl (.cons hone .nil),
      .cons ⟨hk, hv⟩ .nil, by decide⟩
  lines := by
    have hcookie : CookieLine [(bytes "sid", bytes "x")] (bytes "cookie:sid=x") :=
      ⟨bytes "cookie", [], bytes "sid=x", by decide, ⟨List.forall_mem_nil _, by decide⟩, .single _,
        by decide⟩
    have hfield : IsField (bytes "Host", bytes "x") :=
      valid_exampleRequest.fields _ List.mem_cons_self
    exact .cookies hcookie
      (.field (isFieldLine_fieldLine hfield) (not_isCookieLine_fieldLine hfield) .nil)
  start := ⟨by decide, by decide, by decide, by decide, by decide, by decide, by simp⟩
  count := by decide

/-- The router of a mount of all paths and the route `/a/:x`. -/
def exampleCalls : List (RouterCall (CallbackRoute .least Nat) Nat) :=
  [.mount (bytes "/") (fun _ => 1) [.GET] (-100),
    .addMethod (bytes "GET") (pathText (exampleTemplate.map Segment.text)) 2 0]

/-- A server without session control. -/
def exampleServer : HttpBasicServer (Nat × StringMap) Unit where
  storage := { generateId := fun _ => [], session := fun _ => () }
  findRoute := (exampleCalls.foldl (RequestRouter.apply (libraryRouting .least Nat)) {}).routed

/-- User code that answers every request. -/
def exampleCode : UserCode (Nat × StringMap) Unit where
  tryPerformAuthorization := fun _ => { result := .ok .denied }
  negotiateAuthorizationMethod := fun _ => { result := .ok () }
  callback := fun _ _ => { ops := [.response (.sendStatus 200)], result := .ok () }

end Attender.Http
