import Attender.Http.Mounting
import Attender.Http.Routes
import Attender.Library.Multimap

/-!
# The request router

`request_router`: the routes are in a multimap of their priorities, and
`find_route` takes the first that matches a request fully. What a route matches
is not looked into here, so the router is over any kind of routes.
-/

namespace Attender.Http

open Attender.Library

/-- What the router uses of a class of routes: `route::route`, which may throw, and
`route::matches`. -/
structure Routing (ρ η κ : Type*) where
  make : (method pathTemplate : Bytes) → (callback : κ) → (mountRoute : Bool) → Option ρ
  matches_ : ρ → η → MatchResult

/-- `request_router`. -/
structure RequestRouter (ρ : Type*) where
  routes : Multimap Int ρ := .empty

variable {ρ η κ : Type*} (routing : Routing ρ η κ)

/-- The calls that add routes. The priority of `add_route` is 0 and that of `mount` is -100 if none
is given. -/
inductive RouterCall (ρ κ : Type*) where
  /-- `add_route` of a route. -/
  | addRoute (route : ρ) (priority : Int)
  /-- `add_route` of a method and a path. -/
  | addMethod (method pathTemplate : Bytes) (callback : κ) (priority : Int)
  /-- `mount`, of the methods in the order in which their set is iterated. -/
  | mount (pathTemplate : Bytes) (callback : MountOption → κ) (supportedMethods : List MountOption)
      (priority : Int)

namespace RequestRouter

/-- `request_router::add_route`. -/
def addRoute (r : RequestRouter ρ) (route : ρ) (priority : Int) : RequestRouter ρ :=
  { r with routes := r.routes.emplace (priority, route) }

/-- The loop of `request_router::mount`. An exception leaves the routes that have been added. -/
def mountMethods (pathTemplate : Bytes) (callback : MountOption → κ) (priority : Int) :
    List MountOption → RequestRouter ρ → RequestRouter ρ
  | [], r => r
  | method :: methods, r =>
    match routing.make (mountOptionToString method) pathTemplate (callback method) true with
    | none => r
    | some route => mountMethods pathTemplate callback priority methods (r.addRoute route priority)

/-- A router after a call. What throws adds nothing more. -/
def apply (r : RequestRouter ρ) : RouterCall ρ κ → RequestRouter ρ
  | .addRoute route priority => r.addRoute route priority
  | .addMethod method pathTemplate callback priority =>
    match routing.make method pathTemplate callback false with
    | none => r
    | some route => r.addRoute route priority
  | .mount pathTemplate callback supportedMethods priority =>
    -- an `std::invalid_argument` if the set is empty
    if supportedMethods = [] then r
    else mountMethods routing pathTemplate callback priority supportedMethods r

/-- The loop of `request_router::find_route`: the route, and `match_level`. -/
def findRouteFrom (header : η) : MatchResult → List (Int × ρ) → Option ρ × MatchResult
  | bestResult, [] => (none, bestResult)
  | bestResult, (_, i) :: routes =>
    match routing.matches_ i header with
    | .pathMatch => findRouteFrom header .pathMatch routes
    | .fullMatch => (some i, .fullMatch)
    | .noMatch => findRouteFrom header bestResult routes

/-- `request_router::find_route`. -/
def findRoute (r : RequestRouter ρ) (header : η) : Option ρ × MatchResult :=
  findRouteFrom routing header .noMatch r.routes.entries

end RequestRouter

/-! ### The routes that are added -/

/-- The routes that a loop over the methods of a mount adds. -/
def mountedRoutes (pathTemplate : Bytes) (callback : MountOption → κ) (priority : Int) :
    List MountOption → List (Int × ρ)
  | [] => []
  | method :: methods =>
    match routing.make (mountOptionToString method) pathTemplate (callback method) true with
    | none => []
    | some route => (priority, route) :: mountedRoutes pathTemplate callback priority methods

/-- The routes that a call adds, with their priorities. -/
def RouterCall.added : RouterCall ρ κ → List (Int × ρ)
  | .addRoute route priority => [(priority, route)]
  | .addMethod method pathTemplate callback priority =>
    ((routing.make method pathTemplate callback false).map fun route => (priority, route)).toList
  | .mount pathTemplate callback supportedMethods priority =>
    mountedRoutes routing pathTemplate callback priority supportedMethods

namespace RequestRouter

theorem routes_mountMethods (pathTemplate : Bytes) (callback : MountOption → κ) (priority : Int)
    (methods : List MountOption) (r : RequestRouter ρ) :
    (mountMethods routing pathTemplate callback priority methods r).routes =
      (mountedRoutes routing pathTemplate callback priority methods).foldl Multimap.emplace
        r.routes := by
  induction methods generalizing r with
  | nil => rfl
  | cons method methods ih =>
    rw [mountMethods, mountedRoutes]
    cases routing.make (mountOptionToString method) pathTemplate (callback method) true with
    | none => rfl
    | some route => exact ih (r.addRoute route priority)

/-- A call puts its routes into the multimap one after another. -/
theorem routes_apply (r : RequestRouter ρ) (call : RouterCall ρ κ) :
    (r.apply routing call).routes = (call.added routing).foldl Multimap.emplace r.routes := by
  cases call with
  | addRoute route priority => rfl
  | addMethod method pathTemplate callback priority =>
    rw [apply, RouterCall.added]
    cases routing.make method pathTemplate callback false with
    | none => rfl
    | some route => rfl
  | mount pathTemplate callback supportedMethods priority =>
    rw [apply, RouterCall.added]
    split_ifs with hempty
    · rw [hempty]
      rfl
    · exact routes_mountMethods routing pathTemplate callback priority supportedMethods r

theorem routes_foldl (calls : List (RouterCall ρ κ)) (r : RequestRouter ρ) :
    (calls.foldl (apply routing) r).routes =
      (calls.flatMap (RouterCall.added routing)).foldl Multimap.emplace r.routes := by
  induction calls generalizing r with
  | nil => rfl
  | cons call calls ih =>
    rw [List.foldl_cons, ih, routes_apply, List.flatMap_cons, List.foldl_append]

/-! ### The search -/

/-- The route that is found is the first of the multimap that matches fully. -/
theorem fst_findRouteFrom (header : η) (best : MatchResult) (routes : List (Int × ρ)) :
    (findRouteFrom routing header best routes).1 =
      (routes.find? fun i => routing.matches_ i.2 header = .fullMatch).map Prod.snd := by
  induction routes generalizing best with
  | nil => rfl
  | cons i routes ih =>
    rw [findRouteFrom, List.find?_cons]
    cases h : routing.matches_ i.2 header with
    | noMatch => simpa using ih best
    | pathMatch => simpa using ih .pathMatch
    | fullMatch => rfl

/-- The level if no route matches fully. -/
theorem snd_findRouteFrom (header : η) (best : MatchResult) (routes : List (Int × ρ))
    (hnone : ∀ i ∈ routes, routing.matches_ i.2 header ≠ .fullMatch) :
    (findRouteFrom routing header best routes).2 =
      if ∃ i ∈ routes, routing.matches_ i.2 header = .pathMatch then .pathMatch else best := by
  induction routes generalizing best with
  | nil => simp [findRouteFrom]
  | cons i routes ih =>
    obtain ⟨hi, hroutes⟩ := List.forall_mem_cons.mp hnone
    rw [findRouteFrom]
    cases h : routing.matches_ i.2 header with
    | noMatch =>
      refine (ih _ hroutes).trans (if_congr ?_ rfl rfl)
      rw [List.exists_mem_cons_iff, h]
      simp
    | pathMatch =>
      rw [if_pos ⟨i, List.mem_cons_self, h⟩]
      exact (ih _ hroutes).trans (ite_self _)
    | fullMatch => exact absurd h hi

/-- The route that is to be found among those added: at `i`, it matches fully, and each other that
does is of a lower priority, or of the same and was added later. -/
structure Selected (added : List (Int × ρ)) (header : η) (i : Nat) (priority : Int) (route : ρ) :
    Prop where
  mem : added[i]? = some (priority, route)
  full : routing.matches_ route header = .fullMatch
  best : ∀ (j : Nat) (priority' : Int) (route' : ρ), added[j]? = some (priority', route') →
    routing.matches_ route' header = .fullMatch →
      priority' < priority ∨ priority' = priority ∧ i ≤ j

/-- **The selection of a route**: whatever calls have added the routes, the one found matches fully,
with the greatest priority, and was added first of these; there is none exactly if no route matches
fully, and then the level tells whether one matches the path. -/
theorem findRoute_selects (calls : List (RouterCall ρ κ)) (header : η) :
    let added := calls.flatMap (RouterCall.added routing)
    let found := (calls.foldl (apply routing) {}).findRoute routing header
    (∀ route, found.1 = some route ↔ ∃ i priority, Selected routing added header i priority route) ∧
      (found.1 = none ↔ ∀ i ∈ added, routing.matches_ i.2 header ≠ .fullMatch) ∧
      (found.1 = none → found.2 =
        if ∃ i ∈ added, routing.matches_ i.2 header = .pathMatch then .pathMatch
        else .noMatch) := by
  intro added found
  have hroutes : (calls.foldl (apply routing) {}).routes = Multimap.ofList added :=
    routes_foldl routing calls {}
  have hfound : found.1 = ((Multimap.ofList added).entries.find? fun i =>
      routing.matches_ i.2 header = .fullMatch).map Prod.snd := by
    rw [← hroutes]
    exact fst_findRouteFrom routing header .noMatch _
  have hnone : found.1 = none ↔ ∀ i ∈ added, routing.matches_ i.2 header ≠ .fullMatch := by
    rw [hfound, Option.map_eq_none_iff, Multimap.find?_ofList_eq_none_iff]
    simp only [decide_eq_true_eq, ne_eq]
  refine ⟨?_, hnone, ?_⟩
  · intro route
    rw [hfound, Option.map_eq_some_iff]
    constructor
    · rintro ⟨⟨priority, route⟩, h, rfl⟩
      obtain ⟨i, hi, hfull, hbest⟩ := Multimap.find?_ofList_eq_some_iff.mp h
      refine ⟨i, priority, hi, by simpa using hfull, ?_⟩
      intro j priority' route' hj hfull'
      exact hbest j (priority', route') hj (by simpa using hfull')
    · rintro ⟨i, priority, hi, hfull, hbest⟩
      refine ⟨(priority, route), Multimap.find?_ofList_eq_some_iff.mpr ⟨i, hi, ?_, ?_⟩, rfl⟩
      · simpa using hfull
      · rintro j ⟨priority', route'⟩ hj hfull'
        exact hbest j priority' route' hj (by simpa using hfull')
  · intro h
    have hmem : ∀ i, i ∈ (Multimap.ofList added).entries ↔ i ∈ added :=
      fun i => Multimap.mem_entries_ofList
    have hsnd := snd_findRouteFrom routing header .noMatch (Multimap.ofList added).entries
      (fun i hi => hnone.mp h i ((hmem i).mp hi))
    simp only [hmem] at hsnd
    rw [← hsnd, ← hroutes]
    rfl

end RequestRouter

/-! ### The routes of the library -/

section Library

variable (engine : RegexEngine)

/-- `route`, with its callback. -/
inductive CallbackRoute (κ : Type*) where
  | parts (route : Route engine) (callback : κ)
  | mount (route : MountRoute) (callback : κ)

/-- `route::get_callback`. -/
def CallbackRoute.getCallback {engine : RegexEngine} : CallbackRoute engine κ → κ
  | .parts _ callback => callback
  | .mount _ callback => callback

/-- The routes of the library. -/
def libraryRouting (κ : Type*) : Routing (CallbackRoute engine κ) RequestHeader κ where
  make method pathTemplate callback mountRoute :=
    if mountRoute = false then
      (Route.make engine method pathTemplate).map fun route => .parts route callback
    else (PathPart.make engine pathTemplate).map fun _ => .mount ⟨method, pathTemplate⟩ callback
  matches_
    | .parts route _, header => route.matches header
    | .mount route _, header => route.matches header.method header.path

end Library

/-- A route for `/a` goes before a mount at `/` that has been added before. -/
example : ((([.mount (bytes "/") (fun _ => 1) [.GET] (-100),
      .addMethod (bytes "GET") (bytes "/a") 2 0] :
        List (RouterCall (CallbackRoute .least Nat) Nat)).foldl
    (RequestRouter.apply (libraryRouting .least Nat)) {}).findRoute (libraryRouting .least Nat)
      { method := bytes "GET", path := bytes "/a" }).1.map CallbackRoute.getCallback = some 2 := by
  decide

end Attender.Http
