import Attender.Library.Bytes
import Attender.Library.LexicalPath

/-!
# Mounts

`request_router::mount` adds one route for each supported method. A mount route
is chosen by the start of the path alone, and what stands behind that start is
put behind the root to get the path in the file system.
-/

namespace Attender.Http

open Attender.Library

/-- The slash. -/
abbrev SLASH : Byte := 47

/-- The backslash. -/
abbrev BACKSLASH : Byte := 92

/-- The dot. -/
abbrev DOT : Byte := 46

/-! ### The routes -/

/-- `mount_options`. -/
inductive MountOption where
  | GET
  | PUT
  | POST
  | DELETE
  | HEAD
  | OPTIONS
  deriving DecidableEq

/-- `mount_option_to_string`, which is also the method of the route. -/
def mountOptionToString : MountOption → Bytes
  | .GET => bytes "GET"
  | .PUT => bytes "PUT"
  | .POST => bytes "POST"
  | .DELETE => bytes "DELETE"
  | .HEAD => bytes "HEAD"
  | .OPTIONS => bytes "OPTIONS"

/-- `match_result`. -/
inductive MatchResult where
  | noMatch
  | pathMatch
  | fullMatch
  deriving DecidableEq

/-- A `route` with `mount_route_` set. -/
structure MountRoute where
  method : Bytes
  pathTemplate : Bytes

/-- `route::matches` of a mount route. -/
def MountRoute.matches (route : MountRoute) (method path : Bytes) : MatchResult :=
  if path.length < route.pathTemplate.length then .noMatch
  else if path.take route.pathTemplate.length ≠ route.pathTemplate then .noMatch
  else if method ≠ route.method then .pathMatch
  else .fullMatch

/-- A mount route fully matches its method on the paths that start with its template. -/
theorem matches_eq_fullMatch_iff {route : MountRoute} {method path : Bytes} :
    route.matches method path = .fullMatch ↔
      route.pathTemplate <+: path ∧ method = route.method := by
  rw [MountRoute.matches, List.prefix_iff_eq_take]
  split_ifs with hlength htake hmethod
  · have : route.pathTemplate ≠ path.take route.pathTemplate.length := by
      intro h
      have := congrArg List.length h
      rw [List.length_take] at this
      omega
    simp [this]
  · simp [Ne.symm htake]
  · simp [hmethod]
  · simp_all

/-! ### The handlers -/

/-- `validate_path`. -/
def validatePath (str : Bytes) : Bool := ¬ bytes "../" <:+: str ∧ ¬ bytes "..\\" <:+: str

/-- A path put behind the root. `front` of an empty string is its terminating zero, and so is taken
`back`, which has no value there. -/
def joinRoot (rootPath path : Bytes) : Bytes :=
  if rootPath.getLastD 0 ≠ SLASH ∧ rootPath.getLastD 0 ≠ BACKSLASH ∧ path.headD 0 ≠ SLASH then
    rootPath ++ bytes "/" ++ path
  else rootPath ++ path

/-- The path in the file system: the template is cut off, and the root put in its place. -/
def mountedPath (rootPath pathTemplate reqPath : Bytes) : Bytes :=
  joinRoot rootPath (reqPath.drop pathTemplate.length)

/-- What a handler does in the file system. -/
inductive FileAccess where
  /-- `response_handler::send_file`. -/
  | sendFile (path : Bytes)
  /-- A `std::ofstream` opened for the body. -/
  | write (path : Bytes)
  /-- `boost::filesystem::remove_all`. -/
  | removeAll (path : Bytes)
  /-- A `std::ifstream`. -/
  | read (path : Bytes)
  deriving DecidableEq

/-- The path it is done to. -/
def FileAccess.path : FileAccess → Bytes
  | .sendFile path => path
  | .write path => path
  | .removeAll path => path
  | .read path => path

/-- What the handler of a mount route comes to. -/
inductive MountOutcome where
  /-- The callback returns `false`. -/
  | refused
  /-- The path does not pass `validate_path`: status 403. -/
  | forbidden
  /-- The file system is used. -/
  | access (a : FileAccess)
  /-- The `Allow` field is set to the methods. -/
  | allow (methods : List MountOption)
  deriving DecidableEq

/-- A handler that validates the path of the request before it uses the file system. -/
def validated (reqPath : Bytes) (a : FileAccess) : MountOutcome :=
  if ¬ validatePath reqPath then .forbidden else .access a

/-- The handler that `request_router::mount` adds for a method. -/
def mountHandler (rootPath pathTemplate : Bytes) (supportedMethods : List MountOption)
    (callback : Bytes → Bool) (option : MountOption) (reqPath : Bytes) : MountOutcome :=
  let path := mountedPath rootPath pathTemplate reqPath
  if callback path then
    match option with
    | .GET => validated reqPath (.sendFile path)
    | .PUT => validated reqPath (.write path)
    | .POST => validated reqPath (.write path)
    | .DELETE => validated reqPath (.removeAll path)
    | .HEAD => validated reqPath (.read path)
    | .OPTIONS => .allow supportedMethods
  else .refused

/-- The route that `request_router::mount` adds for a method. -/
def mountRoute (pathTemplate : Bytes) (option : MountOption) : MountRoute where
  method := mountOptionToString option
  pathTemplate := pathTemplate

/-- What a handler uses in the file system is the path behind the root, of a path that is valid. -/
theorem mountHandler_eq_access {rootPath pathTemplate reqPath : Bytes}
    {supportedMethods : List MountOption} {callback : Bytes → Bool} {option : MountOption}
    {a : FileAccess}
    (h : mountHandler rootPath pathTemplate supportedMethods callback option reqPath = .access a) :
    a.path = mountedPath rootPath pathTemplate reqPath ∧ validatePath reqPath := by
  have hvalidated : ∀ b, validated reqPath b = .access a → b = a ∧ validatePath reqPath := by
    intro b hb
    rw [validated] at hb
    split_ifs at hb with hv
    exact ⟨MountOutcome.access.inj hb, hv⟩
  unfold mountHandler at h
  dsimp only at h
  split_ifs at h
  cases option with
  | OPTIONS => cases h
  | GET | PUT | POST | DELETE | HEAD =>
    obtain ⟨rfl, hv⟩ := hvalidated _ h
    exact ⟨rfl, hv⟩

end Attender.Http
