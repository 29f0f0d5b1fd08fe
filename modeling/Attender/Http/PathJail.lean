import Attender.Http.Mounting

/-!
# The jail of a mount

`validate_path` looks for `../` and `..\` in the path of the request. What it
lets pass is a `..` at the very end, so a mount keeps its requests inside the
root but for that last component, and but for a root that ends with a backslash.
-/

namespace Attender.Http

open Attender.Library

/-- Where a path of the file system leads. -/
def location (path : Bytes) : Location Byte := resolve SLASH DOT path

/-! ### The path behind the root -/

section Join

variable {rootPath path : Bytes}

theorem foldl_walk_slash (path : Bytes) (l : Location Byte) :
    ((SLASH :: path).splitOn SLASH).foldl (walk DOT) l =
      (path.splitOn SLASH).foldl (walk DOT) l := by
  rw [← List.nil_append (SLASH :: path), List.splitOn_append_cons_self, List.splitOn_nil,
    List.foldl_append, List.foldl_cons, List.foldl_nil, walk_nil]

theorem location_append_slash (hroot : rootPath ≠ []) (path : Bytes) :
    location (rootPath ++ SLASH :: path) =
      (path.splitOn SLASH).foldl (walk DOT) (location rootPath) := by
  rw [location, resolve_append_sep, resolve_concat_sep hroot]
  rfl

/-- **Where the path behind the root leads**, if the two are not glued together. -/
theorem location_joinRoot (hroot : rootPath ≠ [])
    (hglue : rootPath.getLast? = some BACKSLASH → path = [] ∨ path.head? = some SLASH) :
    location (joinRoot rootPath path) =
      (path.splitOn SLASH).foldl (walk DOT) (location rootPath) := by
  have hslash : path.head? = some SLASH →
      location (rootPath ++ path) = (path.splitOn SLASH).foldl (walk DOT) (location rootPath) := by
    intro h
    obtain ⟨path', rfl⟩ : ∃ path', path = SLASH :: path' := by
      cases path with
      | nil => cases h
      | cons b path => exact ⟨path, by rw [List.head?_cons, Option.some.injEq] at h; rw [h]⟩
    rw [location_append_slash hroot, foldl_walk_slash]
  rcases List.eq_nil_or_concat rootPath with rfl | ⟨a, b, hab⟩
  · exact absurd rfl hroot
  rw [List.concat_eq_append] at hab
  have hlast : rootPath.getLastD 0 = b := by rw [hab, List.getLastD_concat]
  rw [joinRoot, hlast]
  split_ifs with hb
  · rw [List.append_assoc]
    exact location_append_slash hroot path
  · by_cases hbslash : b = SLASH
    · rw [hab, hbslash, ← List.append_cons, location, resolve_append_sep]
      rfl
    · by_cases hpath : path.head? = some SLASH
      · exact hslash hpath
      · have hbback : b = BACKSLASH := by
          by_contra hne
          refine hb ⟨hbslash, hne, fun h => hpath ?_⟩
          cases path with
          | nil => exact absurd h (by decide)
          | cons c path => rw [List.headD_cons] at h; rw [h, List.head?_cons]
        obtain rfl | h := hglue (by rw [hab, List.getLast?_concat, hbback])
        · rw [List.append_nil, List.splitOn_nil, List.foldl_cons, List.foldl_nil, walk_nil]
        · exact hslash h

theorem not_inside_empty (path : Bytes) : ¬ (location []).Inside (location (joinRoot [] path)) := by
  intro h
  have hhead : (joinRoot [] path).head? = some SLASH := by
    rw [joinRoot]
    split_ifs with hpath
    · rfl
    · cases path with
      | nil => exact absurd hpath (by decide)
      | cons c path =>
        have hc : c = SLASH := by
          by_contra hne
          exact hpath ⟨by decide, by decide, hne⟩
        rw [List.nil_append, hc, List.head?_cons]
  have := h.absolute
  rw [location, location, resolve_absolute, resolve_absolute, hhead] at this
  exact absurd this (by decide)

/-- A root that ends with a backslash is glued to the first component, which gets another name. -/
theorem not_inside_backslash (hroot : rootPath.getLast? = some BACKSLASH) (hpath : path ≠ [])
    (hslash : path.head? ≠ some SLASH) (hdots : [DOT, DOT] ∉ (path.splitOn SLASH).dropLast) :
    ¬ (location rootPath).Inside (location (joinRoot rootPath path)) := by
  rcases List.eq_nil_or_concat rootPath with rfl | ⟨a, b, hab⟩
  · cases hroot
  rw [List.concat_eq_append] at hab
  rw [hab, List.getLast?_concat, Option.some.injEq] at hroot
  subst hroot
  have hjoin : joinRoot rootPath path = rootPath ++ path := by
    rw [joinRoot, hab, List.getLastD_concat, if_neg (by simp)]
  -- the last component of the root, and the first of the path
  obtain ⟨as, x, hx⟩ : ∃ as x, a.splitOn SLASH = as ++ [x] := by
    rcases List.eq_nil_or_concat (a.splitOn SLASH) with h | ⟨as, x, h⟩
    · exact absurd h (List.splitOn_ne_nil _ _)
    · exact ⟨as, x, by rw [h, List.concat_eq_append]⟩
  obtain ⟨c, path', rfl⟩ := List.exists_cons_of_ne_nil hpath
  have hc : c ≠ SLASH := by
    intro h
    exact hslash (by rw [h, List.head?_cons])
  obtain ⟨y, ys, hy⟩ := List.exists_cons_of_ne_nil (List.splitOn_ne_nil SLASH path')
  have hpathSplit : (c :: path').splitOn SLASH = (c :: y) :: ys := by
    rw [List.splitOn_cons_eq_if_modifyHead, if_neg (by simpa using hc), hy, List.modifyHead_cons]
  have hrootSplit : rootPath.splitOn SLASH = as ++ [x ++ [BACKSLASH]] := by
    rw [hab]
    exact splitOn_append hx (by decide)
  have hname : ∀ z, IsName DOT (x ++ [BACKSLASH] ++ z) := by
    intro z
    exact isName_of_mem (b := BACKSLASH) (by simp) (by decide)
  rw [hjoin]
  refine not_inside_glued hrootSplit hpathSplit ?_ (by simpa using hname []) (hname _)
    (List.cons_ne_nil _ _) ?_
  · rw [hab]
    cases a <;> rfl
  · intro hmem
    rw [hpathSplit] at hdots
    cases ys with
    | nil => cases hmem
    | cons z ys => exact hdots (List.mem_cons_of_mem _ hmem)

end Join

/-! ### The paths that are let pass -/

theorem dotdot_not_mem {path s : Bytes} (hvalid : validatePath path) (hs : s <:+ path) :
    [DOT, DOT] ∉ (s.splitOn SLASH).dropLast := by
  intro hmem
  simp only [validatePath, decide_eq_true_eq] at hvalid
  exact hvalid.1 ((infix_of_mem_dropLast hmem).trans hs.isInfix)

/-- The paths `s` that stay inside the root: it is not empty, it does not end with a backslash that
`s` is glued to, and if `s` ends with the component `..` a name is before it in `s`, or the root is
the top. -/
def StaysInside (rootPath s : Bytes) : Prop :=
  rootPath ≠ [] ∧ (rootPath.getLast? = some BACKSLASH → s = [] ∨ s.head? = some SLASH) ∧
    ((s.splitOn SLASH).getLast? ≠ some [DOT, DOT] ∨
      (∃ c ∈ (s.splitOn SLASH).dropLast, IsName DOT c) ∨ (location rootPath).IsTop)

/-- Whatever a handler of the mount uses in the file system for the path is inside the root. -/
def Jailed (rootPath pathTemplate reqPath : Bytes) : Prop :=
  ∀ option supportedMethods callback a,
    (mountRoute pathTemplate option).matches (mountOptionToString option) reqPath = .fullMatch →
      mountHandler rootPath pathTemplate supportedMethods callback option reqPath = .access a →
        (location rootPath).Inside (location a.path)

/-- **The jail of a mount**: a path that the route matches and that is valid stays inside the root
exactly when it is one of those that do. -/
theorem mount_jail_iff (rootPath pathTemplate reqPath : Bytes) (hmatch : pathTemplate <+: reqPath)
    (hvalid : validatePath reqPath) :
    Jailed rootPath pathTemplate reqPath ↔
      StaysInside rootPath (reqPath.drop pathTemplate.length) := by
  have hdots := dotdot_not_mem hvalid (List.drop_suffix pathTemplate.length reqPath)
  have hpath : Jailed rootPath pathTemplate reqPath ↔
      (location rootPath).Inside (location (mountedPath rootPath pathTemplate reqPath)) := by
    constructor
    · intro h
      refine h .GET [] (fun _ => true) (.sendFile _) (matches_eq_fullMatch_iff.mpr ⟨hmatch, rfl⟩) ?_
      simp [mountHandler, validated, hvalid, mountedPath]
    · intro h option supportedMethods callback a _ ha
      rw [(mountHandler_eq_access ha).1]
      exact h
  rw [hpath, mountedPath, StaysInside]
  generalize reqPath.drop pathTemplate.length = s at hdots
  by_cases hroot : rootPath = []
  · exact iff_of_false (hroot ▸ not_inside_empty s) fun h => h.1 hroot
  by_cases hglue : rootPath.getLast? = some BACKSLASH → s = [] ∨ s.head? = some SLASH
  · rw [location_joinRoot hroot hglue]
    rcases List.eq_nil_or_concat (s.splitOn SLASH) with h | ⟨cs, c, h⟩
    · exact absurd h (List.splitOn_ne_nil _ _)
    rw [List.concat_eq_append] at h
    rw [h, List.dropLast_concat] at hdots
    rw [h, inside_walk_concat_iff hdots, List.dropLast_concat, List.getLast?_concat]
    simp only [ne_eq, hroot, not_false_eq_true, true_and, Option.some.injEq]
    exact (and_iff_right hglue).symm
  · refine iff_of_false ?_ fun h => hglue h.2.1
    obtain ⟨hback, hs⟩ := Classical.not_imp.mp hglue
    rw [not_or] at hs
    exact not_inside_backslash hback hs.1 hs.2 hdots

/-- Below `/srv/www`, the path of `/files/a/..` is the root again. -/
theorem mount_jail_iff_files :
    Jailed (bytes "/srv/www") (bytes "/files") (bytes "/files/a/..") ↔
      StaysInside (bytes "/srv/www") ((bytes "/files/a/..").drop (bytes "/files").length) :=
  mount_jail_iff _ _ _ (by decide) (by decide)

/-- `DELETE /files/..` removes the directory above the root. -/
theorem mount_leaves_root :
    ¬ ∀ rootPath pathTemplate reqPath, rootPath ≠ [] → pathTemplate <+: reqPath →
      validatePath reqPath →
      Jailed rootPath pathTemplate reqPath := by
  intro hclaim
  have h := hclaim (bytes "/srv/www") (bytes "/files") (bytes "/files/..") (by decide) (by decide)
    (by decide) .DELETE [.DELETE] (fun _ => true) (.removeAll (bytes "/srv/www/..")) (by decide)
    (by decide)
  exact absurd h.names (by decide)

end Attender.Http
