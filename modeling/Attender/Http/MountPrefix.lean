import Attender.Http.RequestRouter

/-!
# What lies under a mount

A mount route compares the path with its template byte by byte, and it matches
whatever starts with the template. So it takes paths of which its template is no
part, and which lie under another mount, unless a slash follows the template.
-/

namespace Attender.Http

open Attender.Library

variable {κ : Type*} {pathTemplate path t₁ t₂ : Bytes}

/-- The path is that of the template, or goes on behind it with a slash. -/
def LiesUnder (pathTemplate path : Bytes) : Prop :=
  path = pathTemplate ∨ pathTemplate ++ [SLASH] <+: path

instance (pathTemplate path : Bytes) : Decidable (LiesUnder pathTemplate path) :=
  inferInstanceAs (Decidable (_ ∨ _))

/-- A path that starts with the template has nothing but a slash behind it. -/
def EndsSegment (pathTemplate path : Bytes) : Prop :=
  ∀ b rest, path = pathTemplate ++ b :: rest → b = SLASH

/-- The mount routes of a template match a path, but for the method, exactly if it lies under the
template. -/
def MatchesBelow (pathTemplate path : Bytes) : Prop :=
  ∀ route : MountRoute, route.pathTemplate = pathTemplate →
    ∀ method, route.matches method path ≠ .noMatch ↔ LiesUnder pathTemplate path

/-- A path under the one template is never served by a mount of the other, whatever routes are
mounted in whatever order. -/
def NeverServedBy (κ : Type*) (t₁ t₂ path : Bytes) : Prop :=
  LiesUnder t₁ path → ∀ (engine : RegexEngine)
    (calls : List (RouterCall (CallbackRoute engine κ) κ)) (header : RequestHeader)
    (route : MountRoute) (callback : κ), header.path = path → route.pathTemplate = t₂ →
      ((calls.foldl (RequestRouter.apply (libraryRouting engine κ)) {}).findRoute
        (libraryRouting engine κ) header).1 ≠ some (.mount route callback)

/-- Two mounts respect the segments of a path: each takes what lies under it, and neither takes what
lies under the other if that is no part of it. -/
structure RespectSegments (κ : Type*) (t₁ t₂ path : Bytes) : Prop where
  left : MatchesBelow t₁ path
  right : MatchesBelow t₂ path
  apart : ¬ LiesUnder t₁ t₂ → ¬ LiesUnder t₂ t₁ →
    NeverServedBy κ t₁ t₂ path ∧ NeverServedBy κ t₂ t₁ path

/-! ### One mount -/

/-- A mount route matches what starts with its template. -/
theorem mount_matches_iff (route : MountRoute) (method path : Bytes) :
    route.matches method path ≠ .noMatch ↔ route.pathTemplate <+: path := by
  rw [List.prefix_iff_eq_take, MountRoute.matches]
  split_ifs with hlength htake hmethod
  · refine iff_of_false (fun h => h rfl) ?_
    intro h
    have := congrArg List.length h
    rw [List.length_take] at this
    omega
  · exact iff_of_false (fun h => h rfl) (Ne.symm htake)
  · refine iff_of_true ?_ (not_not.mp htake).symm
    intro h
    cases h
  · refine iff_of_true ?_ (not_not.mp htake).symm
    intro h
    cases h

theorem liesUnder_append (pathTemplate rest : Bytes) :
    LiesUnder pathTemplate (pathTemplate ++ SLASH :: rest) :=
  Or.inr ((List.prefix_append_right_inj _).mpr (List.cons_prefix_cons.mpr ⟨rfl, by simp⟩))

theorem prefix_of_liesUnder (h : LiesUnder pathTemplate path) : pathTemplate <+: path := by
  rcases h with rfl | h
  · exact List.prefix_refl path
  · exact (List.prefix_append _ _).trans h

/-- What starts with the template lies under it exactly if the template ends one of its
segments. -/
theorem prefix_iff_liesUnder_iff :
    (pathTemplate <+: path ↔ LiesUnder pathTemplate path) ↔ EndsSegment pathTemplate path := by
  constructor
  · rintro h b rest rfl
    rcases h.mp (List.prefix_append _ _) with h | h
    · exact absurd (congrArg List.length h) (by simp)
    · rw [List.prefix_append_right_inj, List.cons_prefix_cons] at h
      exact h.1.symm
  · intro h
    refine ⟨?_, prefix_of_liesUnder⟩
    rintro ⟨rest, rfl⟩
    cases rest with
    | nil => exact Or.inl (List.append_nil _)
    | cons b rest =>
      obtain rfl := h b rest rfl
      exact liesUnder_append pathTemplate rest

/-- **One mount**. -/
theorem matchesBelow_iff : MatchesBelow pathTemplate path ↔ EndsSegment pathTemplate path := by
  rw [← prefix_iff_liesUnder_iff]
  constructor
  · intro h
    rw [← h ⟨[], pathTemplate⟩ rfl [], mount_matches_iff]
  · rintro h route rfl method
    rw [mount_matches_iff, h]

/-! ### Two mounts -/

/-- Of two templates that a path lies under, one lies under the other. -/
theorem liesUnder_or_of_shorter (h : t₁ <+: t₂) (h₁ : LiesUnder t₁ path) (h₂ : t₂ <+: path) :
    LiesUnder t₁ t₂ := by
  obtain ⟨rest, rfl⟩ := h
  cases rest with
  | nil => exact Or.inl (List.append_nil _)
  | cons b rest =>
    obtain ⟨more, rfl⟩ := h₂
    rcases h₁ with h₁ | h₁
    · exact absurd (congrArg List.length h₁) (by simp)
    · rw [List.append_assoc, List.prefix_append_right_inj, List.cons_append,
        List.cons_prefix_cons] at h₁
      obtain ⟨rfl, -⟩ := h₁
      exact liesUnder_append t₁ rest

theorem liesUnder_or (h₁ : LiesUnder t₁ path) (h₂ : LiesUnder t₂ path) :
    LiesUnder t₁ t₂ ∨ LiesUnder t₂ t₁ := by
  have hp₁ := prefix_of_liesUnder h₁
  have hp₂ := prefix_of_liesUnder h₂
  rcases List.prefix_or_prefix_of_prefix hp₁ hp₂ with h | h
  · exact Or.inl (liesUnder_or_of_shorter h h₁ hp₂)
  · exact Or.inr (liesUnder_or_of_shorter h h₂ hp₁)

/-- A route that is found matches fully. -/
theorem fullMatch_of_findRoute {ρ η κ : Type*} {routing : Routing ρ η κ} {r : RequestRouter ρ}
    {header : η} {route : ρ} (h : (r.findRoute routing header).1 = some route) :
    routing.matches_ route header = .fullMatch := by
  rw [RequestRouter.findRoute, RequestRouter.fst_findRouteFrom, Option.map_eq_some_iff] at h
  obtain ⟨i, hi, rfl⟩ := h
  have hfull := List.find?_some hi
  exact of_decide_eq_true hfull

/-- A mount whose template ends a segment of the path takes it from no other. -/
theorem neverServedBy_of_endsSegment (hend : EndsSegment t₂ path) (h₁₂ : ¬ LiesUnder t₁ t₂)
    (h₂₁ : ¬ LiesUnder t₂ t₁) : NeverServedBy κ t₁ t₂ path := by
  rintro hunder engine calls header route callback rfl rfl hfound
  have hfull : route.matches header.method header.path = .fullMatch :=
    fullMatch_of_findRoute hfound
  have hprefix : route.pathTemplate <+: header.path :=
    (mount_matches_iff route header.method header.path).mp (by rw [hfull]; nofun)
  rcases liesUnder_or hunder ((prefix_iff_liesUnder_iff.mpr hend).mp hprefix) with h | h
  · exact h₁₂ h
  · exact h₂₁ h

/-- **Mounts and segments**: two mounts respect the segments of a path exactly if neither template
is followed in it by a byte other than a slash. -/
theorem respectSegments_iff (κ : Type*) (t₁ t₂ path : Bytes) :
    RespectSegments κ t₁ t₂ path ↔ EndsSegment t₁ path ∧ EndsSegment t₂ path := by
  constructor
  · rintro ⟨hleft, hright, -⟩
    exact ⟨matchesBelow_iff.mp hleft, matchesBelow_iff.mp hright⟩
  · rintro ⟨h₁, h₂⟩
    refine ⟨matchesBelow_iff.mpr h₁, matchesBelow_iff.mpr h₂, ?_⟩
    intro h₁₂ h₂₁
    exact ⟨neverServedBy_of_endsSegment h₂ h₁₂ h₂₁, neverServedBy_of_endsSegment h₁ h₂₁ h₁₂⟩

/-- The path `/files2/a` lies under the mount at `/files2`, and a mount of the same priority at
`/files` that has been added first serves it. -/
theorem not_respectSegments_files :
    ¬ ∀ (t₁ t₂ path : Bytes), t₁.getLast? ≠ some SLASH → t₂.getLast? ≠ some SLASH →
      ¬ LiesUnder t₁ t₂ → ¬ LiesUnder t₂ t₁ → LiesUnder t₂ path →
      ∀ (method : MountOption) (priority : Int),
        (([.mount t₁ (fun _ => 1) [method] priority, .mount t₂ (fun _ => 2) [method] priority] :
          List (RouterCall (CallbackRoute .least Nat) Nat)).foldl
            (RequestRouter.apply (libraryRouting .least Nat)) {}).findRoute
              (libraryRouting .least Nat)
                { method := mountOptionToString method, path := path } |>.1.map
                  CallbackRoute.getCallback ≠ some 1 := by
  intro hall
  exact hall (bytes "/files") (bytes "/files2") (bytes "/files2/a") (by decide) (by decide)
    (by decide) (by decide) (by decide) .GET (-100) (by decide)

end Attender.Http
