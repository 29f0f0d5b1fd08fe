import Attender.Http.RequestHandler

/-!
# The target of a request

The target is cut at its last `?`, and the two parts are decoded on their own.
Decoding undoes any percent encoding, but a second `?`, which belongs to the
query, moves the boundary into the query.
-/

namespace Attender.Http

open Attender.Library

/-- The question mark. -/
abbrev QUESTION : Byte := 63

/-- The entries of a decoded query. -/
def queryEntries (decoded : Bytes) : StringMap :=
  (split RequestHeader.isQuerySeparator decoded).foldl RequestHeader.addQuery ∅

/-- The path is what stands before the first `?` and the query what stands behind it; without a `?`
all is path. -/
def SplitsAtQuery (im : RequestHeaderIntermediate) : Prop :=
  ∃ h, im.requestHeader = some h ∧
    (∀ a b sa sb, im.url = a ++ QUESTION :: b → QUESTION ∉ a → WellEscaped sa a →
      WellEscaped sb b → h.path = sa ∧ h.query = queryEntries sb) ∧
    (QUESTION ∉ im.url → ∀ s, WellEscaped s im.url → h.path = s ∧ h.query = ∅)

namespace RequestHeader

/-! ### Percent decoding -/

/-- **Percent decoding undoes percent encoding**, whichever bytes are encoded, if every `%` is. -/
theorem decodeUrl_percentEncoded {keep : Byte → Prop} (hkeep : ∀ b, keep b → b ≠ 37) (s e : Bytes)
    (h : PercentEncoded keep s e) : decodeUrl e = some s :=
  decodeUrl_eq_some hkeep h

/-- Escapes at the start and at the end, with digits in either case. -/
theorem decodeUrl_percentEncoded_ends : decodeUrl (bytes "%2Fa%ff") = some [47, 97, 255] := by
  have hkeep : ∀ b : Byte, b ≠ 37 → b ≠ 37 := fun _ hb => hb
  refine decodeUrl_percentEncoded hkeep _ _ ?_
  exact .escaped (x := 2) (y := 15) (by decide) (by decide) (by decide)
    (.kept (by decide) (.escaped (x := 15) (y := 15) (by decide) (by decide) (by decide) .nil))

end RequestHeader

/-! ### The boundary -/

section Boundary

variable {im : RequestHeaderIntermediate} {s a b sa sb : Bytes}

theorem decodeUrl_of_wellEscaped (h : WellEscaped sa a) : RequestHeader.decodeUrl a = some sa :=
  RequestHeader.decodeUrl_eq_some (fun _ hb => hb) h

theorem wellEscaped_unique (h : WellEscaped sa a) (h' : WellEscaped sb a) : sa = sb := by
  have hdecoded := decodeUrl_of_wellEscaped h
  rw [decodeUrl_of_wellEscaped h', Option.some.injEq] at hdecoded
  exact hdecoded.symm

/-- The target is cut at its last `?`. -/
theorem requestHeader_of_last (hurl : im.url = a ++ QUESTION :: b) (hb : QUESTION ∉ b)
    (ha : WellEscaped sa a) (hsb : WellEscaped sb b) :
    ∃ h, im.requestHeader = some h ∧ h.path = sa ∧ h.query = queryEntries sb := by
  have hcut : cutLast QUESTION im.toRequestHeader.url = some (a, b) :=
    cutLast_eq_some_iff.mpr ⟨hurl, hb⟩
  have hheader : im.requestHeader =
      some { im.toRequestHeader.parseQuery sb with path := sa } := by
    rw [RequestHeaderIntermediate.requestHeader, RequestHeader.parseUrl, hcut]
    dsimp only
    rw [decodeUrl_of_wellEscaped hsb, decodeUrl_of_wellEscaped ha, Option.bind_some,
      Option.map_some]
  exact ⟨_, hheader, rfl, rfl⟩

theorem requestHeader_of_none (hnone : QUESTION ∉ im.url) (hs : WellEscaped s im.url) :
    ∃ h, im.requestHeader = some h ∧ h.path = s ∧ h.query = ∅ := by
  have hcut : cutLast QUESTION im.toRequestHeader.url = none := cutLast_eq_none_iff.mpr hnone
  have hheader : im.requestHeader = some { im.toRequestHeader with path := s } := by
    rw [RequestHeaderIntermediate.requestHeader, RequestHeader.parseUrl, hcut]
    dsimp only
    rw [show im.toRequestHeader.url = im.url from rfl, decodeUrl_of_wellEscaped hs,
      Option.map_some]
  exact ⟨_, hheader, rfl, rfl⟩

theorem eq_of_first {a' b' : Bytes} (h : a ++ QUESTION :: b = a' ++ QUESTION :: b')
    (ha : QUESTION ∉ a) (ha' : QUESTION ∉ a') : a = a' ∧ b = b' := by
  have hcut := cut_eq_some_iff.mpr ⟨h, ha'⟩
  rw [cut_eq_some_iff.mpr ⟨rfl, ha⟩, Option.some.injEq, Prod.mk.injEq] at hcut
  exact hcut

/-- **The boundary of path and query**: it is the first `?` of the target exactly if there is at
most one. -/
theorem splitsAtQuery_iff (im : RequestHeaderIntermediate) (s : Bytes)
    (hescaped : WellEscaped s im.url) :
    SplitsAtQuery im ↔ im.url.count QUESTION ≤ 1 := by
  cases hcut : cutLast QUESTION im.url with
  | none =>
    have hnone := cutLast_eq_none_iff.mp hcut
    have hcount : im.url.count QUESTION = 0 := List.count_eq_zero.mpr hnone
    obtain ⟨h, hh, hpath, hquery⟩ := requestHeader_of_none hnone hescaped
    refine iff_of_true ⟨h, hh, ?_, ?_⟩ (by omega)
    · intro a b sa sb hurl
      exact absurd (by rw [hurl]; simp) hnone
    · intro _ s' hs'
      exact ⟨hpath.trans (wellEscaped_unique hescaped hs'), hquery⟩
  | some lr =>
    obtain ⟨a, b⟩ := lr
    obtain ⟨hurl, hb⟩ := cutLast_eq_some_iff.mp hcut
    rw [hurl] at hescaped
    obtain ⟨sa, sb, rfl, ha, hsb⟩ := hescaped.of_append (by decide) (by decide)
    obtain ⟨h, hh, hpath, hquery⟩ := requestHeader_of_last hurl hb ha hsb
    have hcount : im.url.count QUESTION = a.count QUESTION + 1 := by
      rw [hurl, List.count_append, List.count_cons_self, List.count_eq_zero.mpr hb]
    constructor
    · -- another `?` before the last one is part of the path
      rintro ⟨h', hh', hfirst, -⟩
      by_contra hmany
      have hmem : QUESTION ∈ a := List.count_pos_iff.mp (by omega)
      obtain ⟨a₁, a₂, rfl, ha₁⟩ := List.eq_append_cons_of_mem hmem
      obtain ⟨s₁, s₂, rfl, hs₁, hs₂⟩ := ha.of_append (by decide) (by decide)
      have hurl' : im.url = a₁ ++ QUESTION :: (a₂ ++ QUESTION :: b) := by
        rw [hurl, List.append_assoc, List.cons_append]
      have hrest : WellEscaped (s₂ ++ QUESTION :: sb) (a₂ ++ QUESTION :: b) :=
        hs₂.append (.kept (by decide) hsb)
      have hpath' := (hfirst a₁ _ s₁ _ hurl' ha₁ hs₁ hrest).1
      rw [hh, Option.some.injEq] at hh'
      rw [← hh', hpath] at hpath'
      exact absurd (congrArg List.length hpath') (by simp)
    · intro hone
      have ha' : QUESTION ∉ a := List.count_eq_zero.mp (by omega)
      refine ⟨h, hh, ?_, ?_⟩
      · intro a' b' sa' sb' hurl' ha'' hsa' hsb'
        obtain ⟨rfl, rfl⟩ := eq_of_first (hurl.symm.trans hurl') ha' ha''
        rw [hpath, hquery, wellEscaped_unique ha hsa', wellEscaped_unique hsb hsb']
        exact ⟨rfl, rfl⟩
      · intro hnone
        exact absurd (by rw [hurl]; simp) hnone

end Boundary

/-- The target `/a?b=%31`. -/
theorem splitsAtQuery_iff_one :
    SplitsAtQuery { url := bytes "/a?b=%31" } ↔ (bytes "/a?b=%31").count QUESTION ≤ 1 := by
  refine splitsAtQuery_iff { url := bytes "/a?b=%31" } (bytes "/a?b=1") ?_
  have hplain : ∀ b ∈ bytes "/a?b=", b ≠ 37 := by
    rintro b hb rfl
    exact absurd hb (by decide)
  exact (PercentEncoded.refl hplain).append
    (.escaped (x := 3) (y := 1) (by decide) (by decide) (by decide) .nil)

/-- Of the target `/a?b?c` the path is `/a?b`. -/
theorem not_splitsAtQuery_two :
    ¬ ∀ (im : RequestHeaderIntermediate) (s : Bytes), WellEscaped s im.url → SplitsAtQuery im := by
  intro hall
  have hescaped : ∀ {s : Bytes}, 37 ∉ s → WellEscaped s s :=
    fun hs => PercentEncoded.refl fun b hb he => hs (he ▸ hb)
  obtain ⟨h, hh, hfirst, -⟩ := hall { url := bytes "/a?b?c" } _ (hescaped (by decide))
  have hpath := (hfirst (bytes "/a") (bytes "b?c") _ _ rfl (by decide) (hescaped (by decide))
    (hescaped (by decide))).1
  have hpath' : (RequestHeaderIntermediate.requestHeader { url := bytes "/a?b?c" }).map
      RequestHeader.path = some (bytes "/a?b") := by decide
  rw [hh, Option.map_some, hpath] at hpath'
  exact absurd hpath' (by decide)

end Attender.Http
