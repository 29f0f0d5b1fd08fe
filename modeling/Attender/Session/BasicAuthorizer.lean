import Attender.Encoding.Base64
import Attender.Http.HttpBasicServer

/-!
# The basic authorizer

`basic_authorizer` takes the name and the password out of the field
`Authorization`. The decoder of base64 counts the equals sign among the digits,
so it also accepts texts in which it stands at another place than the end.
-/

namespace Attender.Session

open Attender.Encoding Attender.Http Attender.Library

variable {σ : Type}

namespace BasicAuthorizer

/-- `basic_authorizer::negotiate_authorization_method`. -/
def negotiateAuthorizationMethod (realm : Bytes) : UserRun σ Unit where
  ops := [.response (.append (bytes "WWW-Authenticate")
      (bytes "Basic realm=\"" ++ realm ++ bytes "\", charset=\"UTF-8\"")),
    .response (.status 401), .response .end_]
  result := .ok ()

/-- `res->status(400).send(text)`, and the result is that the request is malformed. -/
def refuse (text : Bytes) : UserRun σ AuthorizationResult where
  ops := [.response (.status 400), .response (.send (.string text))]
  result := .ok .badRequest

/-- `basic_authorizer::try_perform_authorization`; `accept_authentication` is user code. -/
def tryPerformAuthorization (acceptAuthentication : Bytes → Bytes → Bool) (call : Call σ) :
    UserRun σ AuthorizationResult :=
  match call.request.getField (bytes "Authorization") with
  | none => { result := .ok .negotiate }
  | some auth =>
    match cut SP auth with
    | none => refuse (bytes "Authorization header field is malformed")
    | some (type, value) =>
      if value = [] then refuse (bytes "Authorization header field is malformed")
      else if type ≠ bytes "Basic" then { result := .ok .negotiate }
      else
        match base64Decode value with
        | .error _ => refuse (bytes "Invalid base64 in Authorization")
        | .ok out =>
          match cut 58 out with
          | none =>
            refuse (bytes "Decoded base64 does not contain colon - empty passwords still need it")
          | some (user, pw) =>
            if acceptAuthentication user pw then { result := .ok .allowedContinue }
            else { ops := [.response (.status 401), .response .end_], result := .ok .denied }

/-- The equals signs are the last one or the last two characters. -/
def PaddingAtEnd (input : Bytes) : Prop :=
  ∃ (body : Bytes) (padding : Nat), input = body ++ List.replicate padding EQUALS ∧ padding ≤ 2 ∧
    EQUALS ∉ body

/-- The decoder returns exactly on base64, and for everything else it throws and the authorizer
answers with 400. -/
structure AcceptsExactly (input : Bytes) : Prop where
  returns : (∃ out, base64Decode input = .ok out) ↔ IsBase64 input
  throws : ¬ IsBase64 input →
    base64Decode input = .error .size ∨ base64Decode input = .error .characters
  refuses : ¬ IsBase64 input →
    ∀ {σ : Type} (acceptAuthentication : Bytes → Bytes → Bool) (call : Call σ),
      call.request.getField (bytes "Authorization") = some (bytes "Basic " ++ input) →
        tryPerformAuthorization acceptAuthentication call =
          refuse (bytes "Invalid base64 in Authorization")

/-- Of whole groups of letters and equals signs those are base64 that end with the equals signs. -/
theorem isBase64_iff (input : Bytes) :
    IsBase64 input ↔
      (∃ out, base64Decode input = .ok out) ∧ PaddingAtEnd input := by
  rw [base64Decode_isOk_iff]
  constructor
  · intro h
    refine ⟨⟨h.1, accepted_of_isBase64 h⟩, ?_⟩
    obtain ⟨-, body, padding, rfl, hpadding, hbody⟩ := h
    exact ⟨body, padding, rfl, hpadding, fun hmem => absurd (hbody _ hmem) (by decide)⟩
  · rintro ⟨⟨h4, hall⟩, body, padding, rfl, hpadding, hbody⟩
    refine ⟨h4, body, padding, rfl, hpadding, ?_⟩
    intro c hc
    refine (hall c (List.mem_append_left _ hc)).resolve_right ?_
    rintro rfl
    exact hbody hc

/-- A field that the decoder throws for is answered with 400. -/
theorem tryPerformAuthorization_of_throws {acceptAuthentication : Bytes → Bytes → Bool}
    {call : Call σ} {input : Bytes}
    (hfield : call.request.getField (bytes "Authorization") = some (bytes "Basic " ++ input))
    (hthrows : base64Decode input = .error .size ∨ base64Decode input = .error .characters) :
    tryPerformAuthorization acceptAuthentication call =
      refuse (bytes "Invalid base64 in Authorization") := by
  have hne : input ≠ [] := by
    rintro rfl
    rcases hthrows with h | h
    · cases h
    · cases h
  have hcut : cut SP (bytes "Basic " ++ input) = some (bytes "Basic", input) :=
    cut_eq_some_iff.mpr ⟨rfl, by decide⟩
  simp only [tryPerformAuthorization, hfield, hcut, if_neg hne, ne_eq, not_true_eq_false, if_false]
  rcases hthrows with h | h
  · rw [h]
  · rw [h]

/-- **What the decoder accepts** is exactly base64 unless an equals sign stands elsewhere than at
the end of whole groups of letters and equals signs. -/
theorem acceptsExactly_iff (input : Bytes) :
    AcceptsExactly input ↔
      PaddingAtEnd input ∨ input.length % 4 ≠ 0 ∨
        ∃ c ∈ input, ¬ isBase64Letter c ∧ c ≠ EQUALS := by
  have hrefused : (input.length % 4 ≠ 0 ∨ ∃ c ∈ input, ¬ isBase64Letter c ∧ c ≠ EQUALS) ↔
      ¬ ∃ out, base64Decode input = .ok out := by
    rw [base64Decode_isOk_iff, not_and_or]
    refine or_congr Iff.rfl ?_
    simp only [not_forall, not_or, exists_prop]
  rw [hrefused]
  constructor
  · intro h
    by_cases hok : ∃ out, base64Decode input = .ok out
    · exact Or.inl ((isBase64_iff input).mp (h.returns.mp hok)).2
    · exact Or.inr hok
  · intro h
    have hiff : (∃ out, base64Decode input = .ok out) ↔ IsBase64 input := by
      rw [isBase64_iff]
      tauto
    have hthrows : ¬ IsBase64 input →
        base64Decode input = .error .size ∨ base64Decode input = .error .characters :=
      fun hbad => base64Decode_throws (hiff.not.mpr hbad)
    exact ⟨hiff, hthrows, fun hbad _ _ _ hfield =>
      tryPerformAuthorization_of_throws hfield (hthrows hbad)⟩

/-- The text `A=AA` is accepted. -/
theorem not_acceptsExactly_inside : ¬ ∀ input : Bytes, AcceptsExactly input := by
  intro hall
  have hok : ∃ out, base64Decode (bytes "A=AA") = .ok out := ⟨_, rfl⟩
  obtain ⟨-, body, padding, he, -, hbody⟩ := (hall (bytes "A=AA")).returns.mp hok
  cases padding with
  | zero =>
    rw [List.replicate_zero, List.append_nil] at he
    have hequals : EQUALS ∈ body := by
      rw [← he]
      decide
    exact absurd (hbody EQUALS hequals) (by decide)
  | succ padding =>
    have hlast := congrArg List.getLast? he
    rw [List.replicate_succ', ← List.append_assoc, List.getLast?_concat] at hlast
    exact absurd hlast (by decide)

end BasicAuthorizer

end Attender.Session
