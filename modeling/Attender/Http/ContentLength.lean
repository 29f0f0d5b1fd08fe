import Attender.Http.RequestHandler

/-!
# The length of a body

`get_content_length` reads the field with `atoll`, which makes a number of any
string. So `body_read_start` refuses a request without the field, and no other:
where the field is not the decimal of a length, it goes on with what `atoll`
makes of it.
-/

namespace Attender.Http

open Attender.Library Attender.Utility

/-- An `atoll` of the C standard: a value that a `long long` has no room for may be read as any. -/
structure StandardAtoll (toll : Bytes → Int) : Prop where
  exact : ∀ s, - 2 ^ 63 ≤ writtenValue s → writtenValue s < 2 ^ 63 → toll s = writtenValue s

theorem standardAtoll_atoll : StandardAtoll atoll where
  exact := by
    intro s hlow hhigh
    rw [atoll]
    omega

/-- The decimals of the lengths that an `int64_t` has room for. -/
def IsLength (value : Bytes) : Prop := IsDecimal value ∧ decimalValue value < 2 ^ 63

instance (value : Bytes) : Decidable (IsLength value) := inferInstanceAs (Decidable (_ ∧ _))

namespace RequestHandler

variable {κ φ : Type} (toll : Bytes → Int) (r : RequestHandler κ φ) (max : Nat)

/-- `request_handler::get_content_length`, with this `atoll`. -/
def contentLengthBy : Option Nat :=
  (r.header.getField (bytes "Content-Length")).map fun value => toSize (toll value)

/-- `request_handler::body_read_start`, with this `atoll`. -/
def bodyReadStartBy : Outcome κ φ :=
  match r.contentLengthBy toll with
  | none => ((r.raise .invalidArgument).1, (r.raise .invalidArgument).2 ++ [.sendStatus 411])
  | some contentLength => r.bodyReadOn contentLength max

example : r.bodyReadStartBy atoll max = r.bodyReadStart max := rfl

/-- A read goes on with the length `n`. -/
structure ProceedsWith (n : Nat) : Prop where
  length : r.contentLengthBy toll = some n
  start : r.bodyReadStartBy toll max = r.bodyReadOn n max
  answer : .sendStatus 411 ∉ (r.bodyReadStartBy toll max).2

/-- A read is refused: the callback is completed with an error, 411 is sent and nothing is read. -/
structure Refuses : Prop where
  callback : (r.bodyReadStartBy toll max).1.onFinishedRead =
    (r.onFinishedRead.raise .invalidArgument).1
  answer : .sendStatus 411 ∈ (r.bodyReadStartBy toll max).2
  read : .read ∉ (r.bodyReadStartBy toll max).2

/-- **The length is a strict decimal**: a read goes on with `n` exactly if the field is the decimal
of `n`, and is refused if it is the decimal of no length. -/
structure StrictLength : Prop where
  proceeds : ∀ n, r.ProceedsWith toll max n ↔
    ∃ value, r.header.getField (bytes "Content-Length") = some value ∧ IsLength value ∧
      decimalValue value = n
  refuses : (∀ value, r.header.getField (bytes "Content-Length") = some value → ¬ IsLength value) →
    r.Refuses toll max

variable {toll r}

/-- With the field, whatever it is, the read goes on. -/
theorem proceedsWith_of_field {value : Bytes}
    (hfield : r.header.getField (bytes "Content-Length") = some value) :
    r.ProceedsWith toll max (toSize (toll value)) := by
  have hlength : r.contentLengthBy toll = some (toSize (toll value)) := by
    rw [contentLengthBy, hfield, Option.map_some]
  have hstart : r.bodyReadStartBy toll max = r.bodyReadOn (toSize (toll value)) max := by
    rw [bodyReadStartBy, hlength]
  refine ⟨hlength, hstart, ?_⟩
  rw [hstart]
  intro hmem
  rcases r.readsOn_bodyReadOn (toSize (toll value)) max with h | ⟨cs, h⟩ <;> rw [h] at hmem
  · cases List.mem_singleton.mp hmem
  · obtain ⟨c, -, hc⟩ := List.mem_map.mp hmem
    cases hc

theorem not_refuses_of_field {value : Bytes}
    (hfield : r.header.getField (bytes "Content-Length") = some value) : ¬ r.Refuses toll max :=
  fun hrefuses => (proceedsWith_of_field max hfield).answer hrefuses.answer

/-- Without the field it is refused. -/
theorem refuses_of_none (hfield : r.header.getField (bytes "Content-Length") = none) :
    r.Refuses toll max := by
  have hstart : r.bodyReadStartBy toll max =
      ((r.raise .invalidArgument).1, (r.raise .invalidArgument).2 ++ [.sendStatus 411]) := by
    rw [bodyReadStartBy, contentLengthBy, hfield, Option.map_none]
  refine ⟨by rw [hstart]; rfl, by rw [hstart]; simp, ?_⟩
  rw [hstart, raise]
  simp

/-- **When the length is read strictly**: exactly if the field is missing or the decimal of a
length. -/
theorem strictLength_iff (htoll : StandardAtoll toll) :
    r.StrictLength toll max ↔
      ∀ value, r.header.getField (bytes "Content-Length") = some value → IsLength value := by
  constructor
  · intro h value hfield
    by_contra hvalue
    refine not_refuses_of_field max hfield (h.refuses ?_)
    intro value' hfield'
    rw [hfield, Option.some.injEq] at hfield'
    exact hfield' ▸ hvalue
  · intro hlength
    cases hfield : r.header.getField (bytes "Content-Length") with
    | none =>
      refine ⟨?_, fun _ => refuses_of_none max hfield⟩
      intro n
      constructor
      · intro h
        have hn := h.length
        rw [contentLengthBy, hfield] at hn
        cases hn
      · rintro ⟨value, hvalue, -⟩
        rw [hfield] at hvalue
        cases hvalue
    | some value =>
      have hvalue := hlength value hfield
      have hproceeds : r.ProceedsWith toll max (toSize (toll value)) :=
        proceedsWith_of_field max hfield
      have hsize : toSize (toll value) = decimalValue value := by
        have hwritten := writtenValue_of_isDecimal hvalue.1
        have hsmall := hvalue.2
        rw [htoll.exact value (by omega) (by omega), hwritten, toSize_natCast (by omega)]
      rw [hsize] at hproceeds
      refine ⟨?_, fun hnone => absurd hvalue (hnone value hfield)⟩
      intro n
      constructor
      · intro h
        refine ⟨value, hfield, hvalue, ?_⟩
        exact Option.some.inj (hproceeds.length.symm.trans h.length)
      · rintro ⟨value', hfield', -, rfl⟩
        rw [hfield, Option.some.injEq] at hfield'
        exact hfield' ▸ hproceeds

/-- A request with this `Content-Length`. -/
def withContentLength (value : Bytes) : RequestHandler Unit Unit :=
  { header := { fields := AList.insert (bytes "Content-Length") value ∅ } }

/-- A length with a sign. -/
theorem strictLength_iff_signed :
    (withContentLength (bytes "-1")).StrictLength atoll 0 ↔
      ∀ value, (withContentLength (bytes "-1")).header.getField (bytes "Content-Length") =
        some value → IsLength value :=
  strictLength_iff 0 standardAtoll_atoll

/-- Letters are taken for the length 0. -/
theorem not_strictLength_letters :
    ¬ ∀ (toll : Bytes → Int), StandardAtoll toll → ∀ (r : RequestHandler Unit Unit) (max : Nat),
      r.StrictLength toll max := by
  intro h
  have hletters : (withContentLength (bytes "abc")).header.getField (bytes "Content-Length") =
      some (bytes "abc") := AList.lookup_insert _
  have hstrict := h atoll standardAtoll_atoll (withContentLength (bytes "abc")) 0
  refine not_refuses_of_field 0 hletters (hstrict.refuses ?_)
  intro value hfield
  rw [hletters, Option.some.injEq] at hfield
  rw [← hfield]
  decide

end RequestHandler

end Attender.Http
