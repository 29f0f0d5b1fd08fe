import Attender.Http.ReadSteps
import Attender.Http.TargetDecoding

/-!
# Malformed escapes

What becomes of a target in which a `%` is not followed by two hexadecimal
digits. `decode_url` leaves the two bytes to `std::stoi`, which reads a number
from the front of them: a blank or a sign before a digit passes, and so does
anything behind a digit. Where it throws, the request is answered with 400.
-/

namespace Attender.Http

open Attender.Library

/-- An escape is malformed: of the escapes from left to right, a `%` with two bytes behind it that
are not both digits. -/
inductive Malformed : Bytes → Prop where
  /-- This one. -/
  | here {h l : Byte} {e : Bytes} : ¬ (isHexDigit h ∧ isHexDigit l) → Malformed (37 :: h :: l :: e)
  /-- One behind a byte that starts no escape. -/
  | literal {b : Byte} {e : Bytes} : b ≠ 37 → Malformed e → Malformed (b :: e)
  /-- One behind an escape. -/
  | escape {h l : Byte} {e : Bytes} : isHexDigit h → isHexDigit l → Malformed e →
      Malformed (37 :: h :: l :: e)

/-- An escape is refused: the two bytes behind a `%` that `decode_url` comes to are no number. -/
inductive Refused : Bytes → Prop where
  /-- This one. -/
  | here {h l : Byte} {e : Bytes} : ¬ IsNumberPair h l → Refused (37 :: h :: l :: e)
  /-- One behind a byte that starts no escape. -/
  | literal {b : Byte} {e : Bytes} : b ≠ 37 → Refused e → Refused (b :: e)
  /-- One behind an escape, whatever its bytes are. -/
  | escape {h l : Byte} {e : Bytes} : Refused e → Refused (37 :: h :: l :: e)

/-- An escape is refused before or behind the last `?`. -/
def RefusedTarget (url : Bytes) : Prop :=
  match cutLast QUESTION url with
  | some (front, back) => Refused front ∨ Refused back
  | none => Refused url

/-- The status that an effect answers the request with. -/
def ReadEffect.status? : ReadEffect → Option Int
  | .badHeader => some 400
  | .sendStatus code => some code
  | .read | .onParse _ | .complete _ | .endResponse => none

/-- The request is answered with 400, and `on_parse_`, which runs the handlers, is not called. -/
def AnsweredWith400 (effects : List ReadEffect) : Prop :=
  effects.filterMap ReadEffect.status? = [400] ∧ ∀ ec, .onParse ec ∉ effects

/-- A header with a malformed escape in its target cannot be constructed, and the request that the
parser has finished with it is answered with 400. -/
def RefusesMalformed (im : RequestHeaderIntermediate) : Prop :=
  Malformed im.url → im.requestHeader = none ∧
    ∀ (cfg : Config) (r : RequestHandler Unit Unit) (c : Completion) (parser : RequestParser),
      c.ec = none → c.outOfMemory = false → feed cfg r.parser c.amount = .done parser →
      parser.header = im → AnsweredWith400 (r.headerReadHandler cfg c).2

/-! ### What is refused -/

/-- Decoding throws exactly at a refused escape. -/
theorem decodeUrl_eq_none_iff (e : Bytes) : RequestHeader.decodeUrl e = none ↔ Refused e := by
  induction e using RequestHeader.decodeUrl.induct with
  | case1 => exact iff_of_false nofun nofun
  | case2 b =>
    refine iff_of_false nofun ?_
    rintro (_ | ⟨_, h⟩)
    cases h
  | case3 b c =>
    refine iff_of_false nofun ?_
    rintro (_ | ⟨_, _ | ⟨_, h⟩⟩)
    cases h
  | case4 c d encoded ih =>
    have hpair := stoi16_isSome_iff c d
    rw [RequestHeader.decodeUrl, if_pos rfl]
    cases hn : stoi16 [c, d] with
    | none =>
      rw [hn] at hpair
      refine iff_of_true rfl (.here fun h => ?_)
      cases hpair.mpr h
    | some n =>
      rw [hn, Option.isSome_some] at hpair
      rw [Option.bind_some, Option.map_eq_none_iff, ih]
      constructor
      · exact .escape
      · rintro (h | ⟨h, -⟩ | h)
        · exact absurd (hpair.mp rfl) h
        · exact absurd rfl h
        · exact h
  | case5 b c d encoded hb ih =>
    rw [RequestHeader.decodeUrl, if_neg hb, Option.map_eq_none_iff, ih]
    constructor
    · exact .literal hb
    · rintro (_ | ⟨-, h⟩ | _)
      · exact absurd rfl hb
      · exact h
      · exact absurd rfl hb

/-- **The header cannot be constructed** exactly if an escape of its target is refused. -/
theorem requestHeader_eq_none_iff (im : RequestHeaderIntermediate) :
    im.requestHeader = none ↔ RefusedTarget im.url := by
  have hurl : im.toRequestHeader.url = im.url := rfl
  rw [RequestHeaderIntermediate.requestHeader, RequestHeader.parseUrl, RefusedTarget, hurl]
  cases cutLast 63 im.url with
  | none => rw [Option.map_eq_none_iff, decodeUrl_eq_none_iff]
  | some lr =>
    obtain ⟨front, back⟩ := lr
    dsimp only
    rw [← decodeUrl_eq_none_iff, ← decodeUrl_eq_none_iff]
    cases RequestHeader.decodeUrl back <;> simp

/-! ### The answer -/

/-- A finished request whose header cannot be constructed is answered with 400. -/
theorem answeredWith400_of_none {cfg : Config} {r : RequestHandler Unit Unit} {c : Completion}
    {parser : RequestParser} (hec : c.ec = none) (hmemory : c.outOfMemory = false)
    (hfeed : feed cfg r.parser c.amount = .done parser)
    (hnone : parser.header.requestHeader = none) :
    AnsweredWith400 (r.headerReadHandler cfg c).2 := by
  have heffects : (r.headerReadHandler cfg c).2 = [.badHeader] := by
    simp only [RequestHandler.headerReadHandler, hec, hmemory, hfeed, hnone, Bool.false_eq_true,
      if_false]
  rw [heffects]
  refine ⟨rfl, ?_⟩
  intro ec hmem
  cases List.mem_singleton.mp hmem

/-- **Malformed escapes**: they are refused exactly if one of them is no number for `std::stoi`. -/
theorem refusesMalformed_iff (im : RequestHeaderIntermediate) :
    RefusesMalformed im ↔ (Malformed im.url → RefusedTarget im.url) := by
  rw [RefusesMalformed, ← requestHeader_eq_none_iff]
  refine forall_congr' fun _ => ?_
  constructor
  · exact fun h => h.1
  · intro hnone
    refine ⟨hnone, ?_⟩
    rintro cfg r c parser hec hmemory hfeed rfl
    exact answeredWith400_of_none hec hmemory hfeed hnone

/-- The escape `%+1` is read as the number 1. -/
theorem not_refusesMalformed_sign : ¬ ∀ im : RequestHeaderIntermediate, RefusesMalformed im := by
  intro hall
  have hmalformed : Malformed (bytes "/%+1") := .literal (by decide) (.here (by decide))
  have hnone := (hall { url := bytes "/%+1" } hmalformed).1
  have hpath : (RequestHeaderIntermediate.requestHeader { url := bytes "/%+1" }).map
      RequestHeader.path = some [47, 1] := by decide
  rw [hnone] at hpath
  cases hpath

end Attender.Http
