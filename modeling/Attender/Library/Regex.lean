import Attender.Library.Bytes

/-!
# Regular expressions

`std::regex` with the ECMAScript grammar, as far as it goes without groups,
classes, alternatives, escapes, and counted or lazy quantifiers: a pattern is a
sequence of assertions and quantified atoms. Matching tries the longest
repetition first, as the ECMAScript matchers do, and goes on with a continuation.
For the other patterns there is a `RegexEngine`, of which no more is known.
-/

namespace Attender.Library

/-- An atom of a pattern. -/
inductive RegexAtom where
  /-- The dot. -/
  | any
  | byte (b : Byte)
  deriving DecidableEq

/-- How often an atom is repeated. -/
inductive Quantifier where
  | once
  | star
  | plus
  | optional
  deriving DecidableEq

/-- A term of a pattern. -/
inductive RegexTerm where
  /-- The caret. -/
  | inputStart
  /-- The dollar. -/
  | inputEnd
  | atom (a : RegexAtom) (q : Quantifier)
  deriving DecidableEq

/-- `std::regex`. -/
abbrev Regex := List RegexTerm

/-! ### Patterns -/

/-- The characters with a meaning of their own: `^ $ \ . * + ? ( ) [ ] { } |`. -/
def isSyntaxCharacter (b : Byte) : Bool :=
  b ∈ ([94, 36, 92, 46, 42, 43, 63, 40, 41, 91, 93, 123, 125, 124] : Bytes)

/-- The quantifier that a character stands for. -/
def quantifier? : Byte → Option Quantifier
  | 42 => some .star
  | 43 => some .plus
  | 63 => some .optional
  | _ => none

/-- Why a pattern has no terms here. -/
inductive RegexError where
  /-- Nothing stands before a quantifier, or an assertion does: `std::regex` throws. -/
  | malformed
  /-- The pattern goes beyond what is modelled. -/
  | unmodelled
  deriving DecidableEq

/-- The terms of a pattern, in reverse, with another character behind. A quantifier applies to the
atom before it. -/
def addCharacter (ts : Regex) (b : Byte) : Except RegexError Regex :=
  if isSyntaxCharacter b then
    if b = 94 then .ok (.inputStart :: ts)
    else if b = 36 then .ok (.inputEnd :: ts)
    else if b = 46 then .ok (.atom .any .once :: ts)
    else
      match quantifier? b, ts with
      | some q, .atom a .once :: ts => .ok (.atom a q :: ts)
      | some _, .atom _ _ :: _ => .error .unmodelled
      | some _, _ => .error .malformed
      | none, _ => .error .unmodelled
  else .ok (.atom (.byte b) .once :: ts)

/-- `std::regex` of a pattern. -/
def regex (pattern : Bytes) : Except RegexError Regex :=
  (pattern.foldlM addCharacter []).map List.reverse

/-! ### Matching -/

/-- What the dot does not match. -/
def isLineTerminator (b : Byte) : Bool := b == LF || b == CR

def RegexAtom.matches : RegexAtom → Byte → Bool
  | .any, b => !isLineTerminator b
  | .byte c, b => b == c

/-- What goes on with a match: given whether this is the start of the input, and the rest of it. -/
abbrev Continuation := Bool → Bytes → Bool

/-- An atom, and then what goes on. -/
def matchOnce (a : RegexAtom) (k : Continuation) : Continuation
  | _, [] => false
  | _, b :: s => a.matches b && k false s

/-- As many atoms as it takes, and then what goes on. -/
def matchStar (a : RegexAtom) (k : Continuation) : Continuation
  | start, [] => k start []
  | start, b :: s => (a.matches b && matchStar a k false s) || k start (b :: s)

/-- Terms that match the whole rest. -/
def matchTerms : Regex → Continuation
  | [], _, s => s.isEmpty
  | .inputStart :: ts, start, s => start && matchTerms ts start s
  | .inputEnd :: ts, start, s => s.isEmpty && matchTerms ts start s
  | .atom a .once :: ts, start, s => matchOnce a (matchTerms ts) start s
  | .atom a .star :: ts, start, s => matchStar a (matchTerms ts) start s
  | .atom a .plus :: ts, start, s => matchOnce a (matchStar a (matchTerms ts)) start s
  | .atom a .optional :: ts, start, s =>
    matchOnce a (matchTerms ts) start s || matchTerms ts start s

/-- `std::regex_match`. -/
def regexMatch (s : Bytes) (r : Regex) : Bool := matchTerms r true s

/-! ### Literals and the dot -/

/-- A pattern without syntax characters is a sequence of its characters. -/
theorem foldlM_addCharacter {s : Bytes} (hs : ∀ b ∈ s, isSyntaxCharacter b = false) (ts : Regex) :
    s.foldlM addCharacter ts =
      .ok ((s.map fun b => RegexTerm.atom (.byte b) .once).reverse ++ ts) := by
  induction s generalizing ts with
  | nil => rfl
  | cons b s ih =>
    rw [List.forall_mem_cons] at hs
    have hb : addCharacter ts b = .ok (.atom (.byte b) .once :: ts) := by
      unfold addCharacter
      rw [hs.1, if_neg Bool.false_ne_true]
    rw [List.foldlM_cons, hb, List.map_cons, List.reverse_cons, List.append_assoc,
      List.singleton_append]
    exact ih hs.2 _

/-- The regular expression of an anchored literal. -/
theorem regex_literal {s : Bytes} (hs : ∀ b ∈ s, isSyntaxCharacter b = false) :
    regex (94 :: s ++ [36]) =
      .ok (.inputStart :: (s.map fun b => .atom (.byte b) .once) ++ [.inputEnd]) := by
  have hfold : (94 :: s ++ [36]).foldlM addCharacter [] =
      .ok (.inputEnd :: ((s.map fun b => .atom (.byte b) .once).reverse ++ [.inputStart])) := by
    have hstart : addCharacter [] 94 = .ok [.inputStart] := rfl
    rw [List.foldlM_append, List.foldlM_cons, hstart]
    dsimp only [bind, Except.bind]
    rw [foldlM_addCharacter hs]
    rfl
  rw [regex, hfold]
  simp [Except.map]

theorem matchTerms_literal (s : Bytes) (start : Bool) (t : Bytes) :
    matchTerms ((s.map fun b => .atom (.byte b) .once) ++ [.inputEnd]) start t ↔ t = s := by
  induction s generalizing start t with
  | nil => cases t <;> simp [matchTerms]
  | cons b s ih =>
    rw [List.map_cons, List.cons_append, matchTerms]
    cases t with
    | nil => simp [matchOnce]
    | cons c t =>
      rw [matchOnce, Bool.and_eq_true, ih, RegexAtom.matches, beq_iff_eq, List.cons.injEq]

/-- **An anchored literal** matches itself alone. -/
theorem regexMatch_literal (s t : Bytes) :
    regexMatch t (.inputStart :: (s.map fun b => .atom (.byte b) .once) ++ [.inputEnd]) ↔
      t = s := by
  rw [regexMatch, List.cons_append, matchTerms, Bool.true_and, matchTerms_literal]

theorem matchStar_any (start : Bool) (s : Bytes) :
    matchStar .any (matchTerms []) start s ↔ ∀ b ∈ s, isLineTerminator b = false := by
  induction s generalizing start with
  | nil => simp [matchStar, matchTerms]
  | cons b s ih =>
    rw [matchStar, Bool.or_eq_true, Bool.and_eq_true, ih, RegexAtom.matches, List.forall_mem_cons,
      Bool.not_eq_true']
    simp [matchTerms]

/-- **The dot and star** match what has no line terminator in it. -/
theorem regexMatch_any (s : Bytes) :
    regexMatch s [.atom .any .star] ↔ ∀ b ∈ s, isLineTerminator b = false := by
  rw [regexMatch, matchTerms, matchStar_any]

/-! ### Engines -/

/-- An implementation of `std::regex` and `std::regex_match`: a pattern is compiled to what it
matches, or throws. -/
structure RegexEngine where
  compile : Bytes → Option (Bytes → Bool)
  /-- It is that of the terms of a pattern, where it has some. -/
  agrees : ∀ pattern r, regex pattern = .ok r → compile pattern = some fun s => regexMatch s r
  throws : ∀ pattern, regex pattern = .error .malformed → compile pattern = none

/-- The engine that throws for all that is not modelled. -/
def RegexEngine.least : RegexEngine where
  compile pattern := (regex pattern).toOption.map fun r s => regexMatch s r
  agrees pattern r h := by rw [h]; rfl
  throws pattern h := by rw [h]; rfl

example : (RegexEngine.least.compile (bytes "^a.+c?$")).map (· (bytes "abb")) = some true := by
  decide

end Attender.Library
