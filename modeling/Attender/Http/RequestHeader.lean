import Attender.Library.Hex
import Attender.Library.Lines

/-!
# The request header

What the handlers of a request see of its header: the words of the start line,
the path and the query of the target, the fields and the cookies.
-/

namespace Attender.Http

open Attender.Library

/-- `request_header`. -/
structure RequestHeader where
  method : Bytes := []
  url : Bytes := []
  protocol : Bytes := []
  version : Bytes := []
  path : Bytes := []
  query : StringMap := ∅
  fields : StringMap := ∅
  cookies : StringMap := ∅
  deriving DecidableEq

/-- The line that `to_string` prints for a field, without its end. -/
def fieldLine (kv : Bytes × Bytes) : Bytes := kv.1 ++ bytes ": " ++ kv.2

theorem fieldLine_eq (kv : Bytes × Bytes) : fieldLine kv = kv.1 ++ 58 :: SP :: kv.2 := by
  rw [fieldLine, List.append_assoc]
  rfl

/-- What a field line holds in a row is in the name or in the value. -/
theorem pair_infix_fieldLine {x y : Byte} (hx : x ∉ bytes ": ") (hy : y ∉ bytes ": ")
    {kv : Bytes × Bytes} : [x, y] <:+: fieldLine kv ↔ [x, y] <:+: kv.1 ∨ [x, y] <:+: kv.2 := by
  rw [fieldLine, List.append_assoc, pair_infix_append_append (by decide) hx hy]

namespace RequestHeader

/-- `request_header::get_field`. -/
def getField (h : RequestHeader) (key : Bytes) : Option Bytes := h.fields.lookup key

/-- `request_header::get_cookie`. -/
def getCookie (h : RequestHeader) (name : Bytes) : Option Bytes := h.cookies.lookup name

/-- `request_header::get_query`. -/
def getQuery (h : RequestHeader) (key : Bytes) : Option Bytes := h.query.lookup key

/-- `request_header::patch_cookie`. -/
def patchCookie (h : RequestHeader) (key value : Bytes) : RequestHeader :=
  { h with cookies := h.cookies.insert key value }

/-- The cookie that has been patched is the one that is read. -/
@[simp] theorem getCookie_patchCookie (h : RequestHeader) (key value : Bytes) :
    (h.patchCookie key value).getCookie key = some value :=
  AList.lookup_insert _

/-- `request_header::to_string`, in the order in which the map of the fields is iterated. -/
def toString (h : RequestHeader) (order : List (Bytes × Bytes)) : Bytes :=
  h.method ++ SP :: (h.url ++ SP :: (h.protocol ++ 47 :: (h.version ++ CRLF ++
    (order.map fun i => i.1 ++ bytes ": " ++ i.2 ++ CRLF).flatten ++ CRLF)))

/-! ### The target -/

/-- `request_header::decode_url`; it throws where `std::stoi` does. A `%` with less than two bytes
behind it stays as it is. -/
def decodeUrl : Bytes → Option Bytes
  | [] => some []
  | [b] => some [b]
  | [b, c] => some [b, c]
  | b :: c :: d :: encoded =>
    if b = 37 then
      (stoi16 [c, d]).bind fun n => (decodeUrl encoded).map fun decoded => UInt8.ofInt n :: decoded
    else (decodeUrl (c :: d :: encoded)).map fun decoded => b :: decoded

/-- What `parse_query` does with a pair: the last pair of a key wins. -/
def addQuery (query : StringMap) (pair : Bytes) : StringMap :=
  match cut 61 pair with
  | none => query.insert pair []
  | some (key, value) => query.insert key value

/-- The separators of the pairs of a query. -/
def isQuerySeparator (b : Byte) : Bool := b == 38 || b == 59

/-- `request_header::parse_query`. -/
def parseQuery (h : RequestHeader) (query : Bytes) : RequestHeader :=
  { h with query := (split isQuerySeparator query).foldl addQuery h.query }

/-- `request_header::parse_url`; it throws where `decode_url` does. -/
def parseUrl (h : RequestHeader) : Option RequestHeader :=
  match cutLast 63 h.url with
  | some (front, back) =>
    (decodeUrl back).bind fun queryPart =>
      (decodeUrl front).map fun path => { h.parseQuery queryPart with path := path }
  | none => (decodeUrl h.url).map fun path => { h with path := path }

/-- The path and the query that `parse_url` finds in a target, with the pairs that were there. -/
def targetParts (url : Bytes) (query : StringMap) : Option (Bytes × StringMap) :=
  match cutLast 63 url with
  | some (front, back) =>
    (decodeUrl back).bind fun queryPart => (decodeUrl front).map fun path =>
      (path, (split isQuerySeparator queryPart).foldl addQuery query)
  | none => (decodeUrl url).map fun path => (path, query)

/-- The header with a path and a query. -/
def withTarget (h : RequestHeader) (t : Bytes × StringMap) : RequestHeader :=
  { h with path := t.1, query := t.2 }

/-- Parsing the target sets the path and the query, and nothing else. -/
theorem parseUrl_eq (h : RequestHeader) :
    h.parseUrl = (targetParts h.url h.query).map h.withTarget := by
  rw [parseUrl, targetParts]
  cases cutLast 63 h.url with
  | none => cases decodeUrl h.url <;> rfl
  | some lr =>
    obtain ⟨front, back⟩ := lr
    cases hback : decodeUrl back with
    | none => simp only [hback, Option.bind_none, Option.map_none]
    | some queryPart =>
      simp only [hback, Option.bind_some]
      cases decodeUrl front <;> rfl

/-- A byte that is no `%` stays as it is. -/
theorem decodeUrl_cons {b : Byte} (hb : b ≠ 37) (encoded : Bytes) :
    decodeUrl (b :: encoded) = (decodeUrl encoded).map fun decoded => b :: decoded := by
  match encoded with
  | [] => rfl
  | [c] => rfl
  | c :: d :: encoded => rw [decodeUrl, if_neg hb]

theorem decodeUrl_append {s : Bytes} (hs : 37 ∉ s) (encoded : Bytes) :
    decodeUrl (s ++ encoded) = (decodeUrl encoded).map fun decoded => s ++ decoded := by
  induction s with
  | nil => simp
  | cons b s ih =>
    rw [List.mem_cons, not_or] at hs
    rw [List.cons_append, decodeUrl_cons (Ne.symm hs.1), ih hs.2, Option.map_map]
    rfl

/-- **Decoding undoes encoding**, whatever follows. -/
theorem decodeUrl_encoded {keep : Byte → Prop} (hkeep : ∀ b, keep b → b ≠ 37) {s e : Bytes}
    (h : PercentEncoded keep s e) (encoded : Bytes) :
    decodeUrl (e ++ encoded) = (decodeUrl encoded).map fun decoded => s ++ decoded := by
  induction h with
  | nil => simp
  | kept hb _ ih =>
    rw [List.cons_append, decodeUrl_cons (hkeep _ hb), ih, Option.map_map]
    rfl
  | @escaped b _ _ x y _ _ hh hl hb _ ih =>
    have hbyte : UInt8.ofInt ((16 * x + y : Nat) : Int) = b := by
      have hlt := b.toNat_lt
      have hmod : (((16 * x + y : Nat) : Int) % 2 ^ 8).toNat = b.toNat := by omega
      rw [UInt8.ofInt, hmod, UInt8.ofNat_toNat]
    simp only [List.cons_append, decodeUrl, if_true, stoi16_pair hh hl, Option.bind_some, hbyte, ih,
      Option.map_map]
    rfl

/-- Nothing follows. -/
theorem decodeUrl_eq_some {keep : Byte → Prop} (hkeep : ∀ b, keep b → b ≠ 37) {s e : Bytes}
    (h : PercentEncoded keep s e) : decodeUrl e = some s := by
  have hdecoded := decodeUrl_encoded hkeep h []
  rwa [List.append_nil, decodeUrl, Option.map_some, List.append_nil] at hdecoded

theorem decodeUrl_fullyEncoded {s e : Bytes} (h : FullyEncoded s e) (encoded : Bytes) :
    decodeUrl (e ++ encoded) = (decodeUrl encoded).map fun decoded => s ++ decoded :=
  decodeUrl_encoded (fun _ hfalse => hfalse.elim) h encoded

end RequestHeader

end Attender.Http
