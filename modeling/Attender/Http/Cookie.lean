import Attender.Utility.Date

/-!
# Cookies

The cookie a response sets, and the parser of the value of a `Cookie` field.
-/

namespace Attender.Http

open Attender.Library Attender.Utility

/-- `cookie`. -/
structure Cookie where
  name : Bytes := []
  value : Bytes := []
  domain : Bytes := []
  path : Bytes := []
  sameSite : Bytes := []
  /-- `expires_`, as ticks of the system clock since the epoch. -/
  expires : Option Int := none
  maxAge : Nat := 0
  secure : Bool := false
  httpOnly : Bool := false
  deriving DecidableEq

namespace Cookie

variable (c : Cookie)

/-- `cookie::set_name`. -/
def setName (name : Bytes) : Cookie := { c with name := name }

/-- `cookie::set_value`. -/
def setValue (value : Bytes) : Cookie := { c with value := value }

/-- `cookie::set_path`. -/
def setPath (path : Bytes) : Cookie := { c with path := path }

/-- `cookie::to_set_cookie_string`. -/
def toSetCookieString : Bytes :=
  c.name ++ bytes "=" ++ c.value ++
    (if c.domain ≠ [] then bytes "; Domain=" ++ c.domain else []) ++
    (if c.path ≠ [] then bytes "; Path=" ++ c.path else []) ++
    (if c.sameSite ≠ [] then bytes "; SameSite=" ++ c.sameSite else []) ++
    (if c.maxAge > 0 then bytes "; Max-Age=" ++ toDecimal c.maxAge else []) ++
    (c.expires.map fun expires => bytes "; Expires=" ++ toGmtString expires).getD [] ++
    (if c.secure then bytes "; Secure" else []) ++
    (if c.httpOnly then bytes "; HttpOnly" else [])

end Cookie

/-- Why `cookie::parse_cookies` throws. -/
inductive CookieError where
  /-- `cookie value is empty`. -/
  | empty
  /-- `cookie name value pair does not contain '=' character`. -/
  | noEquals
  deriving DecidableEq

/-- The text of the exception. -/
def CookieError.what : CookieError → String
  | .empty => "cookie value is empty"
  | .noEquals => "cookie name value pair does not contain '=' character"

/-- The loop of `cookie::parse_cookies` over the pairs: the last pair of a name wins. -/
def parsePairs : List Bytes → StringMap → Except CookieError StringMap
  | [], result => .ok result
  | pair :: pairs, result =>
    match cut 61 pair with
    | none => .error .noEquals
    | some (left, right) => parsePairs pairs (result.insert (trimLeft left) right)

/-- `cookie::parse_cookies`. -/
def parseCookies (entry : Bytes) : Except CookieError StringMap :=
  if entry = [] then .error .empty else parsePairs (splitCompress (· == 59) entry) ∅

end Attender.Http
