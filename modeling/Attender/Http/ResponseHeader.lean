import Attender.Http.Cookie

/-!
# The response header

The status line, the fields and the cookies that a response puts in front of
its body.
-/

namespace Attender.Http

open Attender.Library

/-- The codes that `translate_code` knows, with their texts. -/
def responseCodes : List (Int × String) := [
  (100, "Continue"), (101, "Switching Protocols"), (102, "Processing"),
  (200, "Ok"), (201, "Created"), (202, "Accepted"),
  (203, "Non-Authorative Information"), (204, "No Content"), (205, "Reset Content"),
  (206, "Partial Content"), (207, "Multi-Status"), (208, "Already Reported"),
  (226, "Im Used"), (300, "Multiple Choices"), (301, "Moved Permanently"),
  (302, "Found"), (303, "See Other"), (304, "Not Modified"),
  (305, "Use Proxy"), (306, "Switch Proxy"), (307, "Temporary Redirect"),
  (308, "Permanent Redirect"), (400, "Bad Request"), (401, "Unauthorized"),
  (402, "Payment Required"), (403, "Forbidden"), (404, "Not Found"),
  (405, "Method Not Allowed"), (406, "Not Acceptable"), (407, "Proxy Authentication Required"),
  (408, "Request Timeout"), (409, "Conflict"), (410, "Gone"),
  (411, "Length Required"), (412, "Precondition Failed"), (413, "Payload Too Large"),
  (414, "Request-URI Too Long"), (415, "Unsupported Media Type"),
  (416, "Requst Range Not Satisfiable"),
  (417, "Exception Failed"), (418, "I'm a teapot"), (419, "Authentication Timeout"),
  (420, "Method Failure"), (421, "Misdirect Request"), (422, "Unprocessable Entity"),
  (423, "Locked"), (424, "Failed Dependency"), (426, "Upgrade Required"),
  (428, "Precondition Required"), (429, "Too Many Requests"),
  (431, "Request Header Field Too Large"),
  (440, "Login Timeout"), (444, "No Response"), (449, "Retry With"),
  (450, "Blocked by Window Parental Controls"), (451, "Unavailable For Legal Reasons"),
  (494, "Request Header Too Large"),
  (495, "Cert Error"), (496, "No Cert"), (497, "HTTP to HTTPS"),
  (498, "Token expired/invalid"), (499, "Client Closed Request"), (500, "Internal Server Error"),
  (501, "Not Implemented"), (502, "Bad Gateway"), (503, "Service Unavailable"),
  (504, "Gateway Timeout"), (505, "HTTP Version Not Supported"), (507, "Insufficient Storage"),
  (508, "Loop Detected"), (509, "Bandwith Limit Exceeded"), (510, "Not Extended"),
  (511, "Network Authentiation Required"), (520, "Unknown Error")]

/-- `translate_code`: the text of a code, or no text. -/
def translateCode (status : Int) : Bytes := ((responseCodes.lookup status).map bytes).getD []

/-- `response_header`. -/
structure ResponseHeader where
  protocol : Bytes := bytes "HTTP"
  version : Bytes := bytes "1.1"
  code : Int := 204
  message : Bytes := translateCode 204
  fields : StringMap := ∅
  cookies : List Cookie := []
  deriving DecidableEq

namespace ResponseHeader

variable (h : ResponseHeader)

/-- `response_header::set_code`. -/
def setCode (code : Int) : ResponseHeader := { h with code := code, message := translateCode code }

/-- `response_header::set_field`. -/
def setField (field value : Bytes) : ResponseHeader :=
  { h with fields := h.fields.insert field value }

/-- `response_header::append_field`. -/
def appendField (field value : Bytes) : ResponseHeader :=
  { h with fields := h.fields.insert field ((h.fields.lookup field).getD [] ++ value) }

/-- `response_header::has_field`. -/
def hasField (key : Bytes) : Bool := (h.fields.lookup key).isSome

/-- `response_header::set_cookie`. -/
def setCookie (cookie : Cookie) : ResponseHeader := { h with cookies := h.cookies ++ [cookie] }

/-- `response_header::to_string`, in the order in which the map of the fields is iterated. -/
def toString (order : List (Bytes × Bytes)) : Bytes :=
  h.protocol ++ bytes "/" ++ h.version ++ bytes " " ++ toDecimal h.code ++ bytes " " ++ h.message ++
    CRLF ++ (order.map fun i => i.1 ++ bytes ": " ++ i.2 ++ CRLF).flatten ++
      (h.cookies.map fun cookie =>
        bytes "Set-Cookie: " ++ cookie.toSetCookieString ++ CRLF).flatten ++ CRLF

end ResponseHeader

end Attender.Http
