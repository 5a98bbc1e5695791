import ReleasePublisher.Text.Blank
import ReleasePublisher.Url.Basic

/-!
# Requests and answers

## Main definitions

* `Request`: a request as it is sent
* `Response`: an answer
* `Response.text`, `Response.document`: the body of an answer
* `reason? status`: the reason that belongs to a status
-/

namespace ReleasePublisher

/-- What a request asks for. -/
inductive Method where
  | get
  | post
  deriving DecidableEq, Repr

/-- The name of a method. -/
def Method.name : Method → String
  | get => "GET"
  | post => "POST"

/-- Headers, in the order in which they were added. Names are in lower case and may repeat. -/
abbrev Headers := List (String × String)

namespace Headers

/-- The values of the headers with a name. -/
def values (hs : Headers) (name : String) : List String :=
  (hs.filter (·.1 == name)).map (·.2)

/-- The headers with a name are left out. -/
def without (hs : Headers) (name : String) : Headers :=
  hs.filter (·.1 != name)

/-- The headers with one of a name, unless there is one. -/
def withDefault (hs : Headers) (name value : String) : Headers :=
  if (hs.values name).isEmpty then hs ++ [(name, value)] else hs

end Headers

/-- A request as it is sent. -/
structure Request where
  method : Method
  url : Url
  headers : Headers
  body : Bytes
  deriving DecidableEq, Repr

/-- An answer. -/
structure Response where
  status : Nat
  headers : Headers
  body : Bytes
  /-- The body was received completely. -/
  isComplete : Bool
  deriving DecidableEq, Repr

namespace Response

/-- The status tells of success. -/
def isSuccess (r : Response) : Bool :=
  200 ≤ r.status && r.status < 300

/-- The body, if it was received completely. -/
def document (r : Response) : Option Bytes :=
  if r.isComplete then some r.body else none

/-- The body as text, if it was received completely. -/
def text (r : Response) : Option String :=
  r.document.map Utf8.lossy

end Response

/-- The reasons that belong to statuses. -/
def reasons : List (Nat × String) :=
  [(100, "Continue"), (101, "Switching Protocols"), (102, "Processing"), (103, "Early Hints"),
   (200, "OK"), (201, "Created"), (202, "Accepted"), (203, "Non Authoritative Information"),
   (204, "No Content"), (205, "Reset Content"), (206, "Partial Content"), (207, "Multi-Status"),
   (208, "Already Reported"), (226, "IM Used"),
   (300, "Multiple Choices"), (301, "Moved Permanently"), (302, "Found"), (303, "See Other"),
   (304, "Not Modified"), (305, "Use Proxy"), (307, "Temporary Redirect"),
   (308, "Permanent Redirect"),
   (400, "Bad Request"), (401, "Unauthorized"), (402, "Payment Required"), (403, "Forbidden"),
   (404, "Not Found"), (405, "Method Not Allowed"), (406, "Not Acceptable"),
   (407, "Proxy Authentication Required"), (408, "Request Timeout"), (409, "Conflict"),
   (410, "Gone"), (411, "Length Required"), (412, "Precondition Failed"),
   (413, "Payload Too Large"), (414, "URI Too Long"), (415, "Unsupported Media Type"),
   (416, "Range Not Satisfiable"), (417, "Expectation Failed"), (418, "I'm a teapot"),
   (421, "Misdirected Request"), (422, "Unprocessable Entity"), (423, "Locked"),
   (424, "Failed Dependency"), (425, "Too Early"), (426, "Upgrade Required"),
   (428, "Precondition Required"), (429, "Too Many Requests"),
   (431, "Request Header Fields Too Large"), (451, "Unavailable For Legal Reasons"),
   (500, "Internal Server Error"), (501, "Not Implemented"), (502, "Bad Gateway"),
   (503, "Service Unavailable"), (504, "Gateway Timeout"), (505, "HTTP Version Not Supported"),
   (506, "Variant Also Negotiates"), (507, "Insufficient Storage"), (508, "Loop Detected"),
   (510, "Not Extended"), (511, "Network Authentication Required")]

/-- The reason that belongs to a status. -/
def reason? (status : Nat) : Option String :=
  reasons.lookup status

end ReleasePublisher
