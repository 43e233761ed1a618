import ProxyTiming.Http.Target

/-!
# Requests

A request asks for the path of a target with `GET` and carries five headers.
What it asks for has to be a URL's path once more, and no header value may hold a
character that could end it; then the head can be written line by line.
-/

namespace ProxyTiming.Http

structure Request where
  path : String
  /-- Names and values in order. -/
  headers : List (String × String)
deriving DecidableEq

inductive RequestFault where
  | path (fault : UriFault)
  | headerValue
deriving DecidableEq

def RequestFault.message : RequestFault → String
  | path fault => fault.message
  | headerValue => "failed to parse header value"

def isHeaderValueChar (c : Char) : Bool :=
  c == '\t' || (decide (32 ≤ c.toNat) && decide (c.toNat ≠ 127))

def acceptValue : String := "text/html,application/xhtml+xml,application/xml;q=0.9,*/*;q=0.8"

def acceptLanguageValue : String := "en-US,en;q=0.9"

namespace Request

def headersFor (t : Target) (userAgent : String) : List (String × String) :=
  [("host", t.authority), ("user-agent", userAgent), ("accept", acceptValue),
    ("accept-language", acceptLanguageValue), ("connection", "close")]

def forTarget (t : Target) (userAgent : String) : Except RequestFault Request :=
  match Uri.parse t.pathAndQuery with
  | .error fault => .error (.path fault)
  | .ok _ =>
    let headers := headersFor t userAgent
    if headers.all fun (_, value) => value.toList.all isHeaderValueChar then
      .ok ⟨t.pathAndQuery, headers⟩
    else .error .headerValue

def lineEnd : String := "\r\n"

def headerLines : List (String × String) → String
  | [] => ""
  | (name, value) :: rest => name ++ ": " ++ value ++ lineEnd ++ headerLines rest

/-- The head of the request, with the blank line that ends it. -/
def head (r : Request) : String :=
  "GET " ++ r.path ++ " HTTP/1.1" ++ lineEnd ++ headerLines r.headers ++ lineEnd

end Request

end ProxyTiming.Http
