import ComponentPages.Service

/-!
Requests and responses as HTTP messages.
-/
namespace ComponentPages

namespace Service

/-- The method and the target in the first line of a request. -/
def requestLine? (line : Text) : Option (Text × Text) :=
  match Text.words line with
  | method :: target :: _ => some (method, target)
  | _ => none

/-- How many bytes of a body follow the lines of a head. -/
def bodyLength (lines : List Text) : Nat :=
  let lengths := lines.filterMap fun line => do
    let (name, value) ← Text.cut? ':' line
    if Text.lower (Text.trim name) = "content-length" then Text.toNat? (Text.trim value) else none
  lengths.head?.getD 0

def reason : Nat → Text
  | 200 => "OK"
  | 400 => "Bad Request"
  | 404 => "Not Found"
  | 405 => "Method Not Allowed"
  | 422 => "Unprocessable Entity"
  | _ => "Internal Server Error"

/-- A response that ends its connection. -/
def Response.message (response : Response) : Text :=
  let body := response.body.render
  let lines : List Text := [
    "HTTP/1.1 ".toList ++ Text.ofNat response.status ++ ' ' :: reason response.status,
    "Content-Type: application/json",
    "Content-Length: ".toList ++ Text.ofNat (Bytes.ofText body).length,
    "Connection: close",
    []]
  (lines.flatMap fun line => line ++ ['\r', '\n']) ++ body

/-- The path of the project that a request asks to build. -/
def projectPath? (request : Request) : Option Text := do
  let route ← Route.ofPath? (pathOf request.target)
  if route = .compile then projectOf? (← (Json.read request.body).toOption) else none

end Service

end ComponentPages
