import ComponentPages.Json
import ComponentPages.Project.Build
import ComponentPages.Rendering

/-!
The service: requests to build a project or to render a page are answered with JSON. A request that names no route,
or whose body is not of the form its route wants, is refused; so is one whose sources are at fault.
-/
namespace ComponentPages

namespace Service

structure Request where
  method : Text
  target : Text
  body : Text := []

structure Response where
  status : Nat
  body : Json

inductive Route where
  | health | compile | render
deriving DecidableEq

namespace Route

def ofPath? (path : Text) : Option Route :=
  [("/health", Route.health), ("/compile", .compile), ("/render", .render)].lookup (String.ofList path)

def method : Route → Text
  | .health => "GET"
  | .compile | .render => "POST"

end Route

/-- A text with its percent escapes read as bytes. -/
def percentDecoded : Text → Bytes
  | [] => []
  | '%' :: high :: low :: rest =>
    match Numeral.hex? [high, low] with
    | some code => code.toUInt8 :: percentDecoded rest
    | none => Bytes.ofText ['%'] ++ percentDecoded (high :: low :: rest)
  | c :: rest => Bytes.ofText [c] ++ percentDecoded rest

/-- The path of a target, without slashes at its end. -/
def pathOf (target : Text) : Text :=
  let path := target.takeWhile fun c => c != '?' && c != '#'
  let decoded := (Bytes.toText? (percentDecoded path)).getD []
  (decoded.reverse.dropWhile (· == '/')).reverse

def detail (status : Nat) (message : Text) : Response := ⟨status, .object [("detail".toList, .string message)]⟩

def routeMissing : Response := detail 404 "Not Found"

def methodRefused : Response := detail 405 "Method Not Allowed"

def bodyUnreadable : Response := detail 400 "There was an error parsing the body"

def bodyRefused : Response := detail 422 "Unprocessable Entity"

/-- Words for the two truth values. -/
def truthWords : List (String × Bool) := [
  ("1", true), ("on", true), ("t", true), ("true", true), ("y", true), ("yes", true),
  ("0", false), ("off", false), ("f", false), ("false", false), ("n", false), ("no", false)]

/-- Zero and one stand for truth values, and so do some words in either case. -/
def truth? : Json → Option Bool
  | .boolean truth => some truth
  | .int number => if number = 0 then some false else if number = 1 then some true else none
  | .float number =>
    if number.neg = .ofInt 0 || number = .ofInt 0 then some false else if number = .ofInt 1 then some true else none
  | .string text => truthWords.lookup (String.ofList (text.map Char.toLower))
  | _ => none

structure RenderOrder where
  html : Text
  components : Bindings Text
  strict : Bool

/-- What a body asks to render. Components and strictness may be left out. -/
def RenderOrder.ofJson? (body : Json) : Option RenderOrder := do
  let components ←
    match body.member? "components" with
    | none => some []
    | some components => components.texts?
  let strict ←
    match body.member? "strict_props" with
    | none => some false
    | some strict => truth? strict
  some { html := ← (← body.member? "html").text?, components, strict }

/-- The path of the project that a body asks to build. -/
def projectOf? (body : Json) : Option Text := do (← body.member? "path").text?

def texts (members : List (String × Text)) : Json :=
  .object (members.map fun (name, text) => (name.toList, .string text))

def renderedBody (rendering : Rendering) : Json :=
  texts [("html", rendering.html), ("css", rendering.css), ("js", rendering.script)]

def builtBody (report : BuildReport) : Json := .object [
  ("dist".toList, .string report.dist.render),
  ("routes".toList, .list (report.routes.map fun route => .string route.render)),
  ("stylesheet".toList, .string report.stylesheet.render),
  ("components".toList, .int report.components),
  ("static_files".toList, .int report.staticFiles)]

/-- How a fault is answered; any other fault is not for the one who asks. -/
def ofFault? (fault : Fault) : Option Response :=
  if fault.isFileMissing then some (detail 404 fault.message)
  else if fault.isProject || fault = .noHome then some (detail 400 fault.message)
  else none

def perform (route : Route) (body : Json) : Work Response :=
  match route with
  | .health => pure ⟨200, texts [("status", "ok".toList)]⟩
  | .compile =>
    match projectOf? body with
    | none => pure bodyRefused
    | some path => do pure ⟨200, builtBody (← Project.build path)⟩
  | .render =>
    match RenderOrder.ofJson? body with
    | none => pure bodyRefused
    | some order =>
      match Rendering.render order.components order.strict order.html with
      | .ok rendering => pure ⟨200, renderedBody rendering⟩
      | .error diagnostic => throw (.compile diagnostic)

/-- Answers a request to a route. The health of the service does not depend on a body. -/
def answer (route : Route) (body : Text) : Work Response :=
  match if route = .health then .ok .null else Json.read body with
  | .error .malformed => pure bodyRefused
  | .error .numberTooLong => pure bodyUnreadable
  | .ok json => tryCatch (perform route json) fun fault =>
    match ofFault? fault with
    | some response => pure response
    | none => throw fault

def respond (request : Request) : Work Response :=
  match Route.ofPath? (pathOf request.target) with
  | none => pure routeMissing
  | some route =>
    if request.method.map Char.toUpper = route.method then answer route request.body else pure methodRefused

end Service

end ComponentPages
