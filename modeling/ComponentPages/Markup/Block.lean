import ComponentPages.Text.Pattern

/-!
Script and style blocks. Their contents are kept as they are by every pass over a page, so the passes ask for
the stretches of text that such blocks cover.
-/
namespace ComponentPages

/-- A stretch of text, from one offset up to another. -/
structure Span where
  start : Nat
  stop : Nat
deriving DecidableEq

def Span.covers (span : Span) (offset : Nat) : Bool := span.start ≤ offset && offset < span.stop

namespace Block

/-- Reads the opening tag of a block up to its first `>`, and gives the name as it is written. -/
def opening? (name : Text) (text : Text) : Option (Text × Text) := do
  let named ← Text.after? "<" text
  let head ← Text.afterFolded? name named
  if head.head?.any isWord then none
  let (_, contents) ← Text.cut? '>' head
  some (named.take name.length, contents)

/-- Reads a closing tag whose name is read by the given function. -/
def closing? (readName : Text → Option Text) : Pattern Unit := fun text => do
  let named ← Text.after? "</" text
  let head ← readName named
  let rest ← Text.after? ">" (Text.trimLeft head)
  some ((), rest)

/-- Reads a name that has the same lower case, character by character. -/
def sameName? : (written text : Text) → Option Text
  | [], text => some text
  | _ :: _, [] => none
  | c :: written, d :: text => if lowerChar c = lowerChar d then sameName? written text else none

/-- A script or style block, closed under the very name that opened it. -/
def guarded : Pattern Unit := fun text => do
  let (name, contents) ← (opening? "script" text).or (opening? "style" text)
  let (_, _, rest) ← Pattern.seek? (closing? (sameName? name)) contents
  some ((), rest)

/-- A block of one name, closed under that name in any case; gives the contents. -/
def named (name : Text) : Pattern Text := fun text => do
  let (_, body) ← opening? name text
  let (contents, _, rest) ← Pattern.seek? (closing? (Text.afterFolded? name)) body
  some (contents, rest)

/-- The stretches that script and style blocks cover. -/
def spans (html : Text) : List Span :=
  (Pattern.located 0 (Pattern.segments guarded html)).filterMap fun (offset, segment) =>
    segment.value?.map fun _ => ⟨offset, offset + segment.source.length⟩

end Block

/-- Whether an offset lies in one of several stretches. -/
def covered (spans : List Span) (offset : Nat) : Bool := spans.any fun span => span.covers offset

end ComponentPages
