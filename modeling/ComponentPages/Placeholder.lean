import ComponentPages.Expression
import ComponentPages.Markup.Block
import ComponentPages.Markup.TagHead

/-!
Placeholders `\x7bexpression\x7d` in page text. A placeholder is left alone inside a script or style block and inside
a component tag that is not expanded yet; one that looks like a conditional is left alone everywhere.
-/
namespace ComponentPages

namespace Placeholder

def isBrace (c : Char) : Bool := c == '\x7b' || c == '\x7d'

/-- A pair of braces around at least one character and no further brace. -/
def pattern : Pattern Text := fun text => do
  let opened ← Text.after? ['\x7b'] text
  let (inner, closing) ← Pattern.run (!isBrace ·) opened
  let rest ← Text.after? ['\x7d'] closing
  some (inner, rest)

/-- Whether text at an offset is out of reach of placeholders. -/
def frozen (blocks : List Span) (html : Text) (offset : Nat) : Bool :=
  covered blocks offset || insideComponentTag html offset

def looksConditional (inner : Text) : Bool := inner.elem '?' && inner.elem '('

/-- Replaces every placeholder in reach by the value of its expression. -/
def substitute (html : Text) (scope : Scope) : Except Failure Text := do
  let blocks := Block.spans html
  let parts ← (Pattern.located 0 (Pattern.segments pattern html)).mapM fun (offset, segment) =>
    match segment with
    | .plain c => .ok [c]
    | .hit source inner =>
      if frozen blocks html offset || looksConditional inner then .ok source
      else (Expression.evaluate inner scope).map Value.render
  .ok parts.flatten

end Placeholder

end ComponentPages
