import ComponentPages.Yaml.Cursor

/-!
Block scalars: literal ones keep their line breaks, folded ones join lines that are not indented further. The
header may state the indentation, and whether the breaks at the end are kept.
-/
namespace ComponentPages

namespace Yaml

namespace BlockScalar

/-- What becomes of the line breaks at the end of a scalar. -/
inductive Chomping where
  | strip | clip | keep
deriving DecidableEq

structure Header where
  chomping : Chomping := .clip
  increment : Option Nat := none

def chomping? : Option Char → Option Chomping
  | some '+' => some .keep
  | some '-' => some .strip
  | _ => none

/-- Reads an indentation, which is a digit other than zero. -/
def increment? : Option Char → Except Flaw (Option Nat)
  | some '0' => .error .malformed
  | some c => .ok (if c.isDigit then some (c.toNat - 48) else none)
  | none => .ok none

/-- The two marks of a header, in either order. -/
def header (cursor : Cursor) : Except Flaw (Header × Cursor) := do
  let (header, next) ←
    match chomping? cursor.peek with
    | some chomping => do
      match ← increment? (cursor.peekAt 1) with
      | some increment => pure (({ chomping, increment := some increment } : Header), cursor.forward 2)
      | none => pure (({ chomping } : Header), cursor.advance)
    | none =>
      match ← increment? cursor.peek with
      | some increment =>
        match chomping? (cursor.peekAt 1) with
        | some chomping => pure (({ chomping, increment := some increment } : Header), cursor.forward 2)
        | none => pure (({ increment := some increment } : Header), cursor.advance)
      | none => pure (({} : Header), cursor)
  if lineOrSpace next.peek then .ok (header, next) else .error .malformed

/-- Moves past spaces up to a column. -/
def indentTo (column : Nat) (cursor : Cursor) : Cursor :=
  cursor.forward (min (column - cursor.column) (cursor.rest.takeWhile (· == ' ')).length)

/-- Empty lines, and the column of the first text; spaces count up to it. -/
def leading (cursor : Cursor) (widest : Nat) : Text × Nat × Cursor :=
  let spaced := cursor.skipSpaces
  let widest := max widest spaced.column
  match spaced.lineBreak? with
  | none => ([], widest, spaced)
  | some (c, next) =>
    if _shorter : next.rest.length < cursor.rest.length then
      let (more, widest, last) := leading next widest
      (c :: more, widest, last)
    else ([c], widest, next)
termination_by cursor.rest.length

/-- Empty lines, each indented up to a column at most. -/
def emptyLines (column : Nat) (cursor : Cursor) : Text × Cursor :=
  let indented := indentTo column cursor
  match indented.lineBreak? with
  | none => ([], indented)
  | some (c, next) =>
    if _shorter : next.rest.length < cursor.rest.length then
      let (more, last) := emptyLines column next
      (c :: more, last)
    else ([c], next)
termination_by cursor.rest.length

/-- How two lines are joined, given the break between them and the empty lines that follow it. -/
def joint (folded : Bool) (c : Char) (empty : Text) (line next : Option Char) : Text :=
  let text (first : Option Char) := !first.any isSpaceOrTab
  if folded && c = '\n' && text line && text next then (if empty.isEmpty then [' '] else [])
  else [c]

/-- The lines at a column, given the empty lines before the first of them. The end of the last line and the
empty lines after it are cut as the header says. -/
def linesFrom (folded : Bool) (chomping : Chomping) (column : Nat) (empty : Text) (cursor : Cursor) : Text × Cursor :=
  let (text, atBreak) := cursor.run (!isBreak ·)
  match atBreak.lineBreak? with
  | none => (empty ++ text, atBreak)
  | some (c, next) =>
    let (more, last) := emptyLines column next
    if last.column = column && last.peek.isSome then
      if _shorter : last.rest.length < cursor.rest.length then
        let (rest, final) := linesFrom folded chomping column more last
        (empty ++ text ++ joint folded c more cursor.peek last.peek ++ rest, final)
      else (empty ++ text, last)
    else
      let ending : Text :=
        match chomping with
        | .strip => []
        | .clip => [c]
        | .keep => c :: more
      (empty ++ text ++ ending, last)
termination_by cursor.rest.length

/-- Reads a block scalar, given the cursor at its mark and the indentation of what it stands in. -/
def read (folded : Bool) (indent : Int) (cursor : Cursor) : Except Flaw (Text × Cursor) := do
  let (header, afterHeader) ← header cursor.advance
  let start ← afterHeader.endOfLine
  let least := (max (indent + 1) 1).toNat
  let (empty, column, first) :=
    match header.increment with
    | some increment =>
      let column := least + increment - 1
      let (empty, first) := emptyLines column start
      (empty, column, first)
    | none =>
      let (empty, widest, first) := leading start 0
      (empty, max least widest, first)
  if first.column = column && first.peek.isSome then .ok (linesFrom folded header.chomping column empty first)
  else .ok (if header.chomping = .keep then empty else [], first)

end BlockScalar

end Yaml

end ComponentPages
