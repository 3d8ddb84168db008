import ComponentPages.Text.Basic

/-!
Reading past quotations and brackets. A reader remembers the quotation it is in and how many brackets are
open; inside a quotation nothing counts but its closing quote.
-/
namespace ComponentPages

structure Nesting where
  quote : Option Char := none
  depth : Int := 0
deriving DecidableEq

namespace Nesting

/-- Whether the reader is in no quotation and no bracket. -/
def isOutside (nesting : Nesting) : Bool := nesting.quote.isNone && nesting.depth == 0

/-- The state after one character, for one pair of brackets. -/
def step (opening closing : Char) (nesting : Nesting) (c : Char) : Nesting :=
  match nesting.quote with
  | some quote => if c = quote then { nesting with quote := none } else nesting
  | none =>
    if isQuote c then { nesting with quote := some c }
    else if c = opening then { nesting with depth := nesting.depth + 1 }
    else if c = closing then { nesting with depth := nesting.depth - 1 }
    else nesting

/-- What stands before the bracket that closes the outermost open one, and what stands after it. -/
def close? (opening closing : Char) (nesting : Nesting) : Text → Option (Text × Text)
  | [] => none
  | c :: rest =>
    if c = closing ∧ nesting = ⟨none, 1⟩ then some ([], rest)
    else (close? opening closing (nesting.step opening closing c) rest).map fun (inside, after) =>
      (c :: inside, after)

theorem eq_of_close? {opening closing : Char} {nesting : Nesting} {text inside after : Text}
    (closed : close? opening closing nesting text = some (inside, after)) :
    text = inside ++ closing :: after := by
  induction text generalizing nesting inside with
  | nil => simp [close?] at closed
  | cons c rest ih =>
    unfold close? at closed
    split at closed
    · next here =>
      simp only [Option.some.injEq, Prod.mk.injEq] at closed
      obtain ⟨rfl, rfl⟩ := closed
      simp [here.1]
    · obtain ⟨⟨before, remainder⟩, later, same⟩ := Option.map_eq_some_iff.1 closed
      simp only [Prod.mk.injEq] at same
      obtain ⟨rfl, rfl⟩ := same
      simp [ih later]

end Nesting

end ComponentPages
