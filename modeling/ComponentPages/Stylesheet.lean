import ComponentPages.Markup.Block

/-!
Scoped stylesheets. Every selector `s` of a component's rules becomes `s[scope], [scope] s`, so that a rule
reaches the root element that carries the scope attribute and everything below it. Rules inside conditional
at-rules are scoped as well; other at-rules pass as they are.
-/
namespace ComponentPages

namespace Stylesheet

def comment : Pattern Unit := fun text => do
  let opened ← Text.after? "/*" text
  let (_, _, rest) ← Pattern.seek? (fun text => (Text.after? "*/" text).map ((), ·)) opened
  some ((), rest)

/-- The text up to the brace that closes `depth` open ones, and what follows it; an unclosed block runs to the
end. -/
def block (depth : Nat) : Text → Text × Text
  | [] => ([], [])
  | c :: rest =>
    if c = '\x7d' ∧ depth = 1 then ([], rest)
    else
      let depth := if c = '\x7b' then depth + 1 else if c = '\x7d' then depth - 1 else depth
      let (inside, after) := block depth rest
      (c :: inside, after)

/-- How many brackets and parentheses are open after a character. -/
def bracketDepth (depth : Int) (c : Char) : Int :=
  if c == '[' || c == '(' then depth + 1 else if c == ']' || c == ')' then depth - 1 else depth

def isCombinator (c : Char) : Bool := (" >+~" : Text).elem c

/-- Where the last compound of a selector starts, given the offset, depth and start so far. -/
def compoundStart (offset : Nat) (depth : Int) (start : Nat) : Text → Nat
  | [] => start
  | c :: rest =>
    let start := if depth = 0 && isCombinator c then offset + 1 else start
    compoundStart (offset + 1) (bracketDepth depth c) start rest

/-- Splits a compound before its first pseudo part. -/
def splitPseudo (depth : Int) : Text → Text × Text
  | [] => ([], [])
  | c :: rest =>
    if depth = 0 && c = ':' then ([], c :: rest)
    else
      let (plain, pseudo) := splitPseudo (bracketDepth depth c) rest
      (c :: plain, pseudo)

/-- The selector with the scope attached to its last compound. -/
def attach (scope selector : Text) : Text :=
  let start := compoundStart 0 0 0 selector
  let (plain, pseudo) := splitPseudo 0 (selector.drop start)
  selector.take start ++ plain ++ "[" ++ scope ++ "]" ++ pseudo

/-- One selector as it is written in the scoped stylesheet. -/
def scopedSelector (scope selector : Text) : Text :=
  attach scope selector ++ ", [" ++ scope ++ "] " ++ selector

/-- The selectors of a rule's prelude. -/
def selectors (head : Text) : List Text :=
  ((Text.pieces ',' head).map Text.trim).filter (· != [])

/-- The at-rules whose blocks hold rules. -/
def conditionalRules : List Text := ["media", "supports", "container", "layer", "document"]

/-- The lower-case keyword of an at-rule. -/
def keyword (head : Text) : Text := Text.lower (((Text.words (head.drop 1)).head?).getD [])

def holdsRules (head body : Text) : Bool :=
  head.head? == some '@' && conditionalRules.contains (keyword head) && body.elem '\x7b'

def written (head body : Text) : Text := head ++ " \x7b" ++ body ++ "\x7d\n"

/-- An item whose block holds no rules: a style rule, scoped, or another at-rule as it is. -/
def flatItem (scope head body : Text) : Text :=
  match head with
  | [] => []
  | '@' :: _ => written head body
  | _ => written (List.intercalate ", " ((selectors head).map (scopedSelector scope))) body

theorem length_block_le (depth : Nat) (text : Text) :
    (block depth text).1.length ≤ text.length ∧ (block depth text).2.length ≤ text.length := by
  induction text generalizing depth with
  | nil => simp [block]
  | cons c rest ih =>
    unfold block
    split
    · simp
    · have later := ih (if c = '\x7b' then depth + 1 else if c = '\x7d' then depth - 1 else depth)
      simp only [List.length_cons]
      omega

/-- Scopes the items of a stylesheet without comments. -/
def scopeItems (scope css : Text) : Text :=
  match _opened : Text.cut? '\x7b' css with
  | none => []
  | some (before, afterBrace) =>
    let head := Text.trim before
    let parts := block 1 afterBrace
    let item :=
      if holdsRules head parts.1 then
        written head ("\n" ++ scopeItems scope (Pattern.erase comment parts.1))
      else flatItem scope head parts.1
    item ++ scopeItems scope parts.2
termination_by css.length
decreasing_by
  · have size := Text.length_of_cut? _opened
    have parts := length_block_le 1 afterBrace
    have erased := Pattern.length_erase_le comment (block 1 afterBrace).1
    omega
  · have size := Text.length_of_cut? _opened
    have parts := length_block_le 1 afterBrace
    omega

/-- The stylesheet with every style rule scoped. -/
def confine (css scope : Text) : Text := scopeItems scope (Pattern.erase comment css)

/-- Takes the style blocks out of a component's source, and gives the template and the scoped stylesheet. -/
def extract (source scope : Text) : Text × Text :=
  let styles := Block.named "style"
  (Text.trim (Pattern.erase styles source), (Pattern.values styles source).flatMap (confine · scope))

end Stylesheet

end ComponentPages
