import ComponentPages.Expression
import ComponentPages.Markup.Block

/-!
Conditionals `\x7b condition ? (truthy) : (falsy) \x7d`. Settling chooses the branch of the first conditional,
settles it, puts it in place and starts again from the beginning of the text; a branch that is not taken is
never looked at. Every round makes the text shorter, which is why settling ends.
-/
namespace ComponentPages

structure Conditional where
  condition : Text
  truthy : Text
  falsy : Text
deriving DecidableEq

namespace Conditional

/-- Whether a question mark and, later, an opening parenthesis stand at the level of the brace before the
text; `depth` counts the open braces. -/
def opens (depth : Nat) (question : Bool) : Text → Bool
  | [] => false
  | c :: rest =>
    if c = '\x7b' then opens (depth + 1) question rest
    else if c = '\x7d' then depth != 1 && opens (depth - 1) question rest
    else if depth = 1 && c = '?' then opens depth true rest
    else if depth = 1 && c = '(' && question then true
    else opens depth question rest

/-- The text before the first conditional outside script and style blocks, and the text from its brace on. -/
def seekFrom? (blocks : List Span) (offset : Nat) : Text → Option (Text × Text)
  | [] => none
  | c :: rest =>
    if c = '\x7b' && !covered blocks offset && opens 1 false rest then some ([], c :: rest)
    else (seekFrom? blocks (offset + 1) rest).map fun (before, found) => (c :: before, found)

def seek? (html : Text) : Option (Text × Text) := seekFrom? (Block.spans html) 0 html

/-- Offset of the first conditional. -/
def start? (html : Text) : Option Nat := (seek? html).map fun (before, _) => before.length

/-- Splits at the first `?` or `\x7d` outside quotations and parentheses. -/
def splitCondition? (nesting : Nesting) : Text → Option (Text × Char × Text)
  | [] => none
  | c :: rest =>
    if nesting.isOutside && (c == '?' || c == '\x7d') then some ([], c, rest)
    else (splitCondition? (nesting.step '(' ')' c) rest).map fun (before, found, after) =>
      (c :: before, found, after)

/-- The text up to the parenthesis that closes `depth` open ones, and what follows it. -/
def branch? (depth : Nat) : Text → Option (Text × Text)
  | [] => none
  | c :: rest =>
    if c = ')' ∧ depth = 1 then some ([], rest)
    else
      let depth := if c = '(' then depth + 1 else if c = ')' then depth - 1 else depth
      (branch? depth rest).map fun (inside, after) => (c :: inside, after)

/-- What follows a joint, which white space may precede. -/
def afterJoint (joint : Joint) (snippet text : Text) : Except Failure Text :=
  match Text.trimLeft text with
  | [] => .error (.conditionalAbsent joint snippet)
  | c :: rest => if c = joint.token then .ok rest else .error (.conditionalMisplaced joint snippet)

def readBranch (truthy : Bool) (snippet text : Text) : Except Failure (Text × Text) :=
  match branch? 1 text with
  | some found => .ok found
  | none => .error (.conditionalBranch truthy snippet)

/-- Reads the conditional at the front of a text, which stands at an offset that a failure reports. -/
def read (offset : Nat) (text : Text) : Except Failure (Conditional × Text) :=
  match text with
  | '\x7b' :: inside =>
    match splitCondition? {} inside with
    | none => .error (.conditionalUnfinished text)
    | some (condition, mark, afterMark) => do
      if mark = '\x7d' then .error (.conditionalQuestion ('\x7b' :: condition ++ [mark]))
      let snippet := text.take 80
      let (truthy, afterTruthy) ← readBranch true snippet (← afterJoint .openTruthy snippet afterMark)
      let afterColon ← afterJoint .colon snippet afterTruthy
      let (falsy, afterFalsy) ← readBranch false snippet (← afterJoint .openFalsy snippet afterColon)
      let rest ← afterJoint .closing snippet afterFalsy
      .ok (⟨Text.trim condition, truthy, falsy⟩, rest)
  | _ => .error (.conditionalBrace offset (text.take 40))

/-- The conditional at an offset with the offset of its end; nothing when the text ends before. -/
def at? (html : Text) (offset : Nat) : Option (Except Failure (Conditional × Nat)) :=
  if offset < html.length then
    some ((read offset (html.drop offset)).map fun (found, rest) => (found, html.length - rest.length))
  else none

/-- The branch that a condition chooses. -/
def choose (conditional : Conditional) (scope : Scope) : Except Failure Text := do
  match ← Expression.evaluate conditional.condition scope with
  | .boolean true => .ok conditional.truthy
  | .boolean false => .ok conditional.falsy
  | value => .error (.conditionType conditional.condition value.type)

theorem eq_of_seekFrom? {blocks : List Span} {offset : Nat} {text before found : Text}
    (sought : seekFrom? blocks offset text = some (before, found)) : text = before ++ found := by
  induction text generalizing offset before with
  | nil => simp [seekFrom?] at sought
  | cons c rest ih =>
    unfold seekFrom? at sought
    split at sought
    · simp only [Option.some.injEq, Prod.mk.injEq] at sought
      obtain ⟨rfl, rfl⟩ := sought
      rfl
    · obtain ⟨⟨first, second⟩, later, same⟩ := Option.map_eq_some_iff.1 sought
      simp only [Prod.mk.injEq] at same
      obtain ⟨rfl, rfl⟩ := same
      simp [ih later]

theorem eq_of_splitCondition? {nesting : Nesting} {text before after : Text} {mark : Char}
    (found : splitCondition? nesting text = some (before, mark, after)) : text = before ++ mark :: after := by
  induction text generalizing nesting before with
  | nil => simp [splitCondition?] at found
  | cons c rest ih =>
    unfold splitCondition? at found
    split at found
    · simp only [Option.some.injEq, Prod.mk.injEq] at found
      obtain ⟨rfl, rfl, rfl⟩ := found
      rfl
    · obtain ⟨⟨first, second, third⟩, later, same⟩ := Option.map_eq_some_iff.1 found
      simp only [Prod.mk.injEq] at same
      obtain ⟨rfl, rfl, rfl⟩ := same
      simp [ih later]

theorem eq_of_branch? {depth : Nat} {text inside after : Text}
    (found : branch? depth text = some (inside, after)) : text = inside ++ ')' :: after := by
  induction text generalizing depth inside with
  | nil => simp [branch?] at found
  | cons c rest ih =>
    unfold branch? at found
    split at found
    · next here =>
      simp only [Option.some.injEq, Prod.mk.injEq] at found
      obtain ⟨rfl, rfl⟩ := found
      simp [here.1]
    · obtain ⟨⟨first, second⟩, later, same⟩ := Option.map_eq_some_iff.1 found
      simp only [Prod.mk.injEq] at same
      obtain ⟨rfl, rfl⟩ := same
      simp [ih later]

theorem eq_of_afterJoint {joint : Joint} {snippet text rest : Text}
    (found : afterJoint joint snippet text = .ok rest) :
    Text.trimLeft text = joint.token :: rest := by
  unfold afterJoint at found
  split at found
  · simp at found
  · next c tail start =>
    split at found
    · next here =>
      obtain rfl := Except.ok.inj found
      rw [start, here]
    · simp at found

theorem length_of_afterJoint {joint : Joint} {snippet text rest : Text}
    (found : afterJoint joint snippet text = .ok rest) : rest.length < text.length := by
  have size := congrArg List.length (eq_of_afterJoint found)
  have blank := Text.length_dropWhile_le isBlank text
  simp only [Text.trimLeft, List.length_cons] at size
  omega

theorem length_of_readBranch {truthy : Bool} {snippet text inside after : Text}
    (found : readBranch truthy snippet text = .ok (inside, after)) :
    inside.length + after.length < text.length := by
  unfold readBranch at found
  split at found
  · next located =>
    obtain rfl := Except.ok.inj found
    simp [eq_of_branch? located]
  · simp at found

/-- Both branches and the rest together are shorter than the text that was read. -/
theorem length_of_read {offset : Nat} {text rest : Text} {conditional : Conditional}
    (found : read offset text = .ok (conditional, rest)) :
    conditional.truthy.length + conditional.falsy.length + rest.length < text.length := by
  unfold read at found
  split at found
  · next inside =>
    split at found
    · simp at found
    · next condition mark afterMark located =>
      simp only [bind, Except.bind] at found
      split at found
      · simp at found
      · split at found
        · simp at found
        · next opened =>
          split at found
          · simp at found
          · next first =>
            split at found
            · simp at found
            · next colon =>
              split at found
              · simp at found
              · next openedAgain =>
                split at found
                · simp at found
                · next second =>
                  split at found
                  · simp at found
                  · next closed =>
                    have sizes := congrArg List.length (eq_of_splitCondition? located)
                    have one := length_of_afterJoint opened
                    have two := length_of_readBranch first
                    have three := length_of_afterJoint colon
                    have four := length_of_afterJoint openedAgain
                    have five := length_of_readBranch second
                    have six := length_of_afterJoint closed
                    simp only [Except.ok.injEq, Prod.mk.injEq] at found
                    obtain ⟨rfl, rfl⟩ := found
                    simp only [List.length_append, List.length_cons] at sizes ⊢
                    omega
  · simp at found

theorem length_of_choose {conditional : Conditional} {scope : Scope} {branch : Text}
    (chosen : conditional.choose scope = .ok branch) :
    branch.length ≤ conditional.truthy.length + conditional.falsy.length := by
  unfold choose at chosen
  simp only [bind, Except.bind] at chosen
  split at chosen
  · simp at chosen
  · split at chosen
    · obtain rfl := Except.ok.inj chosen; omega
    · obtain rfl := Except.ok.inj chosen; omega
    · simp at chosen

/-- Settles every conditional, and gives the text together with the fact that it did not grow. -/
def reduce (html : Text) (scope : Scope) : Except Failure { result : Text // result.length ≤ html.length } :=
  match _sought : seek? html with
  | none => .ok ⟨html, Nat.le_refl _⟩
  | some (before, found) =>
    match _read : read before.length found with
    | .error failure => .error failure
    | .ok (conditional, rest) =>
      match _chosen : conditional.choose scope with
      | .error failure => .error failure
      | .ok branch =>
        have whole := congrArg List.length (eq_of_seekFrom? _sought)
        have shorter := length_of_read _read
        have branchShorter := length_of_choose _chosen
        match reduce branch scope with
        | .error failure => .error failure
        | .ok ⟨replacement, replacementShorter⟩ =>
          match reduce (before ++ replacement ++ rest) scope with
          | .error failure => .error failure
          | .ok ⟨result, resultShorter⟩ =>
            .ok ⟨result, by simp only [List.length_append] at whole resultShorter ⊢; omega⟩
termination_by html.length
decreasing_by
  · simp only [List.length_append] at whole ⊢; omega
  · simp only [List.length_append] at whole ⊢; omega

/-- The text with every conditional replaced by its chosen branch. -/
def settle (html : Text) (scope : Scope) : Except Failure Text := (reduce html scope).map Subtype.val

end Conditional

end ComponentPages
