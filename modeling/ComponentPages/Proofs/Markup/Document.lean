import ComponentPages.Proofs.Markup.Placeholder
import ComponentPages.Proofs.Markup.Unclosed

/-!
Documents with conditionals, as they are written. Three readers meet on a written conditional. The search finds it by
its braces, its condition is read by quotations and parentheses, and its branches end where the parentheses are
balanced, quoted ones included. All three find the same parts.
-/
namespace ComponentPages

/-- The white space inside a conditional, by what follows it. -/
structure Gaps where
  truthy : Text := []
  colon : Text := []
  falsy : Text := []
  closing : Text := []
deriving DecidableEq

def Gaps.AreBlank (gaps : Gaps) : Prop :=
  IsSpace gaps.truthy ∧ IsSpace gaps.colon ∧ IsSpace gaps.falsy ∧ IsSpace gaps.closing

instance (gaps : Gaps) : Decidable gaps.AreBlank := inferInstanceAs (Decidable (_ ∧ _ ∧ _ ∧ _))

/-- A text with conditionals, whose branches are such texts again. -/
inductive Document where
  | done
  | text (words : Text) (rest : Document)
  | placeholder (expression : Text) (rest : Document)
  | choice (condition : Text) (gaps : Gaps) (truthy falsy rest : Document)
deriving DecidableEq

/-- The number of parentheses that are open behind a text; nothing if one closes that is not open. -/
def openBehind? (depth : Nat) : Text → Option Nat
  | [] => some depth
  | c :: rest =>
    if c = '(' then openBehind? (depth + 1) rest
    else if c = ')' then if depth = 0 then none else openBehind? (depth - 1) rest
    else openBehind? depth rest

/-- Whether the parentheses of a text are balanced, quoted ones included. -/
def isNested (text : Text) : Bool := openBehind? 0 text = some 0

namespace Conditional

/-- Whether a condition has no braces and ends outside quotations and parentheses without a question mark before. -/
def isCondition (condition : Text) : Bool :=
  condition.all (!Placeholder.isBrace ·) && conditionEnd? {} condition = some {}

/-- A conditional as it is written, with the text that follows it. -/
def write (condition : Text) (gaps : Gaps) (truthy falsy rest : Text) : Text :=
  '\x7b' :: (condition ++ '?' :: (gaps.truthy ++ '(' :: (truthy ++ ')' :: (gaps.colon ++ ':' ::
    (gaps.falsy ++ '(' :: (falsy ++ ')' :: (gaps.closing ++ '\x7d' :: rest)))))))

end Conditional

namespace Document

def print : Document → Text
  | .done => []
  | .text words rest => words ++ rest.print
  | .placeholder expression rest => braced expression ++ rest.print
  | .choice condition gaps truthy falsy rest => Conditional.write condition gaps truthy.print falsy.print rest.print

/-- The texts that come up when conditionals are replaced by their branches, one after the other. -/
def forms : Document → List Text
  | .done => [[]]
  | .text words rest => rest.forms.map (words ++ ·)
  | .placeholder expression rest => rest.forms.map (braced expression ++ ·)
  | .choice condition gaps truthy falsy rest => rest.forms.flatMap fun later =>
      Conditional.write condition gaps truthy.print falsy.print later :: (truthy.forms ++ falsy.forms).map (· ++ later)

/-- Texts have no braces, placeholders neither braces nor question marks, and conditions end where they should. -/
def isWellFormed : Document → Bool
  | .done => true
  | .text words rest => words.all (!Placeholder.isBrace ·) && rest.isWellFormed
  | .placeholder expression rest =>
    expression.all (fun c => !Placeholder.isBrace c && c != '?') && rest.isWellFormed
  | .choice condition gaps truthy falsy rest =>
    Conditional.isCondition condition && decide gaps.AreBlank && truthy.isWellFormed && falsy.isWellFormed &&
      rest.isWellFormed

/-- The parentheses of every branch are balanced as it is written. -/
def isEnclosed : Document → Bool
  | .done => true
  | .text _ rest | .placeholder _ rest => rest.isEnclosed
  | .choice _ _ truthy falsy rest =>
    isNested truthy.print && isNested falsy.print && truthy.isEnclosed && falsy.isEnclosed && rest.isEnclosed

/-- The texts, placeholders and conditions of a document. -/
def items : Document → List Text
  | .done => []
  | .text words rest => words :: rest.items
  | .placeholder expression rest => expression :: rest.items
  | .choice condition _ truthy falsy rest => condition :: (truthy.items ++ falsy.items ++ rest.items)

/-- Those of its branches. -/
def branchItems : Document → List Text
  | .done => []
  | .text _ rest | .placeholder _ rest => rest.branchItems
  | .choice _ _ truthy falsy rest => truthy.items ++ falsy.items ++ rest.branchItems

end Document

/-! ### Balanced parentheses -/

theorem openBehind?_append (depth : Nat) (first second : Text) :
    openBehind? depth (first ++ second) = (openBehind? depth first).bind fun after => openBehind? after second := by
  induction first generalizing depth with
  | nil => rfl
  | cons c first ih =>
    rw [List.cons_append, openBehind?, openBehind?]
    split
    · exact ih _
    · split
      · split
        · rfl
        · exact ih _
      · exact ih _

theorem openBehind?_add {depth after : Nat} {text : Text} (ends : openBehind? depth text = some after) (outer : Nat) :
    openBehind? (depth + outer) text = some (after + outer) := by
  induction text generalizing depth with
  | nil =>
    cases ends
    rfl
  | cons c text ih =>
    rw [openBehind?] at ends ⊢
    split
    · next opens =>
      rw [if_pos opens] at ends
      rw [Nat.add_right_comm]
      exact ih ends
    · next other =>
      rw [if_neg other] at ends
      split
      · next closes =>
        rw [if_pos closes] at ends
        split at ends
        · cases ends
        · next inside =>
          rw [if_neg (by omega), Nat.sub_add_comm (by omega)]
          exact ih ends
      · next flat =>
        rw [if_neg flat] at ends
        exact ih ends

/-- A balanced text leaves the number of open parentheses as it is. -/
theorem openBehind?_of_isNested {text : Text} (nested : isNested text = true) (depth : Nat) :
    openBehind? depth text = some depth := by
  have shifted := openBehind?_add (of_decide_eq_true nested) depth
  rwa [Nat.zero_add] at shifted

theorem isNested_append {first second : Text} (nested : isNested first = true) (later : isNested second = true) :
    isNested (first ++ second) = true := by
  rw [isNested, openBehind?_append, openBehind?_of_isNested nested]
  exact later

theorem isNested_cons {c : Char} (flat : c ≠ '(' ∧ c ≠ ')') (text : Text) : isNested (c :: text) = isNested text := by
  rw [isNested, openBehind?, if_neg flat.1, if_neg flat.2]
  rfl

theorem isNested_of_isSpace {space : Text} (blank : IsSpace space) : isNested space = true := by
  induction space with
  | nil => rfl
  | cons c space ih =>
    have here := blank c List.mem_cons_self
    have flat : c ≠ '(' ∧ c ≠ ')' := by
      constructor <;> rintro rfl <;> exact absurd here (by decide)
    rw [isNested_cons flat]
    exact ih fun d member => blank d (List.mem_cons_of_mem c member)

theorem isNested_enclosed {text : Text} (nested : isNested text = true) {rest : Text} (later : isNested rest = true) :
    isNested ('(' :: (text ++ ')' :: rest)) = true := by
  rw [isNested, openBehind?, if_pos rfl, openBehind?_append, openBehind?_of_isNested nested, Option.bind_some, openBehind?,
    if_neg (by decide), if_pos rfl, if_neg (by decide)]
  exact later

/-- What is made of balanced items is balanced as it is written. -/
theorem Document.isNested_print {document : Document} (sound : document.isWellFormed = true)
    (nested : ∀ item ∈ document.items, isNested item = true) : isNested document.print = true := by
  induction document with
  | done => rfl
  | text words rest ih =>
    simp only [isWellFormed, Bool.and_eq_true] at sound
    obtain ⟨here, later⟩ := List.forall_mem_cons.1 nested
    exact isNested_append here (ih sound.2 later)
  | placeholder expression rest ih =>
    simp only [isWellFormed, Bool.and_eq_true] at sound
    obtain ⟨here, later⟩ := List.forall_mem_cons.1 nested
    rw [print, braced, List.append_assoc, List.cons_append, isNested_cons (by decide)]
    refine isNested_append here ?_
    rw [List.singleton_append, isNested_cons (by decide)]
    exact ih sound.2 later
  | choice condition gaps truthy falsy rest truthyIh falsyIh restIh =>
    simp only [isWellFormed, Bool.and_eq_true, decide_eq_true_eq] at sound
    obtain ⟨⟨⟨⟨-, beforeTruthy, beforeColon, beforeFalsy, beforeClosing⟩, truthySound⟩, falsySound⟩, restSound⟩ := sound
    obtain ⟨here, later⟩ := List.forall_mem_cons.1 nested
    have first := truthyIh truthySound fun item member => later item (by simp [member])
    have second := falsyIh falsySound fun item member => later item (by simp [member])
    have third := restIh restSound fun item member => later item (by simp [member])
    rw [print, Conditional.write, isNested_cons (by decide)]
    refine isNested_append here ?_
    rw [isNested_cons (by decide)]
    refine isNested_append (isNested_of_isSpace beforeTruthy) (isNested_enclosed first ?_)
    refine isNested_append (isNested_of_isSpace beforeColon) ?_
    rw [isNested_cons (by decide)]
    refine isNested_append (isNested_of_isSpace beforeFalsy) (isNested_enclosed second ?_)
    refine isNested_append (isNested_of_isSpace beforeClosing) ?_
    rw [isNested_cons (by decide)]
    exact third

theorem Document.branchItems_sublist (document : Document) : document.branchItems.Sublist document.items := by
  induction document with
  | done => exact List.Sublist.refl []
  | text words rest ih => exact ih.cons words
  | placeholder expression rest ih => exact ih.cons expression
  | choice condition gaps truthy falsy rest _ _ ih => exact (List.Sublist.append_left ih _).cons condition

/-- The branches of a document are balanced if their items are. -/
theorem Document.isEnclosed_of_items {document : Document} (sound : document.isWellFormed = true)
    (nested : ∀ item ∈ document.branchItems, isNested item = true) : document.isEnclosed = true := by
  induction document with
  | done => rfl
  | text words rest ih =>
    simp only [isWellFormed, Bool.and_eq_true] at sound
    exact ih sound.2 nested
  | placeholder expression rest ih =>
    simp only [isWellFormed, Bool.and_eq_true] at sound
    exact ih sound.2 nested
  | choice condition gaps truthy falsy rest truthyIh falsyIh restIh =>
    simp only [isWellFormed, Bool.and_eq_true] at sound
    obtain ⟨⟨⟨-, truthySound⟩, falsySound⟩, restSound⟩ := sound
    have first : ∀ item ∈ truthy.items, isNested item = true := fun item member => nested item (by simp [branchItems, member])
    have second : ∀ item ∈ falsy.items, isNested item = true := fun item member => nested item (by simp [branchItems, member])
    have third : ∀ item ∈ rest.branchItems, isNested item = true :=
      fun item member => nested item (by simp [branchItems, member])
    have truthyEnclosed := truthyIh truthySound fun item member => first item (truthy.branchItems_sublist.subset member)
    have falsyEnclosed := falsyIh falsySound fun item member => second item (falsy.branchItems_sublist.subset member)
    simp only [isEnclosed, Bool.and_eq_true]
    exact ⟨⟨⟨⟨isNested_print truthySound first, isNested_print falsySound second⟩, truthyEnclosed⟩, falsyEnclosed⟩,
      restIh restSound third⟩

namespace Conditional

/-! ### A written conditional -/

theorem branch?_append {depth after : Nat} {text : Text} (ends : openBehind? depth text = some after) (rest : Text) :
    branch? (depth + 1) (text ++ rest) = (branch? (after + 1) rest).map (prepend text) := by
  -- The reader of a branch counts the parenthesis in front of the branch, too.
  induction text generalizing depth with
  | nil =>
    cases ends
    exact (map_prepend_nil _).symm
  | cons c text ih =>
    have step {next : Nat} (ends : openBehind? next text = some after) (unclosed : ¬(c = ')' ∧ depth + 1 = 1))
        (same : (if c = '(' then depth + 1 + 1 else if c = ')' then depth + 1 - 1 else depth + 1) = next + 1) :
        branch? (depth + 1) (c :: text ++ rest) = (branch? (after + 1) rest).map (prepend (c :: text)) := by
      have one : branch? (depth + 1) (c :: (text ++ rest)) = (branch? (next + 1) (text ++ rest)).map (prepend [c]) := by
        rw [branch?, if_neg unclosed]
        dsimp only
        rw [same]
        rfl
      rw [List.cons_append, one, ih ends, map_prepend_prepend]
      rfl
    rw [openBehind?] at ends
    split at ends
    · next opens =>
      have other : c ≠ ')' := by
        rw [opens]
        decide
      exact step ends (fun both => other both.1) (if_pos opens)
    · next other =>
      split at ends
      · next closes =>
        split at ends
        · cases ends
        · next inside =>
          refine step ends (by omega) ?_
          rw [if_neg other, if_pos closes]
          omega
      · next flat => exact step ends (fun both => flat both.1) (by rw [if_neg other, if_neg flat])

theorem readBranch_of_isNested {branch : Text} (nested : isNested branch = true) (truthy : Bool) (snippet rest : Text) :
    readBranch truthy snippet (branch ++ ')' :: rest) = .ok (branch, rest) := by
  have ends := branch?_append (of_decide_eq_true nested) (')' :: rest)
  have here : branch? (0 + 1) (')' :: rest) = some ([], rest) := rfl
  rw [here, Option.map_some, prepend, Prod.map, List.append_nil] at ends
  rw [readBranch, ends]
  rfl

theorem afterJoint_of_isSpace {space : Text} (blank : IsSpace space) (joint : Joint) (snippet rest : Text) :
    afterJoint joint snippet (space ++ joint.token :: rest) = .ok rest := by
  have solid : isBlank joint.token = false := by cases joint <;> decide
  rw [afterJoint, Text.trimLeft_append_cons blank solid]
  exact if_pos rfl

theorem isCondition_iff {condition : Text} : isCondition condition = true ↔
    (∀ c ∈ condition, Placeholder.isBrace c = false) ∧ conditionEnd? {} condition = some {} := by
  simp [isCondition]

section Written

variable {condition : Text} {gaps : Gaps} (sound : isCondition condition = true) (blank : gaps.AreBlank)
include sound blank

theorem opens_write (rest : Text) : opens 1 false (condition ++ '?' :: (gaps.truthy ++ '(' :: rest)) = true := by
  have braceless : ∀ c ∈ gaps.truthy, Placeholder.isBrace c = false := by
    intro c member
    have space := blank.1 c member
    simp only [Placeholder.isBrace, Bool.or_eq_false_iff, beq_eq_false_iff_ne]
    constructor <;> rintro rfl <;> exact absurd space (by decide)
  have marked {question : Bool} : opens 1 question ('?' :: (gaps.truthy ++ '(' :: rest)) = true := by
    have behind : opens 1 true ('(' :: rest) = true := by
      rw [opens]
      rfl
    rw [opens]
    change opens 1 true (gaps.truthy ++ '(' :: rest) = true
    rw [opens_append braceless, Bool.true_or, behind, Bool.or_true]
  rw [opens_append (isCondition_iff.1 sound).1, marked, Bool.or_true]

theorem read_write {truthy falsy : Text} (truthyNested : isNested truthy = true) (falsyNested : isNested falsy = true)
    (offset : Nat) (rest : Text) :
    read offset (write condition gaps truthy falsy rest) = .ok (⟨Text.trim condition, truthy, falsy⟩, rest) := by
  obtain ⟨braceless, ends⟩ := isCondition_iff.1 sound
  obtain ⟨beforeTruthy, beforeColon, beforeFalsy, beforeClosing⟩ := blank
  have first := fun snippet rest => afterJoint_of_isSpace beforeTruthy .openTruthy snippet rest
  have second := fun snippet rest => afterJoint_of_isSpace beforeColon .colon snippet rest
  have third := fun snippet rest => afterJoint_of_isSpace beforeFalsy .openFalsy snippet rest
  have fourth := fun snippet rest => afterJoint_of_isSpace beforeClosing .closing snippet rest
  simp only [Joint.token] at first second third fourth
  have unmarked : ¬('?' = '\x7d') := by decide
  rw [write, read, splitCondition?_stop ends braceless (.inl rfl)]
  simp only [bind, Except.bind, if_neg unmarked, first, second, third, fourth,
    readBranch_of_isNested truthyNested, readBranch_of_isNested falsyNested]

end Written

/-! ### Settled text -/

/-- No conditional starts in a text, whatever follows it. -/
def Settled (text : Text) : Prop := ∀ rest, Pattern.Passes start text rest

theorem settled_nil : Settled [] := Pattern.passes_nil start

theorem Settled.append {first second : Text} (settled : Settled first) (later : Settled second) :
    Settled (first ++ second) :=
  fun rest => Pattern.passes_append_iff.2 ⟨settled (second ++ rest), later rest⟩

theorem settled_of_braceless {text : Text} (braceless : ∀ c ∈ text, Placeholder.isBrace c = false) : Settled text := by
  refine fun rest => Pattern.passes_of_begins rest fun c member more => start_of_ne ?_ more
  rintro rfl
  exact absurd (braceless _ member) (by decide)

theorem settled_braced {expression : Text} (braceless : ∀ c ∈ expression, Placeholder.isBrace c = false)
    (unmarked : ∀ c ∈ expression, c ≠ '?') : Settled (braced expression) := by
  intro rest
  rw [braced, List.cons_append, Pattern.passes_cons_iff, Pattern.passes_append_iff]
  refine ⟨?_, settled_of_braceless braceless _, ?_⟩
  · have here := start_braced braceless unmarked rest
    simpa using here
  · rw [Pattern.passes_cons_iff]
    exact ⟨start_of_ne (by decide) _, Pattern.passes_nil start rest⟩

theorem seek?_of_settled {text : Text} (settled : Settled text) (unblocked : Block.spans text = []) :
    seek? text = none := by
  rw [seek?, unblocked]
  exact seekFrom?_of_absent (settled []) 0

/-- Behind settled text a written conditional is the first one. -/
theorem seek?_write {before : Text} (settled : Settled before) {condition : Text} {gaps : Gaps}
    (sound : isCondition condition = true) (blank : gaps.AreBlank) {truthy falsy rest : Text}
    (unblocked : Block.spans (before ++ write condition gaps truthy falsy rest) = []) :
    seek? (before ++ write condition gaps truthy falsy rest) = some (before, write condition gaps truthy falsy rest) := by
  rw [seek?, unblocked, seekFrom?_append (settled _), write, seekFrom?, covered_nil, opens_write sound blank]
  simp [prepend]

end Conditional

end ComponentPages
