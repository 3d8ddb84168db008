import ComponentPages.Proofs.Markup.RootTag

/-!
Templates as trees of texts, comments, script blocks and elements. The comments and then the script blocks are taken out
of a printed tree, at whatever depth they stand, and what is left is the same tree printed without them: no pattern that
takes them out begins at a tag of an element.
-/
namespace ComponentPages

namespace RootElement

open Fetch (PlainHead)

/-- Whether a head is made of attributes and gaps, with no angle bracket in it that could open a tag. -/
def isClosedHead (head : PlainHead) : Bool :=
  head.attributes.all PlainAttribute.isSound && head.tail.all isGapPart && !head.print.elem '<'

/-- The name of an element, unless it begins like that of a script or a style. -/
def isNodeName (name : Text) : Bool :=
  name.head?.any Char.isAlpha && name.all isSlugPart && (Text.afterFolded? "script" name).isNone &&
    (Text.afterFolded? "style" name).isNone

/-- An element without a closing tag: it closes itself, or its name is that of one that is never closed. -/
def standsAlone (name : Text) (head : PlainHead) : Bool :=
  TagHead.closesItself head.print || voidNames.contains (Text.lower name)

/-- The front of a script's closing tag, in any letter case. -/
def scriptEnd : Pattern Unit := fun text => (Text.afterFolded? "</script" text).map ((), ·)

/-- A script block, with the name as each of its two tags spells it. -/
structure ScriptBlock where
  opened : Text := "script"
  head : PlainHead := ⟨[], []⟩
  source : Text
  closed : Text := "script"
  gap : Text := []
deriving DecidableEq

namespace ScriptBlock

def print (block : ScriptBlock) : Text :=
  openTag block.opened block.head.print ++ (block.source ++ Tag.closeTag block.closed block.gap)

def isSound (block : ScriptBlock) : Bool :=
  Text.afterFolded? "script" block.opened == some [] && isClosedHead block.head && decide (¬ "<!--" <:+: block.source) &&
    (Pattern.seek? scriptEnd block.source).isNone && Text.afterFolded? "script" block.closed == some [] &&
      block.gap.all isBlank

end ScriptBlock

/-- A template as a tree. Each node comes with the nodes behind it. -/
inductive Nodes where
  | done
  | words (text : Text) (rest : Nodes)
  | comment (inside : Text) (rest : Nodes)
  | script (block : ScriptBlock) (rest : Nodes)
  | single (name : Text) (head : PlainHead) (rest : Nodes)
  | paired (name : Text) (head : PlainHead) (inner : Nodes) (gap : Text) (rest : Nodes)
deriving DecidableEq

/-- A node at the top that counts for the root. -/
inductive Counted where
  | words (text : Text)
  | element (name : Text)
deriving DecidableEq

namespace Nodes

/-- The text of a tree, for given spellings of its comments and scripts. -/
def printWith (comment : Text → Text) (script : ScriptBlock → Text) : Nodes → Text
  | .done => []
  | .words text rest => text ++ rest.printWith comment script
  | .comment inside rest => comment inside ++ rest.printWith comment script
  | .script block rest => script block ++ rest.printWith comment script
  | .single name head rest => openTag name head.print ++ rest.printWith comment script
  | .paired name head inner gap rest =>
    openTag name head.print ++ (inner.printWith comment script ++ (Tag.closeTag name gap ++ rest.printWith comment script))

def print : Nodes → Text := printWith printComment ScriptBlock.print

/-- The text without the comments and scripts. -/
def bare : Nodes → Text := printWith (fun _ => []) fun _ => []

def isSound : Nodes → Bool
  | .done => true
  | .words text rest => !text.elem '<' && rest.isSound
  | .comment inside rest => decide (¬ "--" <:+: inside) && rest.isSound
  | .script block rest => block.isSound && rest.isSound
  | .single name head rest => isNodeName name && isClosedHead head && standsAlone name head && rest.isSound
  | .paired name head inner gap rest =>
    isNodeName name && isClosedHead head && !standsAlone name head && inner.isSound && gap.all isBlank && rest.isSound

/-- What is left at the top without comments, scripts and white space. -/
def counted : Nodes → List Counted
  | .done => []
  | .words text rest => if text.all isBlank then rest.counted else .words text :: rest.counted
  | .comment _ rest | .script _ rest => rest.counted
  | .single name _ rest | .paired name _ _ _ rest => .element name :: rest.counted

end Nodes

/-! ### Names and heads -/

theorem free_of_elem {text : Text} (angleless : (!text.elem '<') = true) : ∀ c ∈ text, c ≠ '<' := by
  rintro c member rfl
  rw [List.elem_eq_true_of_mem member] at angleless
  cases angleless

theorem isTagHead_of_isClosedHead {head : PlainHead} (closed : isClosedHead head = true) : IsTagHead head.print := by
  simp only [isClosedHead, Bool.and_eq_true, List.all_eq_true] at closed
  obtain ⟨⟨attributes, gap⟩, free⟩ := closed
  exact PlainHead.isTagHead_of_free attributes gap (free_of_elem free)

namespace IsNodeName

variable {name : Text} (named : isNodeName name = true)

include named

theorem begins : ∃ c rest, name = c :: rest ∧ c.isAlpha = true ∧ ∀ d ∈ rest, isSlugPart d = true := by
  simp only [isNodeName, Bool.and_eq_true, List.all_eq_true] at named
  obtain ⟨⟨⟨first, parts⟩, -⟩, -⟩ := named
  cases name with
  | nil => cases first
  | cons c rest => exact ⟨c, rest, rfl, first, fun d member => parts d (List.mem_cons_of_mem c member)⟩

theorem isSlug : Tag.IsSlug name := by
  obtain ⟨c, rest, rfl, -⟩ := begins named
  simp only [isNodeName, Bool.and_eq_true, List.all_eq_true] at named
  exact ⟨List.cons_ne_nil c rest, named.1.1.2⟩

theorem unread : Text.afterFolded? "script" name = none ∧ Text.afterFolded? "style" name = none := by
  simp only [isNodeName, Bool.and_eq_true, Option.isNone_iff_eq_none] at named
  exact ⟨named.1.2, named.2⟩

end IsNodeName

/-! ### Patterns that pass the tags of elements -/

/-- A pattern that begins at an angle bracket, but at no tag of an element. -/
structure Skips {α : Type} (read : Pattern α) : Prop where
  angle : ∀ c text, c ≠ '<' → read (c :: text) = none
  opening : ∀ {name behind}, isNodeName name = true → Tag.nameEnds behind = true → read ('<' :: (name ++ behind)) = none
  closing : ∀ text, read ('<' :: '/' :: text) = none

namespace Skips

variable {α : Type} {read : Pattern α} (skips : Skips read)

include skips

theorem free {text : Text} (angleless : ∀ c ∈ text, c ≠ '<') (rest : Text) : Pattern.Passes read text rest :=
  Pattern.passes_of_begins rest fun c member text => skips.angle c text (angleless c member)

theorem openTag {name head : Text} (named : isNodeName name = true) (isHead : IsTagHead head) (rest : Text) :
    Pattern.Passes read (openTag name head) rest := by
  have front := skips.opening named (isHead.nameEnds_append rest)
  rw [← openTag_append] at front
  exact Pattern.passes_cons_iff.2 ⟨front, skips.free (free_tag (IsNodeName.isSlug named).free isHead) rest⟩

theorem closeTag {name gap : Text} (free : ∀ c ∈ name, c ≠ '<') (space : IsSpace gap) (rest : Text) :
    Pattern.Passes read (Tag.closeTag name gap) rest :=
  Pattern.passes_cons_iff.2 ⟨skips.closing _, skips.free (Tag.free_closeTag free space) rest⟩

end Skips

theorem skips_comment : Skips comment where
  angle c text other := comment_of_ne other text
  opening named ends := by
    obtain ⟨c, rest, rfl, letter, -⟩ := IsNodeName.begins named
    refine comment_tag ?_ _
    rintro rfl
    exact absurd letter (by decide)
  closing text := comment_tag (by decide) text

theorem skips_named : Skips (Block.named "script") where
  angle c text other := named_of_ne other "script" text
  opening named ends := by
    rename_i name behind
    have unopened : Block.opening? "script" ('<' :: (name ++ behind)) = none := by
      change (Text.afterFolded? "script" (name ++ behind)).bind _ = none
      rw [Fetch.afterFolded?_name (by decide) (IsNodeName.unread named).1 ends, Option.bind_none]
    rw [Block.named, unopened]
    rfl
  closing text := rfl

theorem skips_guarded : Skips Block.guarded where
  angle c text other := Block.guarded_of_front (Block.front_of_ne c text other)
  opening named ends := by
    obtain ⟨script, style⟩ := IsNodeName.unread named
    exact Block.guarded_of_front (Block.front_eq_none_iff.2
      ⟨Fetch.afterFolded?_name (by decide) script ends, Fetch.afterFolded?_name (by decide) style ends⟩)
  closing text := Block.guarded_of_front (Block.front_eq_none_iff.2 ⟨rfl, rfl⟩)

/-! ### Comments and scripts are taken out -/

theorem isComment_of_dashless {inside : Text} (free : ¬ "--" <:+: inside) : IsComment inside := by
  intro before c after whole
  refine Option.map_eq_none_iff.2 (Option.eq_none_iff_forall_ne_some.2 fun rest found => free ?_)
  have begins : c :: (after ++ "-->") = '-' :: '-' :: '>' :: rest := Text.eq_of_after? found
  obtain ⟨rfl, later⟩ := List.cons.inj begins
  cases after with
  | nil => cases later
  | cons d after =>
    obtain ⟨rfl, -⟩ := List.cons.inj later
    exact ⟨before, after, by rw [whole]; simp⟩

theorem absent_commentStart {text : Text} (free : ¬ "<!--" <:+: text) : Pattern.Absent commentStart text := by
  intro before c after whole
  refine Option.map_eq_none_iff.2 (Option.eq_none_iff_forall_ne_some.2 fun rest found => free ?_)
  rw [List.append_nil] at found
  exact ⟨before, rest, by rw [whole, Text.eq_of_after? found, List.append_assoc]⟩

/-- A text without the front of a script's closing tag has no such tag. -/
theorem absent_closing {source : Text} (free : Pattern.seek? scriptEnd source = none) :
    Pattern.Absent (Block.closing? (Text.afterFolded? "script")) source := by
  intro before c after whole
  have here := Option.map_eq_none_iff.1 (Pattern.absent_of_seek? free before c after whole)
  rw [Block.closing?]
  cases slash : Text.after? "</" (c :: after ++ []) with
  | none => rfl
  | some named =>
    rw [Text.eq_of_after? slash] at here
    change Text.afterFolded? "script" named = none at here
    rw [Option.bind_eq_bind, Option.bind_some, here]
    rfl

theorem free_of_afterFolded? {name : Text} (script : Text.afterFolded? "script" name = some []) : ∀ c ∈ name, c ≠ '<' := by
  obtain ⟨written, whole, letters⟩ := Text.eq_of_afterFolded? script
  rw [List.append_nil] at whole
  subst whole
  rintro c member rfl
  obtain ⟨letter, listed, reads⟩ := Block.exists_of_matches letters member
  have foreign : ∀ letter ∈ ("script" : Text), matchesLetter letter '<' = false := by decide
  rw [foreign letter listed] at reads
  cases reads

namespace ScriptBlock

variable {block : ScriptBlock}

theorem isSound_iff : block.isSound = true ↔
    Text.afterFolded? "script" block.opened = some [] ∧ isClosedHead block.head = true ∧ ¬ "<!--" <:+: block.source ∧
      Pattern.seek? scriptEnd block.source = none ∧ Text.afterFolded? "script" block.closed = some [] ∧
        IsSpace block.gap := by
  simp only [isSound, Bool.and_eq_true, beq_iff_eq, decide_eq_true_eq, Option.isNone_iff_eq_none, List.all_eq_true, IsSpace,
    and_assoc]

variable (sound : block.isSound = true)

include sound

/-- No comment begins in a script block. -/
theorem passes_comment (rest : Text) : Pattern.Passes comment block.print rest := by
  obtain ⟨opened, head, uncommented, -, closed, space⟩ := isSound_iff.1 sound
  have isHead := isTagHead_of_isClosedHead head
  have tagged (rest : Text) : Pattern.Passes comment (openTag block.opened block.head.print) rest := by
    refine Pattern.passes_cons_iff.2 ⟨?_, skips_comment.free (free_tag (free_of_afterFolded? opened) isHead) rest⟩
    obtain ⟨c, later, begins⟩ : ∃ c later, block.opened = c :: later := by
      refine List.exists_cons_of_ne_nil fun empty => ?_
      rw [empty] at opened
      cases opened
    rw [begins] at opened ⊢
    refine comment_tag ?_ _
    rintro rfl
    cases opened
  rw [print]
  refine Pattern.passes_append_iff.2 ⟨tagged _, Pattern.passes_append_iff.2 ⟨?_, ?_⟩⟩
  · exact RootElement.passes_comment (absent_commentStart uncommented) _
  · exact skips_comment.closeTag (free_of_afterFolded? closed) space rest

/-- What stands behind the first `>` of the opening tag is read as the contents. -/
theorem opens (rest : Text) : ∃ behind, (∀ c ∈ behind, c ≠ '<') ∧ Block.opening? "script" (block.print ++ rest) =
    some (block.opened, behind ++ (block.source ++ (Tag.closeTag block.closed block.gap ++ rest))) := by
  obtain ⟨opened, head, -⟩ := isSound_iff.1 sound
  have isHead := isTagHead_of_isClosedHead head
  obtain ⟨before, behind, cut⟩ := @Text.exists_of_mem_cut '>' (block.head.print ++ ['>']) (by simp)
  refine ⟨behind, ?_, ?_⟩
  · intro c member
    have listed : c ∈ block.head.print ++ ['>'] := by
      rw [Text.eq_of_cut? cut]
      exact List.mem_append_right before (List.mem_cons_of_mem '>' member)
    rcases List.mem_append.1 listed with inHead | last
    · exact isHead.free c inHead
    · rw [List.mem_singleton.1 last]
      decide
  · let after : Text := block.source ++ (Tag.closeTag block.closed block.gap ++ rest)
    have whole : block.print ++ rest = '<' :: (block.opened ++ (block.head.print ++ ['>'] ++ after)) := by
      simp [print, openTag_append, after]
    have size : block.opened.length = ("script" : Text).length := by
      obtain ⟨written, same, letters⟩ := Text.eq_of_afterFolded? opened
      rw [same, List.append_nil, letters.length_eq]
    have ended : (block.head.print ++ ['>'] ++ after).head?.any isWord = false := by
      obtain ⟨c, more, begins, stops⟩ := exists_of_nameEnds (isHead.nameEnds_append after)
      rw [isSlugPart, Bool.or_eq_false_iff] at stops
      rw [List.append_assoc, List.singleton_append, begins]
      exact stops.1
    rw [whole]
    change (Text.afterFolded? "script" (block.opened ++ (block.head.print ++ ['>'] ++ after))).bind _ = _
    rw [Text.afterFolded?_append_of_some opened, Option.bind_some, List.nil_append, ended,
      if_neg Bool.false_ne_true, Text.cut?_append_of_some cut, ← size, List.take_left]
    rfl

/-- A script block is read up to its closing tag. A `>` in a quotation may end the opening tag, and then the rest of that
tag is read with the source. -/
theorem named_print (rest : Text) : ∃ contents, Block.named "script" (block.print ++ rest) = some (contents, rest) := by
  obtain ⟨-, -, -, unclosed, closed, space⟩ := isSound_iff.1 sound
  obtain ⟨behind, free, opened⟩ := opens sound rest
  have passes : Pattern.Passes (Block.closing? (Text.afterFolded? "script")) (behind ++ block.source)
      (Tag.closeTag block.closed block.gap ++ rest) := by
    refine Pattern.passes_append_iff.2 ⟨?_, ?_⟩
    · exact Pattern.passes_of_begins _ fun c member text => Block.closing?_of_ne _ c text (free c member)
    · refine Block.passes_closing? (.inl rfl) (absent_closing unclosed) fun c first => ?_
      exact (Option.some.inj first).symm
  have closes : Block.closing? (Text.afterFolded? "script") (Tag.closeTag block.closed block.gap ++ rest) =
      some ((), rest) := by
    have whole : Tag.closeTag block.closed block.gap ++ rest = "</" ++ (block.closed ++ (block.gap ++ '>' :: rest)) := by
      simp [Tag.closeTag]
    have angle := Text.trimLeft_append_cons space (c := '>') (by decide) rest
    rw [Block.closing?, whole, Text.after?_append, Option.bind_eq_bind, Option.bind_some,
      Text.afterFolded?_append_of_some closed, Option.bind_some, List.nil_append, angle]
    rfl
  have found : Pattern.seek? (Block.closing? (Text.afterFolded? "script"))
      (behind ++ (block.source ++ (Tag.closeTag block.closed block.gap ++ rest))) =
        some (behind ++ block.source, (), rest) := by
    rw [← List.append_assoc, Pattern.seek?_append passes, Pattern.seek?_of_read (by simp [Tag.closeTag]) closes, Option.map_some]
    dsimp only
    rw [List.append_nil]
  refine ⟨behind ++ block.source, ?_⟩
  rw [Block.named, opened, Option.bind_eq_bind, Option.bind_some]
  dsimp only
  rw [found]
  rfl

end ScriptBlock

namespace Nodes

variable {nodes : Nodes}

theorem isSound_single {name : Text} {head : PlainHead} {rest : Nodes} :
    (single name head rest).isSound = true ↔
      isNodeName name = true ∧ isClosedHead head = true ∧ standsAlone name head = true ∧ rest.isSound = true := by
  simp only [isSound, Bool.and_eq_true, and_assoc]

theorem isSound_paired {name gap : Text} {head : PlainHead} {inner rest : Nodes} :
    (paired name head inner gap rest).isSound = true ↔
      isNodeName name = true ∧ isClosedHead head = true ∧ standsAlone name head = false ∧ inner.isSound = true ∧
        IsSpace gap ∧ rest.isSound = true := by
  simp only [isSound, Bool.and_eq_true, Bool.not_eq_true', List.all_eq_true, IsSpace, and_assoc]

section Erasing

variable {α : Type} {read : Pattern α} {comment comment' : Text → Text} {script script' : ScriptBlock → Text}

/-- What a pattern takes out of a tree is what it takes out of the comments and scripts. -/
theorem erase_printWith (skips : Skips read)
    (comments : ∀ inside, ¬ "--" <:+: inside → ∀ rest,
      Pattern.erase read (comment inside ++ rest) = comment' inside ++ Pattern.erase read rest)
    (scripts : ∀ block : ScriptBlock, block.isSound = true → ∀ rest,
      Pattern.erase read (script block ++ rest) = script' block ++ Pattern.erase read rest)
    (sound : nodes.isSound = true) (rest : Text) :
    Pattern.erase read (nodes.printWith comment script ++ rest) =
      nodes.printWith comment' script' ++ Pattern.erase read rest := by
  have kept {piece rest : Text} (passes : Pattern.Passes read piece rest) :
      Pattern.erase read (piece ++ rest) = piece ++ Pattern.erase read rest := Pattern.replace_append passes _
  induction nodes generalizing rest with
  | done => rfl
  | words text later ih =>
    rw [isSound, Bool.and_eq_true] at sound
    rw [printWith, printWith, List.append_assoc, kept (skips.free (free_of_elem sound.1) _), ih sound.2, List.append_assoc]
  | comment inside later ih =>
    rw [isSound, Bool.and_eq_true, decide_eq_true_eq] at sound
    rw [printWith, printWith, List.append_assoc, comments inside sound.1, ih sound.2, List.append_assoc]
  | script block later ih =>
    rw [isSound, Bool.and_eq_true] at sound
    rw [printWith, printWith, List.append_assoc, scripts block sound.1, ih sound.2, List.append_assoc]
  | single name head later ih =>
    obtain ⟨named, closed, -, laterSound⟩ := isSound_single.1 sound
    rw [printWith, printWith, List.append_assoc, kept (skips.openTag named (isTagHead_of_isClosedHead closed) _), ih laterSound,
      List.append_assoc]
  | paired name head inner gap later ihInner ihLater =>
    obtain ⟨named, closed, -, innerSound, space, laterSound⟩ := isSound_paired.1 sound
    simp only [printWith, List.append_assoc]
    rw [kept (skips.openTag named (isTagHead_of_isClosedHead closed) _), ihInner innerSound,
      kept (skips.closeTag (IsNodeName.isSlug named).free space _), ihLater laterSound]

end Erasing

/-- Without comments and scripts a printed tree is the tree printed without them. -/
theorem erase_print (sound : nodes.isSound = true) :
    Pattern.erase (Block.named "script") (Pattern.erase RootElement.comment nodes.print) = nodes.bare := by
  have uncommented : Pattern.erase RootElement.comment (nodes.printWith printComment ScriptBlock.print ++ []) =
      nodes.printWith (fun _ => []) ScriptBlock.print ++ Pattern.erase RootElement.comment [] := by
    refine erase_printWith skips_comment (fun inside free rest => ?_) (fun block blockSound rest => ?_) sound []
    · exact Pattern.replace_hit (List.cons_ne_nil '<' _) (comment_print (isComment_of_dashless free) rest) _
    · exact Pattern.replace_append (ScriptBlock.passes_comment blockSound rest) _
  have unscripted : Pattern.erase (Block.named "script") (nodes.printWith (fun _ => []) ScriptBlock.print ++ []) =
      nodes.printWith (fun _ => []) (fun _ => []) ++ Pattern.erase (Block.named "script") [] := by
    refine erase_printWith skips_named (fun inside free rest => rfl) (fun block blockSound rest => ?_) sound []
    obtain ⟨contents, reads⟩ := ScriptBlock.named_print blockSound rest
    exact Pattern.replace_hit (List.cons_ne_nil '<' _) reads _
  rw [Pattern.erase_of_absent (Pattern.passes_nil _ _), List.append_nil, List.append_nil] at uncommented unscripted
  rw [print, uncommented, unscripted, bare]

/-- A pattern that begins at no tag of an element begins nowhere in what is left. -/
theorem passes_bare {α : Type} {read : Pattern α} (skips : Skips read) (sound : nodes.isSound = true) (rest : Text) :
    Pattern.Passes read nodes.bare rest := by
  rw [bare]
  induction nodes generalizing rest with
  | done => exact Pattern.passes_nil read rest
  | words text later ih =>
    rw [isSound, Bool.and_eq_true] at sound
    exact Pattern.passes_append_iff.2 ⟨skips.free (free_of_elem sound.1) _, ih sound.2 rest⟩
  | comment inside later ih =>
    rw [isSound, Bool.and_eq_true] at sound
    exact ih sound.2 rest
  | script block later ih =>
    rw [isSound, Bool.and_eq_true] at sound
    exact ih sound.2 rest
  | single name head later ih =>
    obtain ⟨named, closed, -, laterSound⟩ := isSound_single.1 sound
    exact Pattern.passes_append_iff.2
      ⟨skips.openTag named (isTagHead_of_isClosedHead closed) _, ih laterSound rest⟩
  | paired name head inner gap later ihInner ihLater =>
    obtain ⟨named, closed, -, innerSound, space, laterSound⟩ := isSound_paired.1 sound
    refine Pattern.passes_append_iff.2 ⟨skips.openTag named (isTagHead_of_isClosedHead closed) _, ?_⟩
    refine Pattern.passes_append_iff.2 ⟨ihInner innerSound _, ?_⟩
    exact Pattern.passes_append_iff.2 ⟨skips.closeTag (IsNodeName.isSlug named).free space _, ihLater laterSound rest⟩

end Nodes

end RootElement

end ComponentPages
