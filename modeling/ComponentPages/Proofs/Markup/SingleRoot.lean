import ComponentPages.Proofs.Markup.Nodes

/-!
Which trees have a single root. Behind the opening tag of a root the closing tag is found by counting the tags of that
name, and in a tree every tag that raises the count has a tag behind it that lowers it again; so the element that is
recognised is the one in the tree, and what is left behind it decides.
-/
namespace ComponentPages

namespace RootElement

open Fetch (PlainHead)

/-! ### The closing tag of the root -/

namespace Nodes

variable {nodes : Nodes}

theorem bare_paired (name : Text) (head : PlainHead) (inner : Nodes) (gap : Text) (later : Nodes) :
    (paired name head inner gap later).bare =
      openTag name head.print ++ (inner.bare ++ (Tag.closeTag name gap ++ later.bare)) := rfl

/-- A tree leaves the depth as it is, whatever the name that is searched for. -/
theorem closeFrom?_bare (sound : nodes.isSound = true) {name : Text} (named : Tag.IsSlug name)
    (closes : voidNames.contains (Text.lower name) = false) {depth : Nat} (inside : 1 ≤ depth) (offset : Nat)
    (rest : Text) :
    Tag.closeFrom? [] name depth offset (nodes.bare ++ rest) =
      Tag.closeFrom? [] name depth (offset + nodes.bare.length) rest := by
  induction nodes generalizing depth offset rest with
  | done => rfl
  | words text later ih =>
    rw [isSound, Bool.and_eq_true] at sound
    change Tag.closeFrom? [] name depth offset ((text ++ later.bare) ++ rest) =
      Tag.closeFrom? [] name depth (offset + (text ++ later.bare).length) rest
    rw [List.append_assoc, Tag.closeFrom?_free (free_of_elem sound.1), ih sound.2 inside, List.length_append, Nat.add_assoc]
  | comment _ later ih | script _ later ih =>
    rw [isSound, Bool.and_eq_true] at sound
    exact ih sound.2 inside offset rest
  | single other head later ih =>
    obtain ⟨otherNamed, closed, alone, laterSound⟩ := isSound_single.1 sound
    -- A tag of the name that is searched for closes itself, since that name is not one that is never closed.
    have level : ¬(other = name ∧ TagHead.closesItself head.print = false) := by
      rintro ⟨rfl, opens⟩
      rw [standsAlone, opens, closes] at alone
      cases alone
    change Tag.closeFrom? [] name depth offset ((openTag other head.print ++ later.bare) ++ rest) =
      Tag.closeFrom? [] name depth (offset + (openTag other head.print ++ later.bare).length) rest
    rw [List.append_assoc, Tag.closeFrom?_openTag named (IsNodeName.isSlug otherNamed) (isTagHead_of_isClosedHead closed),
      if_neg level, ih laterSound inside, List.length_append, Nat.add_assoc]
  | paired other head inner gap later ihInner ihLater =>
    obtain ⟨otherNamed, closed, pair, innerSound, space, laterSound⟩ := isSound_paired.1 sound
    have slug := IsNodeName.isSlug otherNamed
    have opens : TagHead.closesItself head.print = false := (Bool.or_eq_false_iff.1 pair).1
    have size : offset + (paired other head inner gap later).bare.length =
        offset + (openTag other head.print).length + inner.bare.length + (Tag.closeTag other gap).length +
          later.bare.length := by
      simp only [bare_paired, List.length_append]
      omega
    rw [size, bare_paired, List.append_assoc, List.append_assoc, List.append_assoc,
      Tag.closeFrom?_openTag named slug (isTagHead_of_isClosedHead closed)]
    -- The pair raises the depth for what is in it if it has the name that is searched for, and lowers it again.
    by_cases same : other = name
    · rw [if_pos ⟨same, opens⟩, ihInner innerSound (by omega), Tag.closeFrom?_closeTag named slug space, if_pos same,
        if_neg (by omega), Nat.add_sub_cancel, ihLater laterSound inside]
    · rw [if_neg fun both => same both.1, ihInner innerSound inside, Tag.closeFrom?_closeTag named slug space, if_neg same,
        ihLater laterSound inside]

end Nodes

section Element

variable {name : Text} {head : PlainHead} (named : isNodeName name = true) (closed : isClosedHead head = true)

include named closed

theorem afterElement?_openTag (rest : Text) :
    afterElement? (openTag name head.print ++ rest) =
      if standsAlone name head then some rest
      else (Tag.close? (openTag name head.print ++ rest) name (openTag name head.print).length).map fun close =>
        (openTag name head.print ++ rest).drop close.stop := by
  have isHead := isTagHead_of_isClosedHead closed
  have opening := openingName_append (IsNodeName.begins named) (isHead.nameEnds_append rest)
  rw [← openTag_append] at opening
  have bodyStart : (openTag name head.print ++ rest).length - rest.length = (openTag name head.print).length := by
    rw [List.length_append, Nat.add_sub_cancel]
  rw [afterElement?, opening, Option.bind_eq_bind, Option.bind_some]
  dsimp only
  rw [isHead.reads, Option.bind_eq_bind, Option.bind_some]
  dsimp only
  rw [bodyStart, standsAlone, Option.map_eq_bind]
  rfl

theorem afterElement?_paired (pair : standsAlone name head = false) {inner : Nodes} (sound : inner.isSound = true)
    {gap : Text} (space : IsSpace gap) {rest : Text}
    (blockless : Block.spans (openTag name head.print ++ (inner.bare ++ (Tag.closeTag name gap ++ rest))) = []) :
    afterElement? (openTag name head.print ++ (inner.bare ++ (Tag.closeTag name gap ++ rest))) = some rest := by
  have slug := IsNodeName.isSlug named
  have close : Tag.close? (openTag name head.print ++ (inner.bare ++ (Tag.closeTag name gap ++ rest))) name
      (openTag name head.print).length = some ⟨(openTag name head.print).length + inner.bare.length,
        (openTag name head.print).length + inner.bare.length + (Tag.closeTag name gap).length⟩ := by
    rw [Tag.close?, blockless, List.drop_left,
      Nodes.closeFrom?_bare sound slug (Bool.or_eq_false_iff.1 pair).2 (Nat.le_refl 1),
      Tag.closeFrom?_closeTag slug slug space, if_pos rfl, if_pos (Nat.le_refl 1)]
  rw [afterElement?_openTag named closed, pair, if_neg Bool.false_ne_true, close, Option.map_some, ← List.length_append,
    ← List.length_append, ← List.append_assoc, ← List.append_assoc, List.drop_left]

end Element

/-! ### What is recognised -/

/-- Whether a text is one element, not counting white space. -/
def isElement (text : Text) : Bool :=
  match afterElement? (Text.trim text) with
  | some rest => rest.all isBlank
  | none => false

/-- A text that begins with a tag and ends in one keeps both when it is trimmed. -/
theorem trim_tags (inside rest : Text) :
    Text.trim ('<' :: inside ++ ['>'] ++ rest) = '<' :: inside ++ ['>'] ++ Text.trimRight rest := by
  have ended : Text.trimRight (inside ++ ['>']) = inside ++ ['>'] := Text.trimRight_concat_of_not_blank (by decide) inside
  rw [List.cons_append, List.cons_append, List.cons_append, Stylesheet.trim_cons (by decide), Text.trimRight_append_of_ended ended]

/-- Text in front that is not white space is no element. -/
theorem isElement_words {text : Text} (free : ∀ c ∈ text, c ≠ '<') (solid : text.all isBlank = false) (rest : Text) :
    isElement (text ++ rest) = false := by
  obtain ⟨space, blank, whole⟩ := Text.exists_eq_trimLeft text
  have nonempty : Text.trimLeft text ≠ [] := by
    intro empty
    rw [empty, List.append_nil] at whole
    rw [whole, List.all_eq_true.2 blank] at solid
    cases solid
  obtain ⟨c, more, begins⟩ := List.exists_cons_of_ne_nil nonempty
  have first : isBlank c = false := stop_of_dropWhile begins
  have other : c ≠ '<' := free c (by rw [whole, begins]; simp)
  have front : Text.trim (text ++ rest) = c :: Text.trimRight (more ++ rest) := by
    rw [whole, begins, List.append_assoc, Text.trim_append_left blank, List.cons_append, Stylesheet.trim_cons first]
  have unread : openingName (c :: Text.trimRight (more ++ rest)) = none := by
    change ((if '<' = c then some _ else none).bind _) = none
    rw [if_neg other.symm, Option.bind_none]
  rw [isElement, front, afterElement?, unread]
  rfl

namespace Nodes

variable {nodes : Nodes}

/-- White space is all that is left of a tree just when nothing in it counts. -/
theorem all_isBlank_bare (nodes : Nodes) : nodes.bare.all isBlank = true ↔ nodes.counted = [] := by
  induction nodes with
  | done => exact iff_of_true rfl rfl
  | words text later ih =>
    change (text ++ later.bare).all isBlank = true ↔ (if text.all isBlank then later.counted else _) = []
    rw [List.all_append, Bool.and_eq_true]
    split
    · next blank => rw [ih, and_iff_right blank]
    · next solid => exact iff_of_false (fun both => solid both.1) (List.cons_ne_nil _ _)
  | comment _ later ih | script _ later ih => exact ih
  | single name head later _ | paired name head inner gap later _ _ =>
    refine iff_of_false (fun blank => ?_) (List.cons_ne_nil _ _)
    exact absurd (List.all_eq_true.1 blank '<' List.mem_cons_self) (by decide)

theorem spans_of_begins (sound : nodes.isSound = true) {text : Text} (begins : text <+: nodes.bare) :
    Block.spans text = [] := by
  obtain ⟨behind, whole⟩ := begins
  have absent : Pattern.Absent Block.guarded ([] ++ text ++ behind) := by
    rw [List.nil_append, whole]
    exact passes_bare skips_guarded sound []
  exact Block.spans_of_absent (Block.persists_guarded.absent_part absent)

/-- An element at the front is the root if nothing that counts is behind it. -/
theorem isElement_iff {text : Text} {later : Nodes} (name : Text)
    (after : afterElement? (Text.trim text) = some (Text.trimRight later.bare)) :
    isElement text = true ↔ ∃ root, Counted.element name :: later.counted = [.element root] := by
  rw [isElement, after]
  dsimp only
  rw [Text.all_isBlank_trimRight, all_isBlank_bare]
  constructor
  · intro nothing
    exact ⟨name, by rw [nothing]⟩
  · rintro ⟨root, same⟩
    exact (List.cons.inj same).2

/-- The text without comments and scripts is one element just when the tree has one at its top. -/
theorem isElement_bare (sound : nodes.isSound = true) :
    isElement nodes.bare = true ↔ ∃ name, nodes.counted = [.element name] := by
  induction nodes with
  | done => exact iff_of_false (by decide) (by simp [counted])
  | words text later ih =>
    rw [isSound, Bool.and_eq_true] at sound
    change isElement (text ++ later.bare) = true ↔
      ∃ name, (if text.all isBlank then later.counted else .words text :: later.counted) = [Counted.element name]
    split
    · next blank =>
      rw [isElement, Text.trim_append_left (List.all_eq_true.1 blank), ← isElement]
      exact ih sound.2
    · next solid =>
      rw [isElement_words (free_of_elem sound.1) (Bool.eq_false_iff.2 solid)]
      simp
  | comment _ later ih | script _ later ih =>
    rw [isSound, Bool.and_eq_true] at sound
    exact ih sound.2
  | single name head later _ =>
    obtain ⟨named, closed, alone, -⟩ := isSound_single.1 sound
    refine isElement_iff name ?_
    change afterElement? (Text.trim (openTag name head.print ++ later.bare)) = _
    have trimmed : Text.trim (openTag name head.print ++ later.bare) = openTag name head.print ++ Text.trimRight later.bare :=
      trim_tags (name ++ head.print) later.bare
    rw [trimmed, afterElement?_openTag named closed, if_pos alone]
  | paired name head inner gap later _ _ =>
    obtain ⟨named, closed, pair, innerSound, space, -⟩ := isSound_paired.1 sound
    have ends : openTag name head.print ++ (inner.bare ++ Tag.closeTag name gap) =
        '<' :: (name ++ head.print ++ '>' :: (inner.bare ++ '<' :: '/' :: (name ++ gap))) ++ ['>'] := by
      simp [openTag, Tag.closeTag]
    have split (rest : Text) : openTag name head.print ++ (inner.bare ++ (Tag.closeTag name gap ++ rest)) =
        openTag name head.print ++ (inner.bare ++ Tag.closeTag name gap) ++ rest := by simp
    have trimmed : Text.trim (paired name head inner gap later).bare =
        openTag name head.print ++ (inner.bare ++ (Tag.closeTag name gap ++ Text.trimRight later.bare)) := by
      rw [bare_paired, split, split, ends, trim_tags]
    refine isElement_iff name ?_
    rw [trimmed]
    refine afterElement?_paired named closed pair innerSound space (spans_of_begins sound ?_)
    rw [bare_paired, split, split]
    exact (List.prefix_append_right_inj _).2 (Text.trimRight_prefix later.bare)

end Nodes

/-- The check of the root accepts a template just when, without comments, script blocks and white space, there is one node
at its top and it is an element. -/
theorem isSingle_iff {nodes : Nodes} (sound : nodes.isSound = true) :
    isSingle nodes.print = true ↔ ∃ name, nodes.counted = [.element name] := by
  have same : isSingle nodes.print = isElement nodes.bare := congrArg isElement (nodes.erase_print sound)
  rw [same]
  exact nodes.isElement_bare sound

/-- A panel in a panel, with a `>` between quotes, an element that is never closed and scripts at two depths. -/
def panel : Nodes :=
  .comment " a <div> " (.words "\n" (.paired "div" ⟨[.quoted " " "title" [] [] '"' "a > b"], []⟩
    (.words "Up " (.single "br" ⟨[], []⟩ (.single "div" ⟨[], [' ', '/']⟩
      (.paired "div" ⟨[.bare " " "hidden"], []⟩ (.script { source := "if (a < b) a = '<div>';" } .done) [] .done))))
    [' '] (.script { opened := "SCRIPT", source := "b", gap := [' '] } (.words "\n" .done))))

theorem isSingle_iff_panel :
    panel.isSound = true ∧ isSingle panel.print = true ∧
      panel.print = "<!-- a <div> -->\n<div title=\"a > b\">Up <br><div /><div hidden><script>if (a < b) a = '<div>';</script>" ++
        "</div></div ><SCRIPT>b</script >\n" :=
  ⟨by decide +kernel, (isSingle_iff (by decide +kernel)).2 ⟨"div", by decide⟩, by decide +kernel⟩

/-- A script whose source has a closing tag in capitals, in front of an element. -/
def closedEarly : Nodes := .script { source := "</SCRIPT>x" } (.paired "div" ⟨[], []⟩ .done [] .done)

/-- The closing tag of a script is read in any letter case, so a source without the one in small letters may end early. -/
theorem isSingle_closedEarly :
    closedEarly.print = "<script></SCRIPT>x</script><div></div>" ∧
      (¬ "</script" <:+: ("</SCRIPT>x" : Text) ∧ ¬ "<!--" <:+: ("</SCRIPT>x" : Text)) ∧
        (Nodes.paired "div" ⟨[], []⟩ .done [] .done).isSound = true ∧ closedEarly.counted = [.element "div"] ∧
          isSingle closedEarly.print = false := by
  decide +kernel

end RootElement

end ComponentPages
