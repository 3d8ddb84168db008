import ComponentPages.Proofs.Markup.RootTag

/-!
Loading a component changes nothing but the opening tag of its root: it takes the declaration of the props out of it and
adds the scope attribute.
-/
namespace ComponentPages

namespace TagHead

/-- A text in which all quotes and braces are closed is passed by. -/
theorem split?_closed {quote : Option Char} {braces : Nat} {text : Text}
    (closed : split? quote braces (text ++ ['>']) = some (text, [])) (rest : Text) :
    split? quote braces (text ++ rest) = (split? none 0 rest).map (prepend text) := by
  induction text generalizing quote braces with
  | nil =>
    cases quote with
    | some quote => cases closed
    | none =>
      obtain rfl : braces = 0 := by
        by_contra open_
        rw [List.nil_append, split?] at closed
        simp [open_, split?] at closed
      exact (map_prepend_nil _).symm
  | cons c text ih =>
    have inner {found : Option (Text × Text)}
        (closed : found.map (fun parts => (c :: parts.1, parts.2)) = some (c :: text, [])) : found = some (text, []) := by
      obtain ⟨⟨head, body⟩, rfl, same⟩ := Option.map_eq_some_iff.1 closed
      simp only [Prod.mk.injEq, List.cons.injEq, true_and] at same
      rw [same.1, same.2]
    cases quote with
    | some quote =>
      rw [List.cons_append, split?] at closed ⊢
      rw [ih (inner closed), Option.map_map]
      rfl
    | none =>
      rw [List.cons_append, split?] at closed ⊢
      split at closed
      · simp at closed
      · next inside =>
        dsimp only at closed ⊢
        rw [if_neg inside, ih (inner closed), Option.map_map]
        rfl

theorem flat_of_isBlank {c : Char} (blank : isBlank c = true) : c ≠ '>' ∧ isQuote c = false ∧ Placeholder.isBrace c = false := by
  have none {d : Char} (solid : isBlank d = false) : (c == d) = false :=
    beq_eq_false_iff_ne.2 fun same => by rw [same, solid] at blank; cases blank
  refine ⟨beq_eq_false_iff_ne.1 (none (by decide)), ?_, ?_⟩
  · rw [isQuote, none (by decide), none (by decide)]
    rfl
  · rw [Placeholder.isBrace, none (by decide), none (by decide)]
    rfl

end TagHead

/-- The attribute that declares props, with the white space in it. -/
structure Declaration where
  space : Text
  afterName : Text
  afterEquals : Text
  quote : Char
  list : Text

namespace Declaration

def print (declaration : Declaration) : Text :=
  declaration.space ++ ("props" ++ (declaration.afterName ++ ("=" ++
    (declaration.afterEquals ++ declaration.quote :: (declaration.list ++ [declaration.quote])))))

structure IsSound (declaration : Declaration) : Prop where
  space : IsSpace declaration.space
  apart : declaration.space ≠ []
  afterName : IsSpace declaration.afterName
  afterEquals : IsSpace declaration.afterEquals
  quotes : isQuote declaration.quote = true
  list : declaration.quote ∉ declaration.list

variable {declaration : Declaration}

theorem listAttribute_print (sound : declaration.IsSound) (rest : Text) :
    Props.listAttribute (declaration.print ++ rest) = some (declaration.list, rest) := by
  let value : Text := declaration.quote :: (declaration.list ++ declaration.quote :: rest)
  let equals : Text := "=" ++ (declaration.afterEquals ++ value)
  let named : Text := "props" ++ (declaration.afterName ++ equals)
  have whole : declaration.print ++ rest = declaration.space ++ named := by simp [print, named, equals, value]
  have blank : (declaration.space ++ named).head?.any isBlank = true := by
    obtain ⟨c, space, begins⟩ := List.exists_cons_of_ne_nil sound.apart
    rw [begins]
    exact sound.space c (by rw [begins]; exact List.mem_cons_self)
  have name : Text.trimLeft (declaration.space ++ named) = named := Text.trimLeft_append_cons sound.space (by decide) _
  have sign : Text.trimLeft (declaration.afterName ++ equals) = equals := Text.trimLeft_append_cons sound.afterName (by decide) _
  have quote : Text.trimLeft (declaration.afterEquals ++ value) = value :=
    Text.trimLeft_append_cons sound.afterEquals (isBlank_of_isQuote sound.quotes) _
  have ends : Text.cut? declaration.quote (declaration.list ++ declaration.quote :: rest) = some (declaration.list, rest) :=
    Text.cut?_append (by rintro c member rfl; exact sound.list member) rest
  rw [whole, Props.listAttribute, blank, name]
  simp only [named, equals, Bool.not_true, Bool.false_eq_true, if_false, Text.after?_append, Option.bind_eq_bind,
    Option.bind_some] at sign ⊢
  rw [sign, Text.after?_append, Option.bind_some, quote]
  dsimp only [value]
  rw [if_pos sound.quotes, ends]

/-- A declaration is passed by in the head of a tag. -/
theorem split?_print (sound : declaration.IsSound) (rest : Text) :
    TagHead.split? none 0 (declaration.print ++ rest) = (TagHead.split? none 0 rest).map (prepend declaration.print) := by
  let front : Text := declaration.space ++ ("props" ++ (declaration.afterName ++ ("=" ++ declaration.afterEquals)))
  have flat : ∀ c ∈ front, c ≠ '>' ∧ isQuote c = false ∧ Placeholder.isBrace c = false := by
    have word : ∀ c ∈ ("props=" : Text), c ≠ '>' ∧ isQuote c = false ∧ Placeholder.isBrace c = false := by decide
    intro c member
    simp only [front, List.mem_append] at member
    rcases member with blank | inName | blank | sign | blank
    · exact TagHead.flat_of_isBlank (sound.space c blank)
    · exact word c (List.mem_append_left ['='] inName)
    · exact TagHead.flat_of_isBlank (sound.afterName c blank)
    · exact word c (List.mem_append_right "props" sign)
    · exact TagHead.flat_of_isBlank (sound.afterEquals c blank)
  have free : ∀ c ∈ declaration.list, c ≠ declaration.quote := by
    rintro c member rfl
    exact sound.list member
  have whole : declaration.print ++ rest =
      front ++ (declaration.quote :: declaration.list ++ declaration.quote :: rest) := by simp [print, front]
  have parts : declaration.print = front ++ (declaration.quote :: declaration.list ++ [declaration.quote]) := by
    simp [print, front]
  rw [whole, TagHead.split?_append flat, TagHead.split?_quoted sound.quotes free, map_prepend_prepend, ← parts]

end Declaration

/-- A component as it is written: what stands in front of its root, the root's opening tag, and the rest. The tag's head may
have a declaration of props in it. -/
structure RootSource where
  front : RootElement.Front
  root : Text
  before : Text
  declared : Option Declaration
  behind : Text
  body : Text

namespace RootSource

def head (source : RootSource) : Text := source.before ++ (source.declared.elim [] Declaration.print ++ source.behind)

/-- The source with a given head in the root's opening tag. -/
def withHead (source : RootSource) (head : Text) : Text :=
  source.front.print ++ '<' :: (source.root ++ (head ++ '>' :: source.body))

def print (source : RootSource) : Text := source.withHead source.head

/-- The head without the declaration. -/
def plainHead (source : RootSource) : Text := source.before ++ source.behind

/-- The list of declared props. -/
def list (source : RootSource) : Text := source.declared.elim [] Declaration.list

/-- The parts of a source are what they are to be. In front of the declaration the head's quotes and braces are closed, and
the declaration is the first one of the source; without one in the root there is none at all. -/
structure IsSound (source : RootSource) : Prop where
  front : source.front.IsSound
  scripts : RootElement.Scripts source.front.uncommented
  root : RootElement.IsRootName source.root (source.head ++ '>' :: source.body)
  apart : Tag.nameEnds (source.plainHead ++ '>' :: source.body) = true
  closed : TagHead.read? (source.before ++ ['>']) = some (source.before, [])
  tag : TagHead.read? (source.head ++ '>' :: source.body) = some (source.head, source.body)
  declared : ∀ declaration ∈ source.declared, declaration.IsSound
  first : match source.declared with
    | some declaration => Pattern.Passes Props.listAttribute (source.front.print ++ '<' :: (source.root ++ source.before))
        (declaration.print ++ (source.behind ++ '>' :: source.body))
    | none => Pattern.Absent Props.listAttribute source.print

variable {source : RootSource}

/-- The props are read off the root's own declaration, which is taken out. -/
theorem split_print (sound : source.IsSound) :
    Props.split source.print = (source.list, source.withHead source.plainHead) := by
  obtain ⟨front, root, before, declared, behind, body⟩ := source
  have first := sound.first
  cases declared with
  | none =>
    rw [Props.split, Pattern.seek?_of_absent first]
    rfl
  | some declaration =>
    have listed := Declaration.listAttribute_print (sound.declared declaration rfl) (behind ++ '>' :: body)
    have found := Pattern.seek?_of_read (by simp [Declaration.print]) listed
    have whole : (RootSource.mk front root before (some declaration) behind body).print =
        front.print ++ '<' :: (root ++ before) ++ (declaration.print ++ (behind ++ '>' :: body)) := by
      simp [print, withHead, head]
    rw [Props.split, whole, Pattern.seek?_append first, found]
    simp [list, withHead, plainHead]

/-- The head of the root's tag after the loading: the scope attribute, and what was there but for the declaration. -/
def scopedHead (source : RootSource) (name : Text) : Text := " " ++ Component.scopeIdFor name ++ "=\"\"" ++ source.plainHead

theorem read?_plainHead (sound : source.IsSound) :
    TagHead.read? (source.plainHead ++ '>' :: source.body) = some (source.plainHead, source.body) := by
  have tag := sound.tag
  have cancel {front text : Text} {found : Option (Text × Text)}
      (read : found.map (prepend front) = some (front ++ text, source.body)) : found = some (text, source.body) := by
    obtain ⟨⟨head, body⟩, rfl, same⟩ := Option.map_eq_some_iff.1 read
    obtain ⟨heads, bodies⟩ := Prod.mk.inj (show (front ++ head, body) = (front ++ text, source.body) from same)
    rw [List.append_cancel_left heads, bodies]
  rw [TagHead.read?, head, List.append_assoc, TagHead.split?_closed sound.closed] at tag
  rw [TagHead.read?, plainHead, List.append_assoc, TagHead.split?_closed sound.closed]
  have inner := cancel tag
  cases declared : source.declared with
  | none =>
    rw [declared] at inner
    change TagHead.split? none 0 (source.behind ++ '>' :: source.body) = _ at inner
    rw [inner]
    rfl
  | some declaration =>
    rw [declared, Option.elim_some, List.append_assoc, Declaration.split?_print (sound.declared declaration declared)] at inner
    rw [cancel inner]
    rfl

theorem read?_scopedHead (sound : source.IsSound) {name : Text} (pascal : isPascalCase name = true) :
    TagHead.read? (source.scopedHead name ++ '>' :: source.body) = some (source.scopedHead name, source.body) := by
  have mention := TagHead.split?_mention (Definition.isSound_scopeMention pascal).1 (source.plainHead ++ '>' :: source.body)
  have print : (⟨Component.scopeIdFor name, .constant '"' []⟩ : Mention).print =
      " " ++ Component.scopeIdFor name ++ "=\"\"" := by
    simp [Mention.print, Written.print]
  rw [print] at mention
  rw [TagHead.read?, scopedHead, List.append_assoc, mention, ← TagHead.read?, read?_plainHead sound]
  rfl

/-- The scope attribute is added to the root's tag. -/
theorem addAttribute_plainHead (sound : source.IsSound) (name : Text) :
    RootElement.addAttribute (source.withHead source.plainHead) (Component.scopeIdFor name) =
      source.withHead (source.scopedHead name) := by
  have root : RootElement.IsRootName source.root (source.plainHead ++ '>' :: source.body) :=
    ⟨sound.root.begins, sound.apart, sound.root.element⟩
  rw [withHead, RootElement.addAttribute_root sound.front root]
  simp [withHead, scopedHead]

end RootSource

/-- Loading keeps a source but for its root's opening tag: the declaration is taken out of the tag's head, and the scope
attribute is put in front of it. -/
theorem Component.load_root {source : RootSource} (sound : source.IsSound) {name raw : Text} {path : Option Text}
    {component : Component} (written : Text.trim raw = source.print) (unstyled : Pattern.Absent (Block.named "style") raw)
    (unmarked : Pattern.Absent Props.propMarker (source.withHead source.plainHead) ∧
      Pattern.Absent Props.drillMarker (source.withHead source.plainHead) ∧
      Pattern.Absent Slot.marker (source.withHead source.plainHead))
    (loaded : load name raw path true = .ok component) :
    (∃ later, RootElement.openingName (RootElement.bare source.print) = some (source.root, later)) ∧
      component.template = source.withHead (source.scopedHead name) ∧
      (∀ head ∈ [source.head, source.scopedHead name],
        TagHead.read? (head ++ '>' :: source.body) = some (head, source.body)) ∧
      (Text.pieces ',' source.list).foldlM Props.addListed [] = .ok component.props := by
  obtain ⟨unpropped, undrilled, unslotted⟩ := unmarked
  have extracted : Stylesheet.extract raw (scopeIdFor name) = (source.print, []) := by
    rw [Stylesheet.extract, Pattern.erase_of_absent unstyled, Pattern.values_of_absent unstyled, written]
    rfl
  have read : Props.read source.print = (do
      let props ← (Text.pieces ',' source.list).foldlM Props.addListed []
      .ok (props, source.withHead source.plainHead)) := by
    rw [Props.read, RootSource.split_print sound]
    dsimp only
    rw [Pattern.values_of_absent unpropped, Pattern.replace_of_absent unpropped, Pattern.replace_of_absent undrilled]
    rfl
  have normal : Slot.normalize (source.withHead source.plainHead) = source.withHead source.plainHead :=
    Pattern.replace_of_absent unslotted _
  have recognised := RootElement.openingName_bare sound.front sound.scripts sound.root
  by_cases pascal : isPascalCase name = true
  · have heads : ∀ head ∈ [source.head, source.scopedHead name],
        TagHead.read? (head ++ '>' :: source.body) = some (head, source.body) := by
      simpa using ⟨sound.tag, RootSource.read?_scopedHead sound pascal⟩
    unfold load at loaded
    simp only [pascal, extracted, read, bind, Except.bind, Bool.not_true, Bool.false_eq_true, if_false] at loaded
    cases listed : (Text.pieces ',' source.list).foldlM Props.addListed [] with
    | error failure =>
      rw [listed] at loaded
      cases loaded
    | ok props =>
      rw [listed] at loaded
      dsimp only at loaded
      rw [normal] at loaded
      cases single : RootElement.isSingle (source.withHead source.plainHead) with
      | false =>
        rw [single] at loaded
        cases loaded
      | true =>
        rw [single] at loaded
        obtain rfl := Except.ok.inj loaded
        exact ⟨recognised, RootSource.addAttribute_plainHead sound name, heads, rfl⟩
  · unfold load at loaded
    rw [Bool.eq_false_of_not_eq_true pascal] at loaded
    cases path with
    | none => cases loaded
    | some path => cases path <;> cases loaded

/-- A card with a comment and a script in front of its root. -/
def cardSource : RootSource where
  front := ⟨[([], " was <b> ")], "\n<script>f();</script>\n"⟩
  root := "div"
  before := " class=\"x\""
  declared := some ⟨" ", [], [], '\'', "n int"⟩
  behind := []
  body := "\x7bn\x7d</div>"

theorem Component.load_root_card :
    ∃ component, load "Card" (cardSource.print ++ "\n") none true = .ok component ∧
      cardSource.print = "<!-- was <b> -->\n<script>f();</script>\n<div class=\"x\" props='n int'>\x7bn\x7d</div>" ∧
      component.template = "<!-- was <b> -->\n<script>f();</script>\n<div data-card=\"\" class=\"x\">\x7bn\x7d</div>" ∧
      (component.props : List (Text × ValueType)) = [("n".toList, .int)] := by
  have scripts : RootElement.Scripts cardSource.front.uncommented :=
    .blank (by decide) (@RootElement.Scripts.script "<script>f();</script>" "f();" "\n" (by decide) (fun _ => rfl)
      (.blank (by decide) .done))
  have texts : ∀ text ∈ cardSource.front.texts, RootElement.IsFrontText text := by
    intro text member
    have parts : (Pattern.seek? RootElement.commentStart text = none) ∧
        ∀ name ∈ Pattern.values RootElement.openingName text, Text.lower name = "script" := by
      revert text
      decide +kernel
    exact ⟨Pattern.absent_of_seek? parts.1, parts.2⟩
  have comments : ∀ part ∈ cardSource.front.commented, RootElement.IsComment part.2 := by
    rintro part (_ | ⟨_, ⟨⟩⟩)
    exact (by decide +kernel : Pattern.Passes RootElement.commentEnd " was <b> " "-->")
  have first : Pattern.Passes Props.listAttribute (cardSource.front.print ++ '<' :: (cardSource.root ++ cardSource.before))
      " props='n int'>\x7bn\x7d</div>" := by decide +kernel
  have declared : ∀ declaration ∈ cardSource.declared, declaration.IsSound := by
    rintro declaration ⟨⟩
    exact ⟨by decide, by decide, by decide, by decide, by decide, by decide⟩
  have sound : cardSource.IsSound :=
    ⟨⟨texts, comments⟩, scripts, ⟨⟨'d', "iv", rfl, by decide, by decide⟩, by decide, by decide⟩, by decide,
      by decide +kernel, by decide +kernel, declared, first⟩
  have absent {α : Type} {read : Pattern α} {text : Text} (nothing : (Pattern.seek? read text).isNone = true) :
      Pattern.Absent read text := Pattern.absent_of_seek? (Option.isNone_iff_eq_none.1 nothing)
  obtain ⟨component, loaded⟩ := Option.isSome_iff_exists.1
    (show (load "Card" (cardSource.print ++ "\n") none true).toOption.isSome = true by decide +kernel)
  have ok := eq_ok_of_toOption loaded
  obtain ⟨-, template, -, props⟩ := Component.load_root sound (by decide +kernel) (absent (by decide +kernel))
    ⟨absent (by decide +kernel), absent (by decide +kernel), absent (by decide +kernel)⟩ ok
  refine ⟨component, ok, by decide +kernel, ?_, ?_⟩
  · rw [template]
    decide +kernel
  · have listed : ((Text.pieces ',' cardSource.list).foldlM Props.addListed []).toOption = some [("n".toList, .int)] := by
      decide +kernel
    rw [props] at listed
    exact Option.some.inj listed

end ComponentPages
