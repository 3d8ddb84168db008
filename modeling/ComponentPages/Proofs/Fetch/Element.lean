import ComponentPages.Proofs.Fetch.Directive

/-!
Fetch elements in a text of tags: the first one behind a place, the closing tag that counting finds for it, and what is
written in its place.
-/
namespace ComponentPages

namespace Fetch

/-! ### The first element that fetches -/

/-- Whether the first fetch attribute of a tag has a value. -/
def Token.fetches (token : Token) : Bool := (token.head?.bind fun head => head.value? "fetch").isSome

variable {tokens front : List Token}

theorem siteOf?_marksOf_cons {token : Token} (sound : token.isSound = true) (quiet : token.fetches = false) (offset : Nat)
    (rest : Text) (marks : List Mark) : siteOf? ((token.mark? offset rest).toList ++ marks) = siteOf? marks := by
  cases token with
  | words | closing | script => rfl
  | opening name head =>
    simp only [Token.isSound, Bool.and_eq_true] at sound
    have unasked : request? head.print = none := by
      rw [PlainHead.request?_print sound.2]
      exact Option.not_isSome_iff_eq_none.1 (Bool.not_eq_true _ ▸ quiet)
    rw [Token.mark?, Option.toList_some, List.singleton_append, siteOf?]
    dsimp only
    rw [(PlainHead.isTagHead_print sound.2).reads]
    dsimp only
    rw [unasked]
    rfl

/-- The search finds nothing where no tag fetches. -/
theorem siteOf?_marksOf_of_quiet (sound : ∀ token ∈ tokens, token.isSound = true)
    (quiet : ∀ token ∈ tokens, token.fetches = false) (offset : Nat) : siteOf? (marksOf offset tokens) = none := by
  induction tokens generalizing offset with
  | nil => rfl
  | cons token tokens ih =>
    obtain ⟨here, later⟩ := List.forall_mem_cons.1 sound
    obtain ⟨hereQuiet, laterQuiet⟩ := List.forall_mem_cons.1 quiet
    rw [marksOf, siteOf?_marksOf_cons here hereQuiet]
    exact ih later laterQuiet _

/-- The search finds the first tag that fetches. -/
theorem siteOf?_marksOf_of_fetches {before : List Token} {name : Text} {head : PlainHead}
    (sound : ∀ token ∈ before ++ .opening name head :: tokens, token.isSound = true)
    (quiet : ∀ token ∈ before, token.fetches = false) (fetches : (Token.opening name head).fetches = true) (offset : Nat) :
    siteOf? (marksOf offset (before ++ .opening name head :: tokens)) =
      some ⟨offset + (printTokens before).length, name, head.print, printTokens tokens⟩ := by
  induction before generalizing offset with
  | nil =>
    have here := sound _ List.mem_cons_self
    simp only [Token.isSound, Bool.and_eq_true] at here
    rw [List.nil_append, marksOf, Token.mark?, Option.toList_some, List.singleton_append, siteOf?]
    dsimp only
    rw [(PlainHead.isTagHead_print here.2).reads]
    dsimp only
    rw [PlainHead.request?_print here.2]
    exact if_pos fetches
  | cons token before ih =>
    obtain ⟨here, later⟩ := List.forall_mem_cons.1 sound
    obtain ⟨hereQuiet, laterQuiet⟩ := List.forall_mem_cons.1 quiet
    rw [List.cons_append, marksOf, siteOf?_marksOf_cons here hereQuiet, ih later laterQuiet, printTokens_cons,
      List.length_append, Nat.add_assoc]

theorem next?_of_quiet (sound : ∀ token ∈ front ++ tokens, token.isSound = true)
    (quiet : ∀ token ∈ tokens, token.fetches = false) :
    next? (printTokens (front ++ tokens)) (printTokens front).length = none := by
  have later : ∀ token ∈ tokens, token.isSound = true := fun token member => sound token (List.mem_append_right front member)
  rw [next?, elementMarks, marksFrom_drop_printTokens readsNames_element sound]
  exact siteOf?_marksOf_of_quiet later quiet _

theorem next?_of_fetches {before : List Token} {name : Text} {head : PlainHead}
    (sound : ∀ token ∈ front ++ (before ++ .opening name head :: tokens), token.isSound = true)
    (quiet : ∀ token ∈ before, token.fetches = false) (fetches : (Token.opening name head).fetches = true) :
    next? (printTokens (front ++ (before ++ .opening name head :: tokens))) (printTokens front).length =
      some ⟨(printTokens (front ++ before)).length, name, head.print, printTokens tokens⟩ := by
  rw [next?, elementMarks, marksFrom_drop_printTokens readsNames_element sound, printTokens_append front before,
    List.length_append]
  exact siteOf?_marksOf_of_fetches (fun token member => sound token (List.mem_append_right front member)) quiet fetches _

/-! ### Closing tags -/

/-- How many elements of a name are open behind a part of a text. -/
def Token.depthAfter (name : Text) (depth : Nat) : Token → Nat
  | .opening other head => if other = name ∧ TagHead.closesItself head.print = false then depth + 1 else depth
  | .closing other _ => if other = name then depth - 1 else depth
  | .words _ | .script _ => depth

/-- What a tag closes, the tag itself and what stands behind it. -/
structure Enclosure where
  inner : List Token
  tag : Token
  rest : List Token

def Enclosure.cons (token : Token) (found : Enclosure) : Enclosure := { found with inner := token :: found.inner }

/-- The tag that closes the last open element of a name. -/
def enclosure? (name : Text) (depth : Nat) : List Token → Option Enclosure
  | [] => none
  | token :: tokens =>
    if token.depthAfter name depth = 0 then some ⟨[], token, tokens⟩
    else (enclosure? name (token.depthAfter name depth) tokens).map (Enclosure.cons token)

/-- The place of the closing tag behind an offset. -/
def Enclosure.span (offset : Nat) (found : Enclosure) : Span :=
  ⟨offset + (printTokens found.inner).length, offset + (printTokens found.inner).length + found.tag.print.length⟩

theorem enclosure?_eq_some {name : Text} {depth : Nat} (inside : 1 ≤ depth) {found : Enclosure}
    (closed : enclosure? name depth tokens = some found) :
    (∃ gap, found.tag = .closing name gap) ∧ tokens = found.inner ++ found.tag :: found.rest := by
  induction tokens generalizing depth found with
  | nil => cases closed
  | cons token tokens ih =>
    rw [enclosure?] at closed
    split at closed
    · next ends =>
      obtain rfl := Option.some.inj closed
      refine ⟨?_, rfl⟩
      cases token with
      | closing other gap =>
        rw [Token.depthAfter] at ends
        split at ends
        · next same => exact ⟨gap, by rw [same]⟩
        · omega
      | opening other head =>
        rw [Token.depthAfter] at ends
        split at ends <;> omega
      | words | script =>
        rw [Token.depthAfter] at ends
        omega
    · next goesOn =>
      obtain ⟨later, laterClosed, rfl⟩ := Option.map_eq_some_iff.1 closed
      obtain ⟨tag, whole⟩ := ih (by omega) laterClosed
      exact ⟨tag, by rw [whole]; rfl⟩

/-- The search for a closing tag counts tags. -/
theorem closeFrom?_printTokens {name : Text} (named : Tag.IsName name) (sound : ∀ token ∈ tokens, token.isSound = true)
    (plain : ∀ token ∈ tokens, token.isScript = false) {depth : Nat} (inside : 1 ≤ depth) (offset : Nat) :
    Tag.closeFrom? [] name depth offset (printTokens tokens) = (enclosure? name depth tokens).map (Enclosure.span offset) := by
  induction tokens generalizing depth offset with
  | nil => rfl
  | cons token tokens ih =>
    obtain ⟨here, later⟩ := List.forall_mem_cons.1 sound
    obtain ⟨herePlain, laterPlain⟩ := List.forall_mem_cons.1 plain
    have behind {depth : Nat} (inside : 1 ≤ depth) :
        Tag.closeFrom? [] name depth (offset + token.print.length) (printTokens tokens) =
          ((enclosure? name depth tokens).map (Enclosure.cons token)).map (Enclosure.span offset) := by
      rw [ih later laterPlain inside, Option.map_map]
      congr 1
      funext found
      simp [Enclosure.span, Enclosure.cons, Nat.add_assoc]
    rw [printTokens_cons, enclosure?]
    cases token with
    | script element => cases herePlain
    | words text =>
      rw [Token.print, Tag.closeFrom?_free (Token.ne_of_mem_words here), Token.depthAfter, if_neg (by omega)]
      exact behind inside
    | opening other head =>
      simp only [Token.isSound, Bool.and_eq_true] at here
      rw [Token.print, Tag.closeFrom?_openTag named.isSlug (Token.isName_of_isPlainName here.1).isSlug (PlainHead.isTagHead_print here.2),
        Token.depthAfter]
      split
      · rw [if_neg (by omega)]
        exact behind (by omega)
      · rw [if_neg (by omega)]
        exact behind inside
    | closing other gap =>
      simp only [Token.isSound, Bool.and_eq_true, List.all_eq_true] at here
      rw [Token.print, Tag.closeFrom?_closeTag named.isSlug (Token.isName_of_isPlainName here.1).isSlug here.2, Token.depthAfter]
      split
      · split
        · rw [if_pos (by omega)]
          rfl
        · rw [if_neg (by omega)]
          exact behind (by omega)
      · rw [if_neg (by omega)]
        exact behind inside

theorem scriptSpans_of_plain (plain : ∀ token ∈ tokens, token.isScript = false) (offset : Nat) :
    scriptSpans offset tokens = [] := by
  induction tokens generalizing offset with
  | nil => rfl
  | cons token tokens ih =>
    obtain ⟨here, later⟩ := List.forall_mem_cons.1 plain
    rw [scriptSpans, here, if_neg Bool.false_ne_true, List.nil_append]
    exact ih later _

theorem close?_printTokens {name : Text} (named : Tag.IsName name)
    (sound : ∀ token ∈ front ++ tokens, token.isSound = true) (plain : ∀ token ∈ front ++ tokens, token.isScript = false) :
    Tag.close? (printTokens (front ++ tokens)) name (printTokens front).length =
      (enclosure? name 1 tokens).map (Enclosure.span (printTokens front).length) := by
  rw [Tag.close?, spans_printTokens sound, scriptSpans_of_plain plain, printTokens_append, List.drop_left]
  exact closeFrom?_printTokens named (fun token member => sound token (List.mem_append_right front member))
    (fun token member => plain token (List.mem_append_right front member)) (Nat.le_refl 1) _

/-! ### What is written for an element -/

/-- Requests and ids are told by the first attributes of their names. -/
theorem find?_identity {name : Text} (listed : name = "fetch" ∨ name = "id") (attributes : List Attribute) :
    ((identity attributes).find? fun told => told.1 = name).bind Prod.snd =
      (Attribute.find? name attributes).bind Attribute.text? := by
  induction attributes with
  | nil => rfl
  | cons attr attributes ih =>
    rw [identity, List.filterMap_cons, Attribute.find?, List.find?_cons]
    by_cases same : attr.name = name
    · rw [if_pos (by rw [same]; exact listed), same]
      simp
    · rw [decide_eq_false same]
      split
      · exact ih
      · next told found =>
        obtain rfl : (attr.name, attr.text?) = told := by
          split at found
          · exact Option.some.inj found
          · cases found
        rw [List.find?_cons_of_neg (by simpa using same)]
        exact ih

theorem value?_of_identity {head other : PlainHead} (same : identity other.scanned = identity head.scanned) {name : Text}
    (listed : name = "fetch" ∨ name = "id") : other.value? name = head.value? name := by
  rw [PlainHead.value?_eq, PlainHead.value?_eq, ← find?_identity listed, ← find?_identity listed, same]

/-- The head that is written for an element, its data, and the ids that are drawn for it: none if it has its own. -/
structure Written (head other : PlainHead) (element : FetchElement) (ids : List Text) : Prop where
  sound : other.isSound = true
  script : (Token.script element).isSound = true
  quiet : other.value? "fetch" = none
  told : other.value? "id" = some element.id
  own : ids = [] ∧ head.value? "id" = some element.id ∨ ids = [element.id] ∧ (head.value? "id").getD [] = []
  request : ∃ request, head.value? "fetch" = some request ∧ readRequest request = .ok (element.method, element.url)
  binding : element.binding = bindingName head.scanned
  templates : templates other.scanned = templates head.scanned

/-- Whether an attribute stays on the element. -/
def stays (attr : Attribute) : Bool := decide (attr.name ≠ "fetch" ∧ attr.name ≠ "as")

theorem keptAttributes_eq (attributes : List Attribute) : keptAttributes attributes = (attributes.filter stays).map Attribute.raw :=
  rfl

section Identify

variable {head : PlainHead} (sound : head.isSound = true)

theorem find?_fetch_stays (attributes : List Attribute) : Attribute.find? "fetch" (attributes.filter stays) = none := by
  rw [Attribute.find?, List.find?_eq_none]
  intro attr member
  have kept := (List.mem_filter.1 member).2
  rw [stays, decide_eq_true_eq] at kept
  simpa using kept.1

theorem find?_id_stays (attributes : List Attribute) :
    Attribute.find? "id" (attributes.filter stays) = Attribute.find? "id" attributes := by
  rw [Attribute.find?, List.find?_filter, Attribute.find?]
  congr 1
  funext attr
  by_cases same : attr.name = "id"
  · have kept : stays attr = true := by
      rw [stays, same]
      decide
    simp [kept]
  · simp only [decide_eq_false same, Bool.false_eq_true, and_false, decide_false]

theorem templates_stays (attributes : List Attribute) : templates (attributes.filter stays) = templates attributes := by
  rw [templates, List.filterMap_filter, templates]
  congr 1
  funext attr
  by_cases same : attr.name = "data-gtml-for"
  · have kept : stays attr = true := by
      rw [stays, same]
      decide
    rw [if_pos kept]
  · rw [if_neg same, ite_self]

include sound in
/-- The attributes that stay are written one by one. -/
theorem spells_keptAttributes :
    ∃ groups : List (List PlainAttribute), List.Forall₂ Spells (keptAttributes head.scanned) groups ∧
      groups.flatten.map PlainAttribute.scanned = head.scanned.filter stays := by
  have simple : ∀ attr ∈ head.attributes, attr.isSimple = true := by
    simp only [PlainHead.isSound, Bool.and_eq_true, List.all_eq_true] at sound
    exact sound.1
  rw [keptAttributes_eq, PlainHead.scanned]
  generalize head.attributes = attributes at simple
  induction attributes with
  | nil => exact ⟨[], .nil, rfl⟩
  | cons attr attributes ih =>
    obtain ⟨here, later⟩ := List.forall_mem_cons.1 simple
    obtain ⟨groups, spells, scanned⟩ := ih later
    rw [List.map_cons, List.filter_cons]
    split
    · refine ⟨[attr.spaced] :: groups, .cons (spells_spaced here) spells, ?_⟩
      rw [List.flatten_cons, List.map_append, scanned, List.map_singleton, PlainAttribute.scanned_spaced]
      rfl
    · exact ⟨groups, spells, scanned⟩

/-- Attributes that tell an element by an id, and the ids drawn for it: none if it has its own. -/
structure Identified (head : PlainHead) (id : Text) (group : List PlainAttribute) (ids : List Text) : Prop where
  quiet : Attribute.find? "fetch" (group.map PlainAttribute.scanned) = none
  told : (Attribute.find? "id" (group.map PlainAttribute.scanned)).bind Attribute.text? = some id
  own : ids = [] ∧ head.value? "id" = some id ∨ ids = [id] ∧ (head.value? "id").getD [] = []
  templates : templates (group.map PlainAttribute.scanned) = templates head.scanned

variable {group : List PlainAttribute} (scanned : group.map PlainAttribute.scanned = head.scanned.filter stays) {id : Text}
include scanned

theorem identified_own (own : head.value? "id" = some id) : Identified head id group [] where
  quiet := by rw [scanned, find?_fetch_stays]
  told := by rw [scanned, find?_id_stays, ← PlainHead.value?_eq, own]
  own := .inl ⟨rfl, own⟩
  templates := by rw [scanned, templates_stays]

theorem identified_drawn (absent : (head.value? "id").getD [] = []) :
    Identified head id (.valued "id" id :: group) [id] where
  quiet := by
    rw [List.map_cons, Attribute.find?, List.find?_cons_of_neg (by rw [PlainAttribute.name_valued]; decide), scanned]
    exact find?_fetch_stays _
  told := by
    rw [List.map_cons, Attribute.find?, List.find?_cons_of_pos (by rw [PlainAttribute.name_valued]; decide)]
    rfl
  own := .inr ⟨rfl, absent⟩
  templates := by
    rw [List.map_cons, ← List.singleton_append, templates_append, scanned, templates_stays]
    rfl

end Identify

/-- An element is told by its own id or by one that is drawn. -/
theorem run_identify {head : PlainHead} (sound : head.isSound = true) {page after : Page} {id : Text} {kept : List Text}
    (ran : (identify head.scanned).run page = (.ok (id, kept), after)) :
    ∃ group ids, Spells (List.intercalate [' '] kept) group ∧ Identified head id group ids ∧ Drawn page.ids after.ids ids := by
  obtain ⟨groups, spells, scanned⟩ := spells_keptAttributes sound
  have drawing (absent : (head.value? "id").getD [] = [])
      (ran : (do
        let id ← Compile.nextId "gtml-fetch"
        pure (id, ("id=\"" ++ id ++ "\"") :: keptAttributes head.scanned) : Compile (Text × List Text)).run page =
          (.ok (id, kept), after)) :
      ∃ group ids, Spells (List.intercalate [' '] kept) group ∧ Identified head id group ids ∧
        Drawn page.ids after.ids ids := by
    obtain ⟨drawn, between, drew, ran⟩ := Compile.exists_of_run_bind ran
    rw [Compile.run_nextId] at drew
    cases drew
    cases ran
    have told := @spells_valued "id" _ (by decide)
      (@isBare_numbered "gtml-fetch" (by decide) (page.ids.count "gtml-fetch" + 1))
    refine ⟨_, _, spells_intercalate (List.cons_ne_nil _ _) (.cons told spells), ?_, Drawn.next page.ids (by decide)⟩
    exact identified_drawn scanned absent
  rw [identify] at ran
  split at ran
  · next absent => exact drawing (by rw [PlainHead.value?_eq, absent]; rfl) ran
  · next absent => exact drawing (by rw [PlainHead.value?_eq, absent]; rfl) ran
  · next own nonempty present =>
    cases ran
    have some : keptAttributes head.scanned ≠ [] := by
      intro none
      have told := find?_id_stays head.scanned
      rw [keptAttributes_eq] at none
      rw [List.map_eq_nil_iff.1 none] at told
      rw [← told] at present
      cases present
    rw [← PlainHead.value?_eq] at present
    exact ⟨_, _, spells_intercalate some spells, identified_own scanned present, .refl _⟩

/-! ### Running -/

theorem tagMarks_printTokens (sound : ∀ token ∈ tokens, token.isSound = true) :
    tagMarks (printTokens tokens) = marksOf 0 tokens := by
  rw [tagMarks, spans_printTokens sound]
  exact @marksFrom_printTokens tokens _ _ readsNames_tag sound [] 0 (List.forall_mem_nil _)

theorem isAlpha_toUpper {c : Char} (letter : c.isAlpha = true) : c.toUpper.isAlpha = true := by
  have ascii := toNat_of_isAlphanum (by simp [Char.isAlphanum, letter] : c.isAlphanum = true)
  have all : ∀ code < 123, (Char.ofNat code).isAlpha = true → (Char.ofNat code).toUpper.isAlpha = true := by decide
  have here := all c.toNat (by omega)
  rw [Char.ofNat_toNat] at here
  exact here letter

/-- A method consists of letters. -/
theorem isAlpha_of_readRequest {written method url : Text} (read : readRequest written = .ok (method, url)) :
    method.all Char.isAlpha = true := by
  unfold readRequest at read
  split at read
  · cases read
  · dsimp only at read
    split at read
    · cases read
      decide
    · split at read
      · next letters =>
        cases read
        rw [List.all_map, List.all_eq_true]
        exact fun c member => isAlpha_toUpper (List.all_eq_true.1 letters c member)
      · cases read

/-- What is written for an element. -/
theorem run_writeElement {name : Text} {head : PlainHead} (sound : head.isSound = true)
    (fetches : (Token.opening name head).fetches = true) {inner : List Token}
    (innerSound : ∀ token ∈ inner, token.isSound = true) {closeTag text : Text} {page after : Page}
    (ran : (writeElement {} name head.print (printTokens inner) closeTag).run page = (.ok text, after)) :
    ∃ other element marked ids,
      text = openTag name other.print ++ printTokens marked ++ closeTag ++ "\n" ++ ScriptTexts.fetchScript {} element ∧
      Written head other element ids ∧ Marked inner marked element.loops ∧
      Drawn page.ids after.ids (ids ++ element.loops.map Loop.templateId) := by
  obtain ⟨request, asked⟩ : ∃ request, head.value? "fetch" = some request := Option.isSome_iff_exists.1 fetches
  rw [writeElement, PlainHead.tokenize_print sound, PlainHead.request?_print sound, asked] at ran
  obtain ⟨⟨method, url⟩, read, reading, ran⟩ := Compile.exists_of_run_bind ran
  rw [Compile.run_lift] at reading
  have asks : readRequest request = .ok (method, url) := (Prod.mk.inj reading).1
  obtain rfl := (Prod.mk.inj reading).2
  dsimp only at ran
  split at ran
  · cases ran
  · next named =>
    obtain ⟨⟨id, kept⟩, identified, identifies, ran⟩ := Compile.exists_of_run_bind ran
    obtain ⟨⟨written, loops⟩, marking, marks, ran⟩ := Compile.exists_of_run_bind ran
    obtain ⟨_, noted, note, ran⟩ := Compile.exists_of_run_bind ran
    rw [Compile.run_note] at note
    obtain rfl := (Prod.mk.inj note).2
    cases ran
    obtain ⟨group, ids, spells, told, drawn⟩ := run_identify sound identifies
    rw [tagMarks_printTokens innerSound] at marks
    obtain ⟨marked, rfl, isMarked, loopsDrawn⟩ := @run_directivesFrom _ [] [] innerSound _ _ _ _ marks
    have otherSound : PlainHead.isSound ⟨group, []⟩ = true := isSound_spelled spells rfl
    have script : (Token.script ⟨id, method, url, bindingName head.scanned, loops⟩).isSound = true := by
      rw [Token.isSound, isAlpha_of_readRequest asks, Bool.true_and]
      simpa using named
    refine ⟨⟨group, []⟩, ⟨id, method, url, bindingName head.scanned, loops⟩, marked, ids, ?_, ?_, isMarked,
      drawn.trans loopsDrawn⟩
    · have tag := openTag_spelled spells name []
      rw [← tag]
      simp
    · exact ⟨otherSound, script, by rw [PlainHead.value?_eq, PlainHead.scanned, told.quiet]; rfl,
        by rw [PlainHead.value?_eq]; exact told.told, told.own, ⟨request, asked, asks⟩, rfl, told.templates⟩

end Fetch

end ComponentPages
