import ComponentPages.Proofs.Growth
import ComponentPages.Proofs.Hook.Passing

/-!
The lowering of fetch elements is of no consequence for handlers and signals. It draws ids of stems of its own, queues
no script, and writes no marker where there is none in the text and in the script that a project puts in place of the
bundled one.
-/
namespace ComponentPages

variable {α β : Type}

/-- A page that keeps its scripts, its need of the runtime and the count of its handlers. -/
structure Page.Spares (before after : Page) : Prop where
  scripts : after.scripts = before.scripts
  signals : after.usesSignals = before.usesSignals
  drawn : after.ids.count "gtml-on" = before.ids.count "gtml-on"

namespace Compile

/-- However the compilation ends, it spares the page; and what it comes back with is as told. -/
def Spares (compilation : Compile α) (fact : α → Prop) : Prop :=
  ∀ page, page.Spares (compilation.run page).2 ∧ ∀ value, (compilation.run page).1 = .ok value → fact value

theorem spares_pure {value : α} {fact : α → Prop} (holds : fact value) : (pure value : Compile α).Spares fact := by
  intro page
  refine ⟨⟨rfl, rfl, rfl⟩, ?_⟩
  rintro _ ⟨⟩
  exact holds

theorem spares_throw (failure : Failure) (fact : α → Prop) : (throw failure : Compile α).Spares fact := by
  intro page
  refine ⟨⟨rfl, rfl, rfl⟩, ?_⟩
  rintro _ ⟨⟩

theorem spares_note (notes : List Note) : (note notes).Spares fun _ => True :=
  fun _ => ⟨⟨rfl, rfl, rfl⟩, fun _ _ => trivial⟩

theorem spares_lift (result : Except Failure α) : (lift result).Spares fun value => result = .ok value := by
  intro page
  rw [run_lift]
  exact ⟨⟨rfl, rfl, rfl⟩, fun _ => id⟩

theorem Spares.bind {first : Compile α} {fact : α → Prop} (spares : first.Spares fact) {second : α → Compile β}
    {conclusion : β → Prop} (next : ∀ value, fact value → (second value).Spares conclusion) :
    (first >>= second).Spares conclusion := by
  intro page
  obtain ⟨spared, holds⟩ := spares page
  rw [run_bind]
  cases ran : first.run page with
  | mk outcome later =>
    rw [ran] at spared holds
    cases outcome with
    | error failure =>
      refine ⟨spared, ?_⟩
      rintro _ ⟨⟩
    | ok value =>
      obtain ⟨more, concludes⟩ := next value (holds value rfl) later
      exact ⟨⟨more.scripts.trans spared.scripts, more.signals.trans spared.signals, more.drawn.trans spared.drawn⟩, concludes⟩

theorem Spares.mono {compilation : Compile α} {fact other : α → Prop} (spares : compilation.Spares fact)
    (implies : ∀ value, fact value → other value) : compilation.Spares other :=
  fun page => ⟨(spares page).1, fun value ran => implies value ((spares page).2 value ran)⟩

/-- Drawing an id of another stem. -/
theorem spares_nextId {stem : Text} (other : stem ≠ "gtml-on".toList) (unmarked : Signal.markerOpen ∉ stem) :
    (nextId stem).Spares fun id => Signal.markerOpen ∉ id := by
  intro page
  have drawn : (page.ids.next stem).2.count "gtml-on" = page.ids.count "gtml-on" := by
    rw [Counters.count_next, if_neg fun same => other same.symm, Nat.add_zero]
  refine ⟨⟨rfl, rfl, drawn⟩, ?_⟩
  rintro _ ⟨⟩ member
  rcases List.mem_append.1 member with front | digits
  · rcases List.mem_append.1 front with inStem | dash
    · exact unmarked inStem
    · exact absurd dash (by decide)
  · exact absurd (Text.isDigit_of_mem_ofNat digits) (by decide)

theorem Spares.mapM {f : α → Compile β} {fact : β → Prop} {list : List α} (spares : ∀ a ∈ list, (f a).Spares fact) :
    (list.mapM f).Spares fun results => ∀ result ∈ results, fact result := by
  induction list with
  | nil => exact spares_pure (List.forall_mem_nil fact)
  | cons a list ih =>
    rw [List.mapM_cons]
    refine (spares a List.mem_cons_self).bind fun first holds => ?_
    refine (ih fun other member => spares other (List.mem_cons_of_mem a member)).bind fun others later => ?_
    exact spares_pure (List.forall_mem_cons.2 ⟨holds, later⟩)

end Compile

namespace Signal

theorem not_mem_of_marked {text : Text} (marked : Marked (fun _ => False) text) : markerOpen ∉ text := by
  induction text with
  | nil => exact List.not_mem_nil
  | cons c text ih =>
    intro member
    rcases List.mem_cons.1 member with rfl | later
    · obtain ⟨_, _, _, impossible, _⟩ := marked.1 rfl
      exact impossible
    · exact ih marked.2 later

end Signal

namespace Fetch

open Compile (Spares)
open Signal (markerOpen)

/-- A text without markers that is cut from another. -/
theorem unmarked_of_subset {text part : Text} (subset : part ⊆ text) (unmarked : markerOpen ∉ text) : markerOpen ∉ part :=
  fun member => unmarked (subset member)

theorem unmarked_append {first second : Text} (front : markerOpen ∉ first) (back : markerOpen ∉ second) :
    markerOpen ∉ first ++ second :=
  fun member => (List.mem_append.1 member).elim front back

theorem unmarked_intercalate {separator : Text} {pieces : List Text} (free : markerOpen ∉ separator)
    (unmarked : ∀ piece ∈ pieces, markerOpen ∉ piece) : markerOpen ∉ List.intercalate separator pieces := by
  induction pieces with
  | nil => exact List.not_mem_nil
  | cons piece pieces ih =>
    cases pieces with
    | nil =>
      rw [List.intercalate_singleton]
      exact unmarked piece List.mem_cons_self
    | cons other pieces =>
      rw [List.intercalate_cons_cons, List.mem_append, List.mem_append, not_or, not_or]
      exact ⟨⟨unmarked piece List.mem_cons_self, free⟩, ih fun one member => unmarked one (List.mem_cons_of_mem piece member)⟩

/-- The spellings and the values of the attributes in a head without markers. -/
theorem unmarked_of_tokenize {head : Text} (unmarked : markerOpen ∉ head) : ∀ attr ∈ Attribute.tokenize head,
    markerOpen ∉ attr.raw ∧ ∀ text, attr.text? = some text → markerOpen ∉ text := by
  intro attr member
  obtain ⟨raw, value⟩ := (@Signal.marked_of_not_mem (fun _ => False) head unmarked).of_tokenize attr member
  exact ⟨Signal.not_mem_of_marked raw, fun text here => Signal.not_mem_of_marked (value text here)⟩

theorem unmarked_trim {text : Text} (unmarked : markerOpen ∉ text) : markerOpen ∉ Text.trim text :=
  fun member => unmarked (Text.mem_of_mem_trim member)

/-! ### Directives -/

theorem eq_of_scriptName {text name rest : Text} (found : scriptName text = some (name, rest)) : text = name ++ rest := by
  unfold scriptName at found
  split at found
  · cases found
  · split at found
    · cases found
      rw [List.cons_append, List.takeWhile_append_dropWhile]
    · cases found

theorem subset_trimLeft (text : Text) : Text.trimLeft text ⊆ text := (List.dropWhile_suffix isBlank).subset

theorem subset_of_readLoop {written item source : Text} (reads : readLoop written = .ok (item, source)) :
    item ⊆ written ∧ source ⊆ written := by
  unfold readLoop at reads
  split at reads
  · next parts found =>
    cases reads
    simp only [loopParts?, bind, Option.bind_eq_some_iff, Prod.exists] at found
    obtain ⟨name, afterItem, named, blanks, word, gap, afterIn, opened, space, path, ran, found⟩ := found
    split at found
    · cases found
      have start := eq_of_scriptName named
      rw [(Pattern.eq_of_run gap).1, Text.eq_of_after? opened, (Pattern.eq_of_run ran).1] at start
      constructor
      · refine List.Subset.trans ?_ (subset_trimLeft written)
        rw [start]
        exact List.subset_append_left item _
      · intro c member
        apply subset_trimLeft written
        rw [start]
        simp [Text.mem_of_mem_trimRight member]
    · cases found
  · cases reads

theorem spares_directive {attr : Attribute} (raw : markerOpen ∉ attr.raw)
    (value : ∀ text, attr.text? = some text → markerOpen ∉ text) :
    (directive attr).Spares fun directive => markerOpen ∉ directive.written := by
  unfold directive
  split
  · exact Compile.spares_pure (by decide)
  · split
    · exact Compile.spares_pure (by decide)
    · split
      · next written _ valued =>
        refine (Compile.spares_lift (readLoop written)).bind fun (item, source) reads => ?_
        obtain ⟨inItem, inSource⟩ := subset_of_readLoop reads
        refine (Compile.spares_nextId (by decide) (by decide)).bind fun id unmarked => ?_
        have free := value written valued
        have named := unmarked_append (unmarked_append (by decide : markerOpen ∉ ("data-gtml-for=\"" : Text)) unmarked)
          (by decide : markerOpen ∉ ("\" data-gtml-item=\"" : Text))
        have looped := unmarked_append (unmarked_append named (unmarked_of_subset inItem free))
          (by decide : markerOpen ∉ ("\" data-gtml-source=\"" : Text))
        exact Compile.spares_pure (unmarked_append (unmarked_append looped (unmarked_of_subset inSource free)) (by decide))
      · exact Compile.spares_pure raw

theorem unmarked_replaceFirst {old new : Text} {texts : List Text} (free : markerOpen ∉ new)
    (unmarked : ∀ text ∈ texts, markerOpen ∉ text) : ∀ text ∈ replaceFirst old new texts, markerOpen ∉ text := by
  induction texts with
  | nil => simp [replaceFirst]
  | cons first texts ih =>
    obtain ⟨here, later⟩ := List.forall_mem_cons.1 unmarked
    rw [replaceFirst]
    split
    · exact List.forall_mem_cons.2 ⟨free, later⟩
    · exact List.forall_mem_cons.2 ⟨here, ih later⟩

theorem unmarked_hide {attributes : List Attribute} {written : List Text}
    (values : ∀ attr ∈ attributes, ∀ text, attr.text? = some text → markerOpen ∉ text)
    (unmarked : ∀ text ∈ written, markerOpen ∉ text) : ∀ text ∈ hide attributes written, markerOpen ∉ text := by
  unfold hide
  dsimp only
  split
  · next attr css style valued =>
    rw [style] at valued
    have free := values attr (List.mem_of_find?_eq_some style) css valued
    exact unmarked_replaceFirst (unmarked_append (unmarked_append (by decide) free) (by decide)) unmarked
  · exact List.forall_mem_append.2 ⟨unmarked, List.forall_mem_singleton.2 (by decide)⟩

theorem spares_directiveAttributes {attributes : List Attribute}
    (facts : ∀ attr ∈ attributes, markerOpen ∉ attr.raw ∧ ∀ text, attr.text? = some text → markerOpen ∉ text) :
    (directiveAttributes attributes).Spares fun (written, _) => ∀ text ∈ written, markerOpen ∉ text := by
  refine (Spares.mapM fun attr member => spares_directive (facts attr member).1 (facts attr member).2).bind ?_
  intro directives unmarked
  have written : ∀ text ∈ directives.map Directive.written, markerOpen ∉ text := List.forall_mem_map.2 unmarked
  apply Compile.spares_pure
  dsimp only
  split
  · exact unmarked_hide (fun attr member => (facts attr member).2) written
  · exact written

/-- A tag that is found in a text is written with characters of the text. -/
theorem subset_of_mem_marksFrom {first part : Char → Bool} {blocks : List Span} {offset : Nat} {text : Text} {mark : Mark}
    (member : mark ∈ marksFrom first part blocks offset text) : mark.name ⊆ text ∧ mark.after ⊆ text := by
  induction text generalizing offset with
  | nil => cases member
  | cons c rest ih =>
    have later (member : mark ∈ marksFrom first part blocks (offset + 1) rest) :
        mark.name ⊆ c :: rest ∧ mark.after ⊆ c :: rest :=
      (ih member).imp (List.subset_cons_of_subset c) (List.subset_cons_of_subset c)
    unfold marksFrom at member
    split at member
    · next found read =>
      rcases List.mem_cons.1 member with rfl | behind
      · split at read
        · cases read
        · unfold mark? at read
          split at read
          · next d tail whole =>
            split at read
            · cases read
              obtain ⟨-, rfl⟩ := List.cons.inj whole
              have named : d :: tail.takeWhile part ⊆ d :: tail := List.cons_subset_cons d (List.takeWhile_prefix part).subset
              have behind : tail.dropWhile part ⊆ d :: tail :=
                List.subset_cons_of_subset d (List.dropWhile_suffix part).subset
              exact ⟨List.subset_cons_of_subset _ named, List.subset_cons_of_subset _ behind⟩
            · cases read
          · cases read
      · exact later behind
    · exact later member

theorem subset_of_read? {text head body : Text} (reads : TagHead.read? text = some (head, body)) :
    head ⊆ text ∧ body ⊆ text := by
  rw [TagHead.eq_of_split? reads]
  exact ⟨List.subset_append_left _ _, List.subset_append_of_subset_right _ (List.subset_cons_self _ _)⟩

theorem spares_directivesFrom {body : Text} (unmarked : markerOpen ∉ body) {marks : List Mark}
    (within : ∀ mark ∈ marks, mark.name ⊆ body ∧ mark.after ⊆ body) (position : Nat) :
    (directivesFrom body position marks).Spares fun (text, _) => markerOpen ∉ text := by
  have rest (position : Nat) : markerOpen ∉ body.drop position :=
    unmarked_of_subset (List.drop_suffix position body).subset unmarked
  induction marks generalizing position with
  | nil => exact Compile.spares_pure (rest position)
  | cons mark marks ih =>
    obtain ⟨here, later⟩ := List.forall_mem_cons.1 within
    unfold directivesFrom
    split
    · exact ih later position
    · split
      · exact Compile.spares_pure (rest position)
      · next head behind reads =>
        have headUnmarked : markerOpen ∉ head :=
          unmarked_of_subset (List.Subset.trans (subset_of_read? reads).1 here.2) unmarked
        refine (Compile.spares_note _).bind fun _ _ => ?_
        dsimp only
        split
        · refine (spares_directiveAttributes (unmarked_of_tokenize headUnmarked)).bind fun (written, loops) free => ?_
          refine (ih later _).bind fun (others, more) tail => Compile.spares_pure ?_
          have joined : markerOpen ∉ List.intercalate [' '] written := unmarked_intercalate (by decide) free
          have closing : markerOpen ∉ (if TagHead.closesItself head = true then " /" else "" : Text) := by
            split <;> decide
          have opened := unmarked_append (unmarked_append (by decide : markerOpen ∉ ("<" : Text))
            (unmarked_of_subset here.1 unmarked)) (by decide : markerOpen ∉ (" " : Text))
          have tag := unmarked_append (unmarked_append (unmarked_append opened joined) closing)
            (by decide : markerOpen ∉ (">" : Text))
          have front : markerOpen ∉ Text.slice body position mark.offset :=
            fun member => unmarked (List.mem_of_mem_take (List.mem_of_mem_drop member))
          exact unmarked_append (unmarked_append front tag) tail
        · exact ih later position

theorem spares_identify {attributes : List Attribute}
    (facts : ∀ attr ∈ attributes, markerOpen ∉ attr.raw ∧ ∀ text, attr.text? = some text → markerOpen ∉ text) :
    (identify attributes).Spares fun (id, kept) => markerOpen ∉ id ∧ ∀ text ∈ kept, markerOpen ∉ text := by
  have kept : ∀ text ∈ keptAttributes attributes, markerOpen ∉ text :=
    List.forall_mem_map.2 fun attr member => (facts attr (List.mem_of_mem_filter member)).1
  have drawn : (do
      let id ← Compile.nextId "gtml-fetch"
      pure (id, ("id=\"" ++ id ++ "\"") :: keptAttributes attributes) : Compile (Text × List Text)).Spares
        fun (id, kept) => markerOpen ∉ id ∧ ∀ text ∈ kept, markerOpen ∉ text := by
    refine (Compile.spares_nextId (by decide) (by decide)).bind fun id unmarked => Compile.spares_pure ?_
    exact ⟨unmarked, List.forall_mem_cons.2
      ⟨unmarked_append (unmarked_append (by decide) unmarked) (by decide), kept⟩⟩
  unfold identify
  dsimp only
  split
  · exact drawn
  · exact drawn
  · next id _ valued =>
    obtain ⟨attr, found, text⟩ := Option.bind_eq_some_iff.1 valued
    exact Compile.spares_pure ⟨(facts attr (List.mem_of_find?_eq_some found)).2 id text, kept⟩

/-! ### The script of an element -/

theorem unmarked_scriptQuoted {text : Text} (unmarked : markerOpen ∉ text) : markerOpen ∉ Text.scriptQuoted text := by
  intro member
  rcases Text.mem_of_mem_scriptQuoted member with escape | inText
  · exact absurd escape (by decide)
  · exact unmarked inText

/-- A literal is looked at character by character. -/
theorem unmarked_of_spelled {text : String} {characters : List Char} (spelled : String.ofList characters = text)
    (free : characters.all (· != markerOpen) = true) : ∀ c ∈ text.toList, c ≠ markerOpen := by
  subst spelled
  rw [String.toList_ofList]
  exact fun c member => bne_iff_ne.1 (List.all_eq_true.1 free c member)

set_option maxRecDepth 4000 in
/-- The bundled script is as free of markers as what an element inserts in it. -/
theorem unmarked_bundledFetch {element : FetchElement} (id : markerOpen ∉ element.id) (url : markerOpen ∉ element.url)
    (method : markerOpen ∉ element.method) (binding : markerOpen ∉ element.binding) :
    markerOpen ∉ ScriptTexts.bundledFetch element := by
  have free {text : Text} (unmarked : markerOpen ∉ text) : ∀ c ∈ text, c ≠ markerOpen := by
    rintro c member rfl
    exact unmarked member
  have quotedId := free (unmarked_scriptQuoted id)
  have quotedUrl := free (unmarked_scriptQuoted url)
  have byMethod := free method
  have bound := free binding
  have looped : ∀ line ∈ (if element.loops = [] then [] else [("      processForLoops(root, scope);" : Text)]),
      ∀ c ∈ line, c ≠ markerOpen := by
    split
    · exact List.forall_mem_nil _
    · exact List.forall_mem_singleton.2 (unmarked_of_spelled rfl (by decide +kernel))
  obtain ⟨parts, whole, each⟩ : ∃ parts, ScriptTexts.bundledFetch element = ScriptTexts.lines parts ∧
      ∀ line ∈ parts, ∀ c ∈ line, c ≠ markerOpen := by
    refine ⟨_, rfl, ?_⟩
    simp only [ScriptTexts.fetchHelpers, ScriptTexts.fetchFailure, List.map_cons, List.map_nil, List.forall_mem_append,
      List.forall_mem_cons]
    -- The lines are literals, but for what the element inserts.
    and_intros
    all_goals first
      | exact unmarked_of_spelled rfl (by decide +kernel)
      | exact quotedId
      | exact quotedUrl
      | exact byMethod
      | exact bound
      | exact looped
      | exact List.forall_mem_nil _
  rw [whole]
  intro member
  rcases ScriptTexts.mem_of_mem_lines member with lineBreak | ⟨line, listed, inLine⟩
  · exact absurd lineBreak (by decide)
  · exact each line listed _ inLine rfl

theorem unmarked_fetchScript {texts : ScriptTexts} (free : ∀ text, texts.fetch = some text → markerOpen ∉ text)
    {element : FetchElement} (unmarked : markerOpen ∉ ScriptTexts.bundledFetch element) :
    markerOpen ∉ texts.fetchScript element := by
  unfold ScriptTexts.fetchScript
  split
  · next text own => exact unmarked_trim (free text own)
  · exact unmarked_trim unmarked

/-! ### Elements -/

theorem toUpper_ne_markerOpen {c : Char} (letter : c.isAlpha = true) : c.toUpper ≠ markerOpen := by
  have ascii := toNat_of_isAlphanum (by simp [Char.isAlphanum, letter] : c.isAlphanum = true)
  have all : ∀ code < 123, (Char.ofNat code).toUpper ≠ markerOpen := by decide
  have here := all c.toNat (by omega)
  rwa [Char.ofNat_toNat] at here

theorem unmarked_readRequest {written method url : Text} (unmarked : markerOpen ∉ written)
    (reads : readRequest written = .ok (method, url)) : markerOpen ∉ method ∧ markerOpen ∉ url := by
  have trimmed := unmarked_of_subset (subset_trimLeft written) unmarked
  unfold readRequest at reads
  split at reads
  · cases reads
  · have first : markerOpen ∉ (Text.trimLeft written).takeWhile (!isBlank ·) :=
      unmarked_of_subset (List.takeWhile_prefix _).subset trimmed
    dsimp only at reads
    split at reads
    · cases reads
      exact ⟨by decide, first⟩
    · split at reads
      · next letters =>
        cases reads
        refine ⟨fun member => ?_, unmarked_trim (unmarked_of_subset (List.dropWhile_suffix _).subset trimmed)⟩
        obtain ⟨c, inFirst, upper⟩ := List.mem_map.1 member
        exact toUpper_ne_markerOpen (List.all_eq_true.1 letters c inFirst) upper
      · cases reads

theorem unmarked_bindingName {attributes : List Attribute}
    (values : ∀ attr ∈ attributes, ∀ text, attr.text? = some text → markerOpen ∉ text) :
    markerOpen ∉ bindingName attributes := by
  unfold bindingName
  split
  · decide
  · decide
  · next name _ valued =>
    obtain ⟨attr, found, text⟩ := Option.bind_eq_some_iff.1 valued
    exact unmarked_trim (values attr (List.mem_of_find?_eq_some found) name text)

theorem spares_writeElement {texts : ScriptTexts} (free : ∀ text, texts.fetch = some text → markerOpen ∉ text)
    {name head body closeTag : Text} (nameUnmarked : markerOpen ∉ name) (headUnmarked : markerOpen ∉ head)
    (bodyUnmarked : markerOpen ∉ body) (closeUnmarked : markerOpen ∉ closeTag) :
    (writeElement texts name head body closeTag).Spares (markerOpen ∉ ·) := by
  have facts := unmarked_of_tokenize headUnmarked
  have requested : markerOpen ∉ (request? head).getD [] := by
    cases request : request? head with
    | none => exact List.not_mem_nil
    | some written =>
      obtain ⟨attr, found, text⟩ := Option.bind_eq_some_iff.1 request
      exact (facts attr (List.mem_of_find?_eq_some found)).2 written text
  unfold writeElement
  refine (Compile.spares_lift _).bind fun (method, url) reads => ?_
  obtain ⟨methodUnmarked, urlUnmarked⟩ := unmarked_readRequest requested reads
  dsimp only
  split
  · exact Compile.spares_throw _ _
  · refine (spares_identify facts).bind fun (id, kept) ⟨idUnmarked, keptUnmarked⟩ => ?_
    have within : ∀ mark ∈ tagMarks body, mark.name ⊆ body ∧ mark.after ⊆ body :=
      fun mark member => subset_of_mem_marksFrom member
    refine (spares_directivesFrom bodyUnmarked within 0).bind fun (marked, loops) markedFree => ?_
    refine (Compile.spares_note _).bind fun _ _ => Compile.spares_pure ?_
    have bindingUnmarked := unmarked_bindingName fun attr member => (facts attr member).2
    have script := unmarked_fetchScript free
      (@unmarked_bundledFetch ⟨id, method, url, bindingName (Attribute.tokenize head), loops⟩ idUnmarked urlUnmarked
        methodUnmarked bindingUnmarked)
    have opened := unmarked_append (unmarked_append (by decide : markerOpen ∉ ("<" : Text)) nameUnmarked)
      (by decide : markerOpen ∉ (" " : Text))
    have joined : markerOpen ∉ List.intercalate [' '] kept := unmarked_intercalate (by decide) keptUnmarked
    have tag := unmarked_append (unmarked_append opened joined) (by decide : markerOpen ∉ (">" : Text))
    have closed := unmarked_append (unmarked_append tag markedFree) closeUnmarked
    exact unmarked_append (unmarked_append closed (by decide : markerOpen ∉ ("\n" : Text))) script

theorem unmarked_of_next? {html : Text} {start : Nat} {site : Site} (unmarked : markerOpen ∉ html)
    (found : next? html start = some site) : markerOpen ∉ site.name ∧ markerOpen ∉ site.head := by
  have within : ∀ {marks : List Mark}, (∀ mark ∈ marks, mark.name ⊆ html ∧ mark.after ⊆ html) →
      siteOf? marks = some site → markerOpen ∉ site.name ∧ markerOpen ∉ site.head := by
    intro marks each taken
    induction marks with
    | nil => cases taken
    | cons mark marks ih =>
      obtain ⟨here, later⟩ := List.forall_mem_cons.1 each
      unfold siteOf? at taken
      split at taken
      · cases taken
      · next head body reads =>
        split at taken
        · cases taken
          exact ⟨unmarked_of_subset here.1 unmarked,
            unmarked_of_subset (List.Subset.trans (subset_of_read? reads).1 here.2) unmarked⟩
        · exact ih later taken
  refine within (fun mark member => ?_) found
  obtain ⟨name, after⟩ := subset_of_mem_marksFrom member
  have dropped := (List.drop_suffix start html).subset
  exact ⟨List.Subset.trans name dropped, List.Subset.trans after dropped⟩

theorem spares_lowerFrom {texts : ScriptTexts} (free : ∀ text, texts.fetch = some text → markerOpen ∉ text) {html : Text}
    (unmarked : markerOpen ∉ html) (position : Nat) : (lowerFrom texts html position).Spares (markerOpen ∉ ·) := by
  have sliced {html : Text} (unmarked : markerOpen ∉ html) (start stop : Nat) : markerOpen ∉ Text.slice html start stop :=
    fun member => unmarked (List.mem_of_mem_take (List.mem_of_mem_drop member))
  fun_induction lowerFrom texts html position with
  | case1 html position unfound =>
    exact (Compile.spares_note _).bind fun _ _ =>
      Compile.spares_pure (unmarked_of_subset (List.drop_suffix position html).subset unmarked)
  | case2 html position site found bounds closes ih =>
    obtain ⟨name, head⟩ := unmarked_of_next? unmarked found
    have closing := unmarked_append (unmarked_append (by decide : markerOpen ∉ ("</" : Text)) name)
      (by decide : markerOpen ∉ (">" : Text))
    refine (Compile.spares_note _).bind fun _ _ => ?_
    refine (spares_writeElement free name head List.not_mem_nil closing).bind fun written writtenFree => ?_
    refine (ih unmarked).bind fun rest restFree => Compile.spares_pure ?_
    exact unmarked_append (unmarked_append (sliced unmarked _ _) writtenFree) restFree
  | case3 html position site found bounds open_ unclosed =>
    exact (Compile.spares_note _).bind fun _ _ => Compile.spares_throw _ _
  | case4 html position site found bounds open_ close closed inside size body rest =>
    obtain ⟨name, head⟩ := unmarked_of_next? unmarked found
    refine (Compile.spares_note _).bind fun _ _ => ?_
    refine (body (sliced unmarked _ _)).bind fun lowered loweredFree => ?_
    refine (spares_writeElement free name head loweredFree (sliced unmarked _ _)).bind fun written writtenFree => ?_
    refine (rest unmarked).bind fun others othersFree => Compile.spares_pure ?_
    exact unmarked_append (unmarked_append (sliced unmarked _ _) writtenFree) othersFree

/-- Lowering the fetch elements of a text without markers spares the page and makes no marker. -/
theorem spares_lower {texts : ScriptTexts} (free : ∀ text, texts.fetch = some text → markerOpen ∉ text) {html : Text}
    (unmarked : markerOpen ∉ html) : (lower texts html).Spares (markerOpen ∉ ·) :=
  spares_lowerFrom free unmarked 0

end Fetch

end ComponentPages
