import ComponentPages.Fetch.Lowering
import ComponentPages.Proofs.Checked.Script
import ComponentPages.Proofs.Markup.Quiet

/-!
Fetch elements, masked and lowered with checked operations. The head of a tag is cut out between two offsets, the words
of a request are taken by their places in a list, and the style attribute of an element is sought among the attributes
that were written for it.
-/
namespace ComponentPages

namespace Text

theorem trim_trimLeft (text : Text) : trim (trimLeft text) = trim text := by
  rw [trim, trimLeft_trimLeft, trim]

theorem trim_eq_nil_iff {text : Text} : trim text = [] ↔ trimLeft text = [] := by
  constructor
  · intro blank
    obtain ⟨before, after, beforeSpace, afterSpace, whole⟩ := exists_eq_trim text
    rw [blank, List.append_nil] at whole
    refine List.dropWhile_eq_nil_iff.2 fun c member => ?_
    rw [whole] at member
    exact (List.mem_append.1 member).elim (beforeSpace c) (afterSpace c)
  · intro blank
    rw [trim, blank]
    rfl

end Text

namespace Fetch

/-- What follows a mark stands behind its name. -/
theorem drop_of_mem_marksFrom {first part : Char → Bool} {blocks : List Span} {offset : Nat} {html text : Text}
    {mark : Mark} (stands : html.drop offset = text) (member : mark ∈ marksFrom first part blocks offset text) :
    html.drop (mark.offset + 1 + mark.name.length) = mark.after := by
  induction text generalizing offset with
  | nil => cases member
  | cons c rest ih =>
    have later := @ih (offset + 1) (Text.drop_succ_of_cons stands)
    rw [marksFrom] at member
    split at member
    · next found read =>
      rcases List.mem_cons.1 member with rfl | behind
      · split at read
        · cases read
        · rw [mark?.eq_def] at read
          split at read
          · next d tail whole =>
            split at read
            · obtain rfl := Option.some.inj read
              obtain ⟨rfl, rfl⟩ := List.cons.inj whole
              have place : html.drop offset = ('<' :: d :: tail.takeWhile part) ++ tail.dropWhile part := by
                rw [stands, List.cons_append, List.cons_append, List.takeWhile_append_dropWhile]
              rw [← Text.drop_of_drop place]
              simp only [List.length_cons, Nat.add_assoc, Nat.add_comm 1]
            · cases read
          · cases read
      · exact later behind
    · exact later member

theorem requested_of_siteOf? {marks : List Mark} {site : Site} (found : siteOf? marks = some site) :
    (request? site.head).isSome = true := by
  induction marks with
  | nil => cases found
  | cons mark rest ih =>
    rw [siteOf?] at found
    split at found
    · cases found
    · split at found
      · next requested =>
        cases found
        exact requested
      · exact ih found

theorem bodies_of_site {html : Text} {start : Nat} {site : Site} (found : next? html start = some site) :
    bodies html start =
      if TagHead.closesItself site.head then bodies html site.bodyStart
      else
        match Tag.close? html site.name site.bodyStart with
        | none => .error (.unclosedFetch site.name)
        | some close => (bodies html close.stop).map (⟨site.bodyStart, close.start⟩ :: ·) := by
  rw [bodies]
  split
  · next nothing =>
    rw [found] at nothing
    cases nothing
  · next other found' =>
    obtain rfl := Option.some.inj (found.symm.trans found')
    by_cases itself : TagHead.closesItself site.head
    · rw [if_pos itself, if_pos itself]
    · rw [if_neg itself, if_neg itself]
      split
      · next unclosed => rw [unclosed]
      · next close closed =>
        dsimp only
        rw [closed]

theorem lowerFrom_of_nothing {html : Text} {position : Nat} (nothing : next? html position = none) (texts : ScriptTexts) :
    lowerFrom texts html position = (do
      Compile.note ((headsRead (elementMarks html position)).flatMap Note.ofHead)
      pure (html.drop position)) := by
  rw [lowerFrom]
  split
  · rfl
  · next found =>
    rw [nothing] at found
    cases found

theorem lowerFrom_of_site {html : Text} {position : Nat} {site : Site} (found : next? html position = some site)
    (texts : ScriptTexts) :
    lowerFrom texts html position = (do
      Compile.note ((headsRead (elementMarks html position)).flatMap Note.ofHead)
      if TagHead.closesItself site.head then
        let written ← writeElement texts site.name site.head [] ("</" ++ site.name ++ ">")
        let rest ← lowerFrom texts html site.bodyStart
        pure (Text.slice html position site.offset ++ written ++ rest)
      else
        match Tag.close? html site.name site.bodyStart with
        | none => throw (.unclosedFetch site.name)
        | some close =>
          let body ← lowerFrom texts (Text.slice html site.bodyStart close.start) 0
          let written ← writeElement texts site.name site.head body (Text.slice html close.start close.stop)
          let rest ← lowerFrom texts html close.stop
          pure (Text.slice html position site.offset ++ written ++ rest)) := by
  rw [lowerFrom]
  split
  · next nothing =>
    rw [found] at nothing
    cases nothing
  · next other found' =>
    obtain rfl := Option.some.inj (found.symm.trans found')
    by_cases itself : TagHead.closesItself site.head
    · rw [if_pos itself, if_pos itself]
    · rw [if_neg itself, if_neg itself]
      split
      · next unclosed => rw [unclosed]
      · next close closed =>
        dsimp only
        rw [closed]

end Fetch

namespace Guarded

variable {α β : Type}

/-- Only the values that a compilation can come back with matter to what follows it. -/
theorem embed_bind_congr {first : Compile α} {next other : α → Guarded Compile β}
    (same : ∀ value, first.Yields value → next value = other value) :
    (embed first >>= next) = embed first >>= other := by
  apply ExceptT.ext
  change ((Except.ok <$> first) >>= ExceptT.bindCont next) = (Except.ok <$> first) >>= ExceptT.bindCont other
  rw [bind_map_left, bind_map_left]
  refine Compile.ext_run fun page => ?_
  rw [Compile.run_bind, Compile.run_bind]
  rcases ran : first.run page with ⟨failure | value, later⟩
  · rfl
  · change (next value).run.run later = (other value).run.run later
    rw [same value ⟨page, later, ran⟩]

end Guarded

namespace Checked

open Guarded (embed check)
open Fetch (Mark Site Directive)

def item {α : Type} (list : List α) (index : Nat) : Checked α := require .index list[index]?

/-- The first of some tags that has a valued `fetch` attribute. -/
def siteOf (html : Text) : List Mark → Checked (Option Site)
  | [] => .ok none
  | mark :: rest => do
    let headStart := mark.offset + 1 + mark.name.length
    match ← tagEnd html headStart with
    | none => .ok none
    | some stop =>
      let head := Text.slice html headStart stop
      let found ← attributes head
      if ((Attribute.find? "fetch" found).bind Attribute.text?).isSome then
        .ok (some ⟨mark.offset, mark.name, head, html.drop (stop + 1)⟩)
      else siteOf html rest

/-- The first fetch element at or after an offset. -/
def nextSite (html : Text) (start : Nat) : Checked (Option Site) := siteOf html (Fetch.elementMarks html start)

/-- The bodies of the outermost fetch elements from an offset on. -/
def fetchBodies (html : Text) (start : Nat) : Guarded (Except Failure) (List Span) := do
  match ← check (nextSite html start) with
  | none => pure []
  | some site =>
    if TagHead.closesItself site.head then
      if _onward : start < site.bodyStart ∧ site.bodyStart ≤ html.length then fetchBodies html site.bodyStart
      else check (.error .endless)
    else
      match ← check (matchingClose html site.name site.bodyStart) with
      | none => embed (.error (.unclosedFetch site.name))
      | some close =>
        if _onward : start < close.stop ∧ close.stop ≤ html.length then do
          let others ← fetchBodies html close.stop
          pure (⟨site.bodyStart, close.start⟩ :: others)
        else check (.error .endless)
termination_by html.length - start

/-- One character of a text in which the braces in bodies are masked. -/
def maskTurn (html : Text) (bodies : List Span) (found : Text) (index : Nat) : Checked (Turn (Text × Nat) Text) := do
  let c ← charAt html index
  if (c == '\x7b' || c == '\x7d') && covered bodies index then
    let inside ← insideTag isUpper html index
    .ok (.next (found ++ [if inside then c else Fetch.maskChar c], index + 1))
  else .ok (.next (found ++ [c], index + 1))

/-- Hides the braces in the bodies of fetch elements. -/
def maskBodies (html : Text) : Guarded (Except Failure) Text := do
  let bodies ← fetchBodies html 0
  check (loop html (maskTurn html bodies) (fun found _ => found) [] 0)

/-- The words of a request: none, a URL, or a method and what follows it. -/
def requestParts (written : Text) : List Text :=
  let text := Text.trimLeft written
  let first := text.takeWhile (!isBlank ·)
  let rest := Text.trimLeft (text.dropWhile (!isBlank ·))
  if text = [] then [] else if rest = [] then [first] else [first, rest]

/-- The method and URL of a request; a URL alone means GET. -/
def readRequest (written : Text) : Guarded (Except Failure) (Text × Text) := do
  let parts := requestParts written
  if parts = [] then embed (.error (.emptyFetch written))
  else if parts.length = 1 then do
    let url ← check (item parts 0)
    pure ("GET", url)
  else do
    let method ← check (item parts 0)
    let url ← check (item parts 1)
    if method.all Char.isAlpha then pure (method.map Char.toUpper, Text.trim url)
    else embed (.error (.fetchMethod method written))

/-- Replaces the first element equal to `old`, which must be there. -/
def replaceFirst (old new : Text) (texts : List Text) : Checked (List Text) :=
  (require .absent (texts.findIdx? (· == old))).map fun index => texts.set index new

/-- Hides an element by its style attribute, or by a new one when it has none with a value. -/
def hide (found : List Attribute) (written : List Text) : Checked (List Text) :=
  let style := Attribute.find? "style" found
  match style, style.bind Attribute.text? with
  | some attr, some css => replaceFirst attr.raw ("style=\"display:none;" ++ css ++ "\"") written
  | _, _ => .ok (written ++ [("style=\"display:none\"" : Text)])

/-- Writes the attributes of a tag that has directives, and gives its loops. -/
def directiveAttributes (found : List Attribute) : Guarded Compile (List Text × List Loop) := do
  let directives ← embed (found.mapM Fetch.directive)
  let written := directives.map Directive.written
  let loops := directives.filterMap Directive.loop?
  if directives.any Directive.hides then do
    let hidden ← check (hide found written)
    pure (hidden, loops)
  else pure (written, loops)

/-- Writes the rest of a body with its directives lowered, given its remaining tags. -/
def directivesFrom (body : Text) (position : Nat) : List Mark → Guarded Compile (Text × List Loop)
  | [] => pure (body.drop position, [])
  | mark :: rest =>
    if mark.offset < position then directivesFrom body position rest
    else do
      let headStart := mark.offset + 1 + mark.name.length
      match ← check (tagEnd body headStart) with
      | none => pure (body.drop position, [])
      | some stop =>
        let head := Text.slice body headStart stop
        embed (Compile.note (Note.ofHead head))
        let found ← check (attributes head)
        if found.any fun attr => Fetch.isDirectiveName attr.name then
          let (written, loops) ← directiveAttributes found
          let closing : Text := if TagHead.closesItself head then " /" else ""
          let tag := "<" ++ mark.name ++ " " ++ List.intercalate [' '] written ++ closing ++ ">"
          let (others, more) ← directivesFrom body (stop + 1) rest
          pure (Text.slice body position mark.offset ++ tag ++ others, loops ++ more)
        else directivesFrom body position rest

/-- Writes one fetch element, whose body is lowered already, and its script. The element has a `fetch` attribute. -/
def writeElement (texts : ScriptTexts) (name head body closeTag : Text) : Guarded Compile Text := do
  let found ← check (attributes head)
  let fetch ← check (require .missing (Attribute.find? "fetch" found))
  let (method, url) ← Guarded.lift (readRequest (fetch.text?.getD []))
  let binding := Fetch.bindingName found
  if !Fetch.isScriptName binding then embed (throw (.fetchBinding binding))
  let (id, kept) ← embed (Fetch.identify found)
  let (marked, loops) ← directivesFrom body 0 (Fetch.tagMarks body)
  embed (Compile.note [.fetchElement id method url binding loops.length])
  let element : FetchElement := { id, method, url, binding, loops }
  pure ("<" ++ name ++ " " ++ List.intercalate [' '] kept ++ ">" ++ marked ++ closeTag ++ "\n" ++
    texts.fetchScript element)

/-- Lowers the fetch elements from an offset on, the inner ones before the outer. -/
def lowerFetch (texts : ScriptTexts) (html : Text) (position : Nat) : Guarded Compile Text := do
  let site? ← check (nextSite html position)
  embed (Compile.note ((Fetch.headsRead (Fetch.elementMarks html position)).flatMap Note.ofHead))
  match site? with
  | none => pure (html.drop position)
  | some site =>
    if TagHead.closesItself site.head then
      if _onward : position < site.bodyStart ∧ site.bodyStart ≤ html.length then do
        let written ← writeElement texts site.name site.head [] ("</" ++ site.name ++ ">")
        let rest ← lowerFetch texts html site.bodyStart
        pure (Text.slice html position site.offset ++ written ++ rest)
      else check (.error .endless)
    else
      match ← check (matchingClose html site.name site.bodyStart) with
      | none => embed (throw (.unclosedFetch site.name))
      | some close =>
        if _onward : (Text.slice html site.bodyStart close.start).length < html.length ∧ position < close.stop ∧
            close.stop ≤ html.length then do
          let body ← lowerFetch texts (Text.slice html site.bodyStart close.start) 0
          let written ← writeElement texts site.name site.head body (Text.slice html close.start close.stop)
          let rest ← lowerFetch texts html close.stop
          pure (Text.slice html position site.offset ++ written ++ rest)
        else check (.error .endless)
termination_by (html.length, html.length - position)
decreasing_by
  · exact Prod.Lex.right _ (by omega)
  · exact Prod.Lex.left _ _ _onward.1
  · exact Prod.Lex.right _ (by omega)

theorem siteOf_eq {html : Text} {marks : List Mark}
    (placed : ∀ mark ∈ marks, html.drop (mark.offset + 1 + mark.name.length) = mark.after) :
    siteOf html marks = .ok (Fetch.siteOf? marks) := by
  induction marks with
  | nil => rfl
  | cons mark rest ih =>
    have place := placed mark List.mem_cons_self
    rw [siteOf, Fetch.siteOf?]
    cases read : TagHead.read? mark.after with
    | none =>
      rw [tagEnd_of_unread (by rw [place]; exact read)]
      rfl
    | some parts =>
      obtain ⟨head, body⟩ := parts
      have whole := place.trans (TagHead.eq_of_split? read)
      rw [@tagEnd_of_read html head body _ (by rw [place]; exact read), ok_bind]
      dsimp only
      rw [Text.slice_of_drop whole, attributes_eq, ok_bind, Text.drop_succ_of_drop whole,
        ih fun other member => placed other (List.mem_cons_of_mem mark member)]
      exact (apply_ite Except.ok _ _ _).symm

theorem nextSite_eq (html : Text) (start : Nat) : nextSite html start = .ok (Fetch.next? html start) :=
  siteOf_eq fun _ member => Fetch.drop_of_mem_marksFrom rfl member

theorem fetchBodies_eq (html : Text) (start : Nat) : fetchBodies html start = embed (Fetch.bodies html start) := by
  rw [fetchBodies, Guarded.check_ok (nextSite_eq html start), pure_bind]
  cases found : Fetch.next? html start with
  | none => rw [Fetch.bodies_of_none found, Guarded.embed_ok]
  | some site =>
    have bounds := Fetch.bounds_of_next? found
    rw [Fetch.bodies_of_site found]
    dsimp only
    by_cases itself : TagHead.closesItself site.head
    · have onward : start < site.bodyStart ∧ site.bodyStart ≤ html.length := by omega
      rw [if_pos itself, if_pos itself, dif_pos onward, fetchBodies_eq html site.bodyStart]
    · rw [if_neg itself, if_neg itself, Guarded.check_ok (matchingClose_eq _ _ _), pure_bind]
      cases closed : Tag.close? html site.name site.bodyStart with
      | none => rfl
      | some close =>
        have inside := Tag.bounds_of_closeFrom? closed
        rw [List.length_drop] at inside
        have onward : start < close.stop ∧ close.stop ≤ html.length := by omega
        dsimp only
        rw [dif_pos onward, fetchBodies_eq html close.stop]
        cases Fetch.bodies html close.stop <;> rfl
termination_by html.length - start
decreasing_by
  · omega
  · omega

/-- Masking goes on behind a character that is masked or not. -/
theorem maskTurn_eq {html rest : Text} {index : Nat} {c : Char} (stands : html.drop index = c :: rest)
    (bodies : List Span) (found : Text) :
    maskTurn html bodies found index =
      .ok (.next (found ++ (Fetch.maskFrom bodies html index [c]), index + 1)) := by
  have size := Text.length_of_drop stands
  rw [maskTurn, charAt_of_drop stands, ok_bind, insideTag_component (by omega), Fetch.maskFrom, Fetch.maskFrom]
  cases (c == '\x7b' || c == '\x7d') && covered bodies index with
  | false => rfl
  | true => cases insideComponentTag html index <;> rfl

theorem maskBodies_eq (html : Text) : maskBodies html = embed (Fetch.mask html) := by
  have masked (bodies : List Span) : loop html (maskTurn html bodies) (fun found _ => found) [] 0 =
      .ok (Fetch.maskFrom bodies html 0 html) := by
    refine loop_eq (fun found index rest => found ++ Fetch.maskFrom bodies html index rest)
      (fun found index => by rw [Fetch.maskFrom, List.append_nil]) (fun found index c rest stands => ?_) [] 0
    refine .inr ⟨_, _, maskTurn_eq stands bodies found, Nat.lt_succ_self index, ?_⟩
    rw [Text.drop_succ_of_cons stands, List.append_assoc]
    rfl
  rw [maskBodies, fetchBodies_eq, Fetch.mask]
  cases Fetch.bodies html 0 with
  | error failure => rfl
  | ok bodies =>
    rw [Guarded.embed_ok, pure_bind]
    exact Guarded.check_ok (masked bodies)

theorem readRequest_eq (written : Text) : readRequest written = embed (Fetch.readRequest written) := by
  rw [readRequest, Fetch.readRequest, requestParts]
  cases Text.trimLeft written with
  | nil => rfl
  | cons c text =>
    rw [if_neg (List.cons_ne_nil c text)]
    dsimp only
    generalize (c :: text).dropWhile (!isBlank ·) = behind
    generalize (c :: text).takeWhile (!isBlank ·) = first
    rw [← Text.trim_trimLeft behind]
    cases follows : Text.trimLeft behind with
    | nil => rfl
    | cons d more =>
      have url : Text.trim (d :: more) ≠ [] := by
        rw [← follows, Text.trim_trimLeft]
        exact fun blank => List.cons_ne_nil d more (follows.symm.trans (Text.trim_eq_nil_iff.1 blank))
      rw [if_neg (List.cons_ne_nil d more)]
      obtain ⟨e, rest, whole⟩ := List.exists_cons_of_ne_nil url
      rw [whole]
      change (if first.all Char.isAlpha then (pure (first.map Char.toUpper, Text.trim (d :: more)) :
        Guarded (Except Failure) (Text × Text)) else embed (.error (.fetchMethod first written))) = _
      rw [whole]
      cases first.all Char.isAlpha <;> rfl

theorem replaceFirst_eq {old : Text} {texts : List Text} (member : old ∈ texts) (new : Text) :
    replaceFirst old new texts = .ok (Fetch.replaceFirst old new texts) := by
  induction texts with
  | nil => cases member
  | cons text rest ih =>
    rw [replaceFirst, List.findIdx?_cons, Fetch.replaceFirst]
    by_cases here : text = old
    · rw [if_pos here, if_pos (beq_iff_eq.2 here)]
      rfl
    · have later := ih ((List.mem_cons.1 member).resolve_left fun same => here same.symm)
      rw [if_neg here, if_neg (by simpa using here)]
      rw [replaceFirst] at later
      cases place : rest.findIdx? (· == old) with
      | none =>
        rw [place] at later
        cases later
      | some index =>
        rw [place] at later
        exact congrArg Except.ok (congrArg (text :: ·) (Except.ok.inj later))

theorem hide_eq {found : List Attribute} {written : List Text}
    (spelled : ∀ attr, Attribute.find? "style" found = some attr → attr.raw ∈ written) :
    hide found written = .ok (Fetch.hide found written) := by
  rw [hide, Fetch.hide]
  cases style : Attribute.find? "style" found with
  | none => rfl
  | some attr =>
    dsimp only [Option.bind_some]
    cases attr.text? with
    | none => rfl
    | some css => exact replaceFirst_eq (spelled attr style) _

/-- An attribute that is no directive keeps its spelling. -/
theorem written_of_directive {attr : Attribute} (plain : Fetch.isDirectiveName attr.name = false) {directive : Directive}
    (yields : (Fetch.directive attr).Yields directive) : directive.written = attr.raw := by
  simp only [Fetch.isDirectiveName, Bool.or_eq_false_iff, beq_eq_false_iff_ne] at plain
  obtain ⟨⟨suspense, fallback⟩, loop⟩ := plain
  have other {name : Text} {flag : Bool} (ne : attr.name ≠ name) : ¬(decide (attr.name = name) && flag) = true :=
    fun both => ne (of_decide_eq_true (Bool.and_eq_true_iff.1 both).1)
  have kept : Fetch.directive attr = pure { written := attr.raw } := by
    rw [Fetch.directive, if_neg (other suspense), if_neg (other fallback), beq_eq_false_iff_ne.2 loop]
  rw [kept] at yields
  obtain ⟨page, later, ran⟩ := yields
  cases ran
  rfl

theorem mem_written_of_directives {found : List Attribute} {directives : List Directive}
    (yields : (found.mapM Fetch.directive).Yields directives) {attr : Attribute} (member : attr ∈ found)
    (plain : Fetch.isDirectiveName attr.name = false) : attr.raw ∈ directives.map Directive.written := by
  obtain ⟨page, later, ran⟩ := yields
  induction found generalizing directives page later with
  | nil => cases member
  | cons first rest ih =>
    rw [List.mapM_cons] at ran
    obtain ⟨directive, between, here, ran⟩ := Compile.exists_of_run_bind ran
    obtain ⟨others, after, behind, ran⟩ := Compile.exists_of_run_bind ran
    cases ran
    rw [List.map_cons]
    rcases List.mem_cons.1 member with rfl | inRest
    · rw [written_of_directive plain ⟨page, between, here⟩]
      exact List.mem_cons_self
    · exact List.mem_cons_of_mem _ (ih inRest between _ behind)

theorem directiveAttributes_eq (found : List Attribute) :
    directiveAttributes found = embed (Fetch.directiveAttributes found) := by
  rw [directiveAttributes, Fetch.directiveAttributes, Guarded.embed_bind]
  refine Guarded.embed_bind_congr fun directives yields => ?_
  have spelled (attr : Attribute) (style : Attribute.find? "style" found = some attr) :
      attr.raw ∈ directives.map Directive.written := by
    have named : attr.name = "style" := by simpa using List.find?_some style
    exact mem_written_of_directives yields (List.mem_of_find?_eq_some style) (by rw [named]; decide)
  dsimp only
  rw [Guarded.check_ok (hide_eq spelled)]
  cases directives.any Directive.hides <;> rfl

theorem directivesFrom_eq {body : Text} {marks : List Mark}
    (placed : ∀ mark ∈ marks, body.drop (mark.offset + 1 + mark.name.length) = mark.after) (position : Nat) :
    directivesFrom body position marks = embed (Fetch.directivesFrom body position marks) := by
  induction marks generalizing position with
  | nil => exact (Guarded.embed_pure _).symm
  | cons mark rest ih =>
    have place := placed mark List.mem_cons_self
    have later := ih fun other member => placed other (List.mem_cons_of_mem mark member)
    rw [directivesFrom, Fetch.directivesFrom]
    dsimp only
    by_cases passed : mark.offset < position
    · rw [if_pos passed, if_pos passed, later]
    · rw [if_neg passed, if_neg passed]
      cases read : TagHead.read? mark.after with
      | none =>
        rw [Guarded.check_ok (tagEnd_of_unread (by rw [place]; exact read)), pure_bind, Guarded.embed_pure]
      | some parts =>
        obtain ⟨head, after⟩ := parts
        have whole := place.trans (TagHead.eq_of_split? read)
        rw [Guarded.check_ok (@tagEnd_of_read body head after _ (by rw [place]; exact read)), pure_bind]
        dsimp only
        rw [Text.slice_of_drop whole, Guarded.embed_bind]
        refine bind_congr fun _ => ?_
        have behind : mark.offset + 1 + mark.name.length + head.length + 1 =
            mark.offset + mark.name.length + head.length + 2 := by omega
        rw [Guarded.check_ok (attributes_eq head), pure_bind, Guarded.embed_ite, later, later, behind,
          directiveAttributes_eq, Guarded.embed_bind]
        refine if_congr Iff.rfl (bind_congr fun parts => ?_) rfl
        rw [Guarded.embed_bind_pure]

theorem writeElement_eq (texts : ScriptTexts) (name head body closeTag : Text)
    (requested : (Fetch.request? head).isSome = true) :
    writeElement texts name head body closeTag = embed (Fetch.writeElement texts name head body closeTag) := by
  rw [writeElement, Fetch.writeElement, Guarded.check_ok (attributes_eq head), pure_bind]
  rw [Fetch.request?] at requested ⊢
  cases sought : Attribute.find? "fetch" (Attribute.tokenize head) with
  | none =>
    rw [sought] at requested
    cases requested
  | some fetch =>
    rw [Option.bind_some, require, Guarded.check_ok rfl, pure_bind, readRequest_eq, Guarded.lift_embed, Guarded.embed_bind]
    refine bind_congr fun request => ?_
    dsimp only
    cases Fetch.isScriptName (Fetch.bindingName (Attribute.tokenize head)) with
    | false => rfl
    | true =>
      rw [Bool.not_true, if_neg Bool.false_ne_true, if_neg Bool.false_ne_true, Guarded.embed_bind]
      refine bind_congr fun identity => ?_
      have placed : ∀ mark ∈ Fetch.tagMarks body, body.drop (mark.offset + 1 + mark.name.length) = mark.after :=
        fun _ member => Fetch.drop_of_mem_marksFrom List.drop_zero member
      rw [directivesFrom_eq placed, Guarded.embed_bind]
      refine bind_congr fun marked => ?_
      rw [Guarded.embed_bind_pure]

theorem lowerFetch_eq (texts : ScriptTexts) (html : Text) (position : Nat) :
    lowerFetch texts html position = embed (Fetch.lowerFrom texts html position) := by
  rw [lowerFetch, Guarded.check_ok (nextSite_eq html position), pure_bind]
  cases found : Fetch.next? html position with
  | none => rw [Fetch.lowerFrom_of_nothing found, Guarded.embed_bind_pure]
  | some site =>
    have bounds := Fetch.bounds_of_next? found
    have requested := Fetch.requested_of_siteOf? found
    rw [Fetch.lowerFrom_of_site found, Guarded.embed_bind]
    refine bind_congr fun _ => ?_
    dsimp only
    by_cases itself : TagHead.closesItself site.head
    · have onward : position < site.bodyStart ∧ site.bodyStart ≤ html.length := by omega
      have behind := lowerFetch_eq texts html site.bodyStart
      rw [if_pos itself, if_pos itself, dif_pos onward, writeElement_eq _ _ _ _ _ requested, Guarded.embed_bind]
      refine bind_congr fun written => ?_
      rw [behind, Guarded.embed_bind_pure]
    · rw [if_neg itself, if_neg itself, Guarded.check_ok (matchingClose_eq _ _ _), pure_bind]
      cases closed : Tag.close? html site.name site.bodyStart with
      | none => rfl
      | some close =>
        have inside := Tag.bounds_of_closeFrom? closed
        have size := Fetch.length_body_lt closed
        rw [List.length_drop] at inside
        have onward : (Text.slice html site.bodyStart close.start).length < html.length ∧ position < close.stop ∧
            close.stop ≤ html.length := by omega
        have inner := lowerFetch_eq texts (Text.slice html site.bodyStart close.start) 0
        have behind := lowerFetch_eq texts html close.stop
        dsimp only
        rw [dif_pos onward, inner, Guarded.embed_bind]
        refine bind_congr fun body => ?_
        rw [writeElement_eq _ _ _ _ _ requested, Guarded.embed_bind]
        refine bind_congr fun written => ?_
        rw [behind, Guarded.embed_bind_pure]
termination_by (html.length, html.length - position)
decreasing_by
  · exact Prod.Lex.right _ (by omega)
  · exact Prod.Lex.left _ _ size
  · exact Prod.Lex.right _ (by omega)

end Checked

end ComponentPages
