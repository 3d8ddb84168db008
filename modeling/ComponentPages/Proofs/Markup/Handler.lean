import ComponentPages.Proofs.Counters
import ComponentPages.Proofs.Markup.Quiet
import ComponentPages.Proofs.Script.Nested

/-!
Inline handlers. Where a template reads like a handler, how it falls into parts piece by piece, and what a part is
written as: a handler becomes an attribute with the next id and queues one script, and an id that is new gives a
script that is new.
-/
namespace ComponentPages

namespace Signal

/-- Text that reads like an inline handler up to its opening brace. -/
def SpellsHandler (text : Text) : Prop :=
  ∃ event left right body, IsEvent event ∧ IsSpace left ∧ IsSpace right ∧
    text = event ++ left ++ '=' :: right ++ '\x7b' :: body

theorem spellsHandler_iff {text : Text} : SpellsHandler text ↔ handlerStart text ≠ none := by
  rw [Option.ne_none_iff_exists']
  constructor
  · rintro ⟨event, left, right, body, spelled⟩
    exact ⟨(event, body), handlerStart_eq_some_iff.2 ⟨left, right, spelled⟩⟩
  · rintro ⟨⟨event, body⟩, starts⟩
    obtain ⟨left, right, spelled⟩ := handlerStart_eq_some_iff.1 starts
    exact ⟨event, left, right, body, spelled⟩

theorem handlerStart_of_ne {c : Char} (other : c ≠ 'o') (rest : Text) : handlerStart (c :: rest) = none := by
  simp [handlerStart, Script.event, Text.after?, other.symm]

theorem solid_of_isQuote {quote : Char} (quotes : isQuote quote = true) :
    isBlank quote = false ∧ quote.isAlpha = false ∧ quote ≠ '=' ∧ quote ≠ '\x7b' ∧ quote ≠ 'o' := by
  rcases isQuote_iff.1 quotes with rfl | rfl <;> decide

/-- What reads like a handler ends before a character that stands neither in an event nor around the equals sign and is
no brace. -/
theorem spellsHandler_of_border {border : Char}
    (foreign : isBlank border = false ∧ border.isAlpha = false ∧ border ≠ '=' ∧ border ≠ '\x7b') {text more : Text}
    (spelled : SpellsHandler (text ++ border :: more)) : SpellsHandler text := by
  obtain ⟨event, left, right, body, named, leftSpace, rightSpace, whole⟩ := spelled
  obtain ⟨solid, symbol, notEqual, other⟩ := foreign
  have borderless : border ∉ event ++ left ++ '=' :: right := by
    intro member
    simp only [List.mem_append, List.mem_cons] at member
    rcases member with (inEvent | inSpace) | equal | inSpace
    · exact absurd (named.isAlpha border inEvent) (by simp [symbol])
    · exact absurd (leftSpace border inSpace) (by simp [solid])
    · exact notEqual equal
    · exact absurd (rightSpace border inSpace) (by simp [solid])
  rcases List.append_eq_append_iff.1 whole with ⟨gap, longer, remains⟩ | ⟨gap, longer, remains⟩
  · cases gap with
    | nil => exact absurd (List.cons.inj remains).1 other
    | cons c gap =>
      obtain rfl := (List.cons.inj remains).1
      exact absurd (by rw [longer]; simp) borderless
  · cases gap with
    | nil => exact absurd (List.cons.inj remains).1.symm other
    | cons c gap =>
      obtain rfl := (List.cons.inj remains).1
      exact ⟨event, left, right, gap, named, leftSpace, rightSpace, longer⟩

theorem spellsHandler_of_quoted {quote : Char} (quotes : isQuote quote = true) {text more : Text}
    (spelled : SpellsHandler (text ++ quote :: more)) : SpellsHandler text := by
  obtain ⟨solid, symbol, notEqual, other, -⟩ := solid_of_isQuote quotes
  exact spellsHandler_of_border ⟨solid, symbol, notEqual, other⟩ spelled

theorem SpellsHandler.append {text : Text} (spelled : SpellsHandler text) (more : Text) :
    SpellsHandler (text ++ more) := by
  obtain ⟨event, left, right, body, named, leftSpace, rightSpace, rfl⟩ := spelled
  exact ⟨event, left, right, body ++ more, named, leftSpace, rightSpace, by simp⟩

/-- What is assigned between quotes reads like no handler at its name. -/
theorem not_spellsHandler_quoted {quote : Char} (quotes : isQuote quote = true) {name left right : Text}
    (named : ∀ c ∈ name, isBlank c = false ∧ c ≠ '=') (leftSpace : IsSpace left) (rightSpace : IsSpace right)
    (more : Text) : ¬SpellsHandler (name ++ left ++ '=' :: right ++ quote :: more) := by
  rintro ⟨event, left', right', body, event_, leftSpace', rightSpace', whole⟩
  have equalless {word space : Text} (solid : ∀ c ∈ word, c ≠ '=') (blank : IsSpace space) :
      ∀ c ∈ word ++ space, c ≠ '=' := by
    rintro c member rfl
    rcases List.mem_append.1 member with inWord | inSpace
    · exact solid '=' inWord rfl
    · exact absurd (blank '=' inSpace) (by decide)
  have first := Text.cut?_append (equalless (fun c member => (named c member).2) leftSpace) (right ++ quote :: more)
  have second := Text.cut?_append (equalless (fun c member => by
    rintro rfl
    exact absurd (event_.isAlpha '=' member) (by decide)) leftSpace') (right' ++ '\x7b' :: body)
  have same :
      name ++ left ++ '=' :: (right ++ quote :: more) = event ++ left' ++ '=' :: (right' ++ '\x7b' :: body) := by
    simpa using whole
  rw [same, second] at first
  have behind := congrArg Text.trimLeft (Prod.mk.inj (Option.some.inj first)).2
  rw [Text.trimLeft_append_cons rightSpace' (by decide),
    Text.trimLeft_append_cons rightSpace (solid_of_isQuote quotes).1] at behind
  obtain rfl := (List.cons.inj behind).1
  cases quotes

section Parts

variable {blocks : List Span} {html : Text}

theorem handlerHere?_eq_some_iff {offset : Nat} {last : Option Char} {text event body : Text} :
    handlerHere? blocks html offset last text = some (event, body) ↔
      last.any isBlank = true ∧ handlerStart text = some (event, body) ∧
        insideElementTag html offset = true ∧ covered blocks offset = false := by
  rw [handlerHere?, Option.filter_eq_some_iff, Bool.and_eq_true, Bool.not_eq_true']
  by_cases blank : last.any isBlank = true
  · rw [if_pos blank, and_iff_right blank]
  · rw [if_neg blank]
    exact ⟨fun found => absurd found.1 (Option.some_ne_none _).symm, fun found => absurd found.1 blank⟩

theorem partsFrom_plain {offset : Nat} {last : Option Char} {c : Char} {rest : Text}
    (nothing : handlerHere? blocks html offset last (c :: rest) = none) :
    partsFrom blocks html offset last (c :: rest) = .plain c :: partsFrom blocks html (offset + 1) (some c) rest := by
  rw [partsFrom]
  split
  · rfl
  · next starts =>
    rw [nothing] at starts
    cases starts

/-- Where a handler starts, the parts depend on whether its braces close. -/
theorem partsFrom_of_starts {offset : Nat} {last : Option Char} {c : Char} {rest event body : Text}
    (starts : handlerHere? blocks html offset last (c :: rest) = some (event, body)) :
    partsFrom blocks html offset last (c :: rest) =
      match Script.close? '\x7b' '\x7d' .code 1 body with
      | none => [.unclosed event ((c :: rest).take 60)]
      | some (inside, after) =>
        .handler event inside ::
          partsFrom blocks html (offset + (rest.length + 1 - after.length)) (some '\x7d') after := by
  rw [partsFrom]
  split
  · next nothing =>
    rw [starts] at nothing
    cases nothing
  · next starts' =>
    rw [starts] at starts'
    cases starts'
    split
    · next unclosed => rw [unclosed]
    · next closed => rw [closed]

/-- The character before what follows a piece, read from the piece on or from its second character on. -/
theorem getLast?_cons_or (c : Char) (piece : Text) (last : Option Char) :
    (c :: piece).getLast?.or last = piece.getLast?.or (some c) := by
  rw [List.getLast?_cons]
  cases piece.getLast? <;> rfl

/-- No handler starts inside a piece of a template, given where the piece stands and what surrounds it. -/
def Quiet (blocks : List Span) (html : Text) (offset : Nat) (last : Option Char) (piece more : Text) : Prop :=
  ∀ part c after, piece = part ++ c :: after →
    handlerHere? blocks html (offset + part.length) (part.getLast?.or last) (c :: after ++ more) = none

variable {offset : Nat} {last : Option Char} {piece more : Text}

theorem quiet_nil : Quiet blocks html offset last [] more := by
  intro part c after whole
  simp at whole

theorem quiet_cons_iff {c : Char} :
    Quiet blocks html offset last (c :: piece) more ↔
      handlerHere? blocks html offset last (c :: piece ++ more) = none ∧
        Quiet blocks html (offset + 1) (some c) piece more := by
  constructor
  · intro quiet
    refine ⟨quiet [] c piece rfl, fun part d after whole => ?_⟩
    have here := quiet (c :: part) d after (by rw [whole, List.cons_append])
    rw [getLast?_cons_or, List.length_cons] at here
    rw [Nat.add_right_comm]
    exact here
  · rintro ⟨here, later⟩ part d after whole
    cases part with
    | nil =>
      obtain ⟨rfl, rfl⟩ := List.cons.inj whole
      exact here
    | cons e part =>
      obtain ⟨rfl, rest⟩ := List.cons.inj whole
      have none := later part d after rest
      rw [getLast?_cons_or, List.length_cons]
      rw [Nat.add_right_comm] at none
      exact none

theorem Quiet.append {first second : Text} (quiet : Quiet blocks html offset last first (second ++ more))
    (later : Quiet blocks html (offset + first.length) (first.getLast?.or last) second more) :
    Quiet blocks html offset last (first ++ second) more := by
  induction first generalizing offset last with
  | nil => exact later
  | cons c first ih =>
    obtain ⟨here, rest⟩ := quiet_cons_iff.1 quiet
    rw [List.cons_append, quiet_cons_iff, ← List.cons_append, List.append_assoc]
    refine ⟨here, ih rest ?_⟩
    rw [getLast?_cons_or, List.length_cons] at later
    rw [Nat.add_right_comm]
    exact later

theorem quiet_of_ne (other : ∀ c ∈ piece, c ≠ 'o') : Quiet blocks html offset last piece more := by
  intro part c after whole
  rw [Option.eq_none_iff_forall_ne_some]
  rintro ⟨event, body⟩ starts
  have found := (handlerHere?_eq_some_iff.1 starts).2.1
  rw [List.cons_append, handlerStart_of_ne (other c (by rw [whole]; simp))] at found
  cases found

/-- In a piece without white space a handler can start only in front. -/
theorem quiet_of_solid (solid : ∀ c ∈ piece, isBlank c = false)
    (first : handlerHere? blocks html offset last (piece ++ more) = none) :
    Quiet blocks html offset last piece more := by
  intro part c after whole
  rcases part.eq_nil_or_concat with rfl | ⟨earlier, d, rfl⟩
  · rw [whole, List.nil_append] at first
    exact first
  · rw [Option.eq_none_iff_forall_ne_some]
    rintro ⟨event, body⟩ starts
    have blank := (handlerHere?_eq_some_iff.1 starts).1
    rw [List.concat_eq_append, List.getLast?_concat, Option.some_or, Option.any_some,
      solid d (by rw [whole]; simp)] at blank
    cases blank

theorem partsFrom_append (quiet : Quiet blocks html offset last piece more) :
    partsFrom blocks html offset last (piece ++ more) =
      piece.map .plain ++ partsFrom blocks html (offset + piece.length) (piece.getLast?.or last) more := by
  induction piece generalizing offset last with
  | nil => rfl
  | cons c piece ih =>
    obtain ⟨here, later⟩ := quiet_cons_iff.1 quiet
    rw [List.cons_append] at here
    rw [List.cons_append, partsFrom_plain here, ih later, List.map_cons, List.cons_append, List.length_cons,
      Nat.add_right_comm, Nat.add_assoc, getLast?_cons_or]

/-- Either no handler starts in a piece, or one is the first to do so. -/
theorem quiet_or_starts (blocks : List Span) (html : Text) (offset : Nat) (last : Option Char) (piece more : Text) :
    Quiet blocks html offset last piece more ∨ ∃ part c after event body, piece = part ++ c :: after ∧
      Quiet blocks html offset last part (c :: after ++ more) ∧
      handlerHere? blocks html (offset + part.length) (part.getLast?.or last) (c :: after ++ more) =
        some (event, body) := by
  induction piece generalizing offset last with
  | nil => exact .inl quiet_nil
  | cons c piece ih =>
    cases here : handlerHere? blocks html offset last (c :: piece ++ more) with
    | some result => exact .inr ⟨[], c, piece, result.1, result.2, rfl, quiet_nil, here⟩
    | none =>
      rcases ih (offset + 1) (some c) with quiet | ⟨part, d, after, event, body, whole, quiet, starts⟩
      · exact .inl (quiet_cons_iff.2 ⟨here, quiet⟩)
      · refine .inr ⟨c :: part, d, after, event, body, by rw [whole, List.cons_append], ?_, ?_⟩
        · rw [quiet_cons_iff, List.cons_append, ← List.append_assoc, ← whole]
          exact ⟨here, quiet⟩
        · rw [List.length_cons, getLast?_cons_or, ← Nat.add_assoc, Nat.add_right_comm]
          exact starts

end Parts

/-! ### Ids and scripts -/

/-- The id of the handler with a number. -/
def handlerId (number : Nat) : Text := "gtml-on-" ++ Text.ofNat number

theorem next_handlerId (ids : Counters) : (ids.next "gtml-on").1 = handlerId (ids.count "gtml-on" + 1) := by
  have stem : ("gtml-on" : Text) ++ "-" = "gtml-on-" := by decide
  unfold Counters.next handlerId
  rw [stem]

theorem quote_not_mem_handlerId (number : Nat) : '\'' ∉ handlerId number := by
  intro member
  rcases List.mem_append.1 member with stem | digits
  · exact absurd stem (by decide)
  · exact absurd (Text.isDigit_of_mem_ofNat digits) (by decide)

theorem handlerId_injective : Function.Injective handlerId :=
  fun _ _ same => Text.ofNat_injective (List.append_cancel_left same)

/-- The script of a handler holds its event and, in quotes, its id. -/
theorem exists_handlerScript (event id handler : Text) :
    ∃ rest, handlerScript event id handler =
      "document.querySelectorAll(\"[data-gtml-" ++ (event ++ '=' :: '\'' :: (id ++ '\'' :: rest)) := by
  have front : ("document.querySelectorAll(\"[" : Text) ++ "data-gtml-" = "document.querySelectorAll(\"[data-gtml-" := by
    decide
  have equals : ("='" : Text) = ['=', '\''] := by decide
  have quote : ("'" : Text) = ['\''] := by decide
  refine ⟨"]\")" ++ (".forEach(function(el) \x7b el." ++ (event ++ (" = " ++ (handler ++ "; \x7d);")))), ?_⟩
  unfold handlerScript Script.forEach handlerAttribute
  rw [equals, quote, ← front]
  simp only [List.append_assoc, List.cons_append, List.nil_append]

theorem id_of_handlerScript {event event' handler handler' : Text} {number number' : Nat} (named : '=' ∉ event)
    (named' : '=' ∉ event')
    (same : handlerScript event (handlerId number) handler = handlerScript event' (handlerId number') handler') :
    number = number' := by
  obtain ⟨rest, spelled⟩ := exists_handlerScript event (handlerId number) handler
  obtain ⟨rest', spelled'⟩ := exists_handlerScript event' (handlerId number') handler'
  rw [spelled, spelled'] at same
  have free {text : Text} {c : Char} (absent : c ∉ text) : ∀ d ∈ text, d ≠ c := by
    rintro d member rfl
    exact absent member
  have behind := congrArg (Text.cut? '=') (List.append_cancel_left same)
  rw [Text.cut?_append (free named), Text.cut?_append (free named')] at behind
  have ids := congrArg (Text.cut? '\'') (List.cons.inj (Prod.mk.inj (Option.some.inj behind)).2).2
  rw [Text.cut?_append (free (quote_not_mem_handlerId number)),
    Text.cut?_append (free (quote_not_mem_handlerId number'))] at ids
  exact handlerId_injective (Prod.mk.inj (Option.some.inj ids)).1

/-- No script is queued for a handler whose id is still to be drawn. -/
def Drawn (page : Page) : Prop :=
  ∀ event number handler, '=' ∉ event → page.ids.count "gtml-on" < number →
    handlerScript event (handlerId number) handler ∉ page.scripts

/-- What a page becomes when scripts of handlers are queued and nothing else happens to it. -/
structure Queues (before after : Page) (queued : List Text) : Prop where
  scripts : after.scripts = before.scripts ++ queued
  ids : ∀ stem, after.ids.count stem = before.ids.count stem + if stem = "gtml-on" then queued.length else 0
  signals : after.usesSignals = before.usesSignals
  notes : after.notes = before.notes

theorem Queues.refl (page : Page) : Queues page page [] where
  scripts := (List.append_nil _).symm
  ids stem := by rw [List.length_nil, ite_self, Nat.add_zero]
  signals := rfl
  notes := rfl

theorem Queues.trans {first second third : Page} {queued more : List Text} (queues : Queues first second queued)
    (later : Queues second third more) : Queues first third (queued ++ more) where
  scripts := by rw [later.scripts, queues.scripts, List.append_assoc]
  ids stem := by
    rw [later.ids, queues.ids, List.length_append]
    split <;> omega
  signals := later.signals.trans queues.signals
  notes := later.notes.trans queues.notes

/-- Drawing an id and queueing the script of a handler under it. -/
theorem queues_handler {page : Page} (drawn : Drawn page) {event : Text} (named : '=' ∉ event) (handler : Text) :
    Queues page
        ({ page with ids := (page.ids.next "gtml-on").2 }.addScript
          (handlerScript event (handlerId (page.ids.count "gtml-on" + 1)) handler))
        [handlerScript event (handlerId (page.ids.count "gtml-on" + 1)) handler] ∧
      Drawn ({ page with ids := (page.ids.next "gtml-on").2 }.addScript
        (handlerScript event (handlerId (page.ids.count "gtml-on" + 1)) handler)) := by
  have unqueued := drawn event (page.ids.count "gtml-on" + 1) handler named (Nat.lt_succ_self _)
  have count := page.ids.count_next "gtml-on"
  rw [Page.addScript, if_neg (by rwa [List.contains_iff_mem])]
  refine ⟨⟨rfl, count, rfl, rfl⟩, fun event' number handler' named' later member => ?_⟩
  dsimp only at later member
  rw [count, if_pos rfl] at later
  rcases List.mem_append.1 member with early | new
  · exact drawn event' number handler' named' (by omega) early
  · have same := id_of_handlerScript named' named (List.mem_singleton.1 new)
    omega

/-- The event of a handler, in lower case, is still made of letters. -/
theorem isTagNamePart_of_mem_lower {event : Text} (named : IsEvent event) :
    ∀ c ∈ Text.lower event, isTagNamePart c = true := by
  have parts : ∀ c ∈ event, isTagNamePart c = true := by
    intro c member
    simp [isTagNamePart, Char.isAlphanum, named.isAlpha c member]
  rw [Text.lower_of_isTagNamePart parts]
  intro c member
  obtain ⟨d, present, rfl⟩ := List.mem_map.1 member
  exact isTagNamePart_toLower (parts d present)

theorem equals_not_mem_lower {event : Text} (named : IsEvent event) : '=' ∉ Text.lower event :=
  fun member => absurd (isTagNamePart_of_mem_lower named '=' member) (by decide)

/-! ### Writing parts -/

theorem lowerParts_plain_append (scope : Scope) (found : Declarations) (text : Text) (parts : List Part) :
    lowerParts scope found (text.map .plain ++ parts) =
      Prod.map (text ++ ·) id <$> lowerParts scope found parts := by
  induction text with
  | nil => exact (id_map (lowerParts scope found parts)).symm
  | cons c text ih =>
    rw [List.map_cons, List.cons_append, lowerParts, lowerPart, pure_bind]
    dsimp only
    rw [ih, bind_map_left, map_eq_pure_bind]
    rfl

theorem map_prefix_map_prefix (first second : Text) (lowered : Compile (Text × Declarations)) :
    Prod.map (first ++ ·) id <$> Prod.map (second ++ ·) id <$> lowered =
      Prod.map (first ++ second ++ ·) id <$> lowered := by
  rw [Functor.map_map]
  congr 1
  funext result
  simp [Prod.map]

theorem run_lowerParts_cons {scope : Scope} {found between : Declarations} {part : Part} {first : Text}
    {page later : Page} (ran : (lowerPart scope found part).run page = (.ok (first, between), later)) (parts : List Part) :
    (lowerParts scope found (part :: parts)).run page =
      (Prod.map (first ++ ·) id <$> lowerParts scope between parts).run later := by
  rw [lowerParts, Compile.run_bind_of_ok ran, map_eq_pure_bind]
  rfl

/-- The parts are never written as a text that begins as expected. -/
def Astray (expected : Text) (parts : List Part) : Prop :=
  ∀ (scope : Scope) (found later : Declarations) (page final : Page) (out : Text),
    (lowerParts scope found parts).run page = (.ok (out, later), final) → ¬expected <+: out

theorem exists_of_run_map_prefix {text out : Text} {lowered : Compile (Text × Declarations)} {found : Declarations}
    {page final : Page} (ran : (Prod.map (text ++ ·) id <$> lowered).run page = (.ok (out, found), final)) :
    ∃ rest, lowered.run page = (.ok (rest, found), final) ∧ out = text ++ rest := by
  rw [Compile.run_map] at ran
  cases behind : lowered.run page with
  | mk outcome after =>
    rw [behind] at ran
    cases outcome with
    | error failure => cases ran
    | ok result =>
      cases ran
      exact ⟨result.1, rfl, rfl⟩

theorem Astray.append {expected : Text} {parts : List Part} (astray : Astray expected parts) (text : Text) :
    Astray (text ++ expected) (text.map .plain ++ parts) := by
  intro scope found later page final out ran begins
  rw [lowerParts_plain_append] at ran
  obtain ⟨rest, behind, rfl⟩ := exists_of_run_map_prefix ran
  exact astray scope found later page final rest behind ((List.prefix_append_right_inj text).1 begins)

theorem exists_of_run_lowerParts {scope : Scope} {found later : Declarations} {part : Part} {parts : List Part}
    {page final : Page} {out : Text} (ran : (lowerParts scope found (part :: parts)).run page = (.ok (out, later), final)) :
    ∃ first rest between after, (lowerPart scope found part).run page = (.ok (first, between), after) ∧
      out = first ++ rest := by
  rw [lowerParts, Compile.run_bind] at ran
  cases first : (lowerPart scope found part).run page with
  | mk outcome after =>
    rw [first] at ran
    cases outcome with
    | error failure => cases ran
    | ok result =>
      dsimp only at ran
      rw [Compile.run_bind] at ran
      cases others : (lowerParts scope result.2 parts).run after with
      | mk outcome final =>
        rw [others] at ran
        cases outcome with
        | error failure => cases ran
        | ok behind =>
          cases ran
          exact ⟨result.1, behind.1, result.2, after, rfl, rfl⟩

theorem astray_plain {c d : Char} (other : c ≠ d) (expected : Text) (parts : List Part) :
    Astray (c :: expected) (.plain d :: parts) := by
  intro scope found later page final out ran begins
  obtain ⟨first, rest, between, after, written, rfl⟩ := exists_of_run_lowerParts ran
  cases written
  exact other (List.cons_prefix_cons.1 begins).1

theorem astray_unclosed (expected event snippet : Text) (parts : List Part) :
    Astray expected (.unclosed event snippet :: parts) := by
  intro scope found later page final out ran begins
  obtain ⟨first, rest, between, after, written, -⟩ := exists_of_run_lowerParts ran
  cases written

/-- A handler is written as an attribute with the next id. Its script is queued if its body can be lowered. -/
theorem run_lowerPart_handler (scope : Scope) (found : Declarations) (event body : Text) (page : Page) :
    ∃ needs : Bool, (lowerPart scope found (.handler event body)).run page =
      match Script.translate scope body with
      | .error failure => (.error failure, { page with ids := (page.ids.next "gtml-on").2 })
      | .ok handler =>
        (.ok (handlerAttribute (Text.lower event) (page.ids.next "gtml-on").1,
            { found with usesRuntime := found.usesRuntime || needs }),
          { page with ids := (page.ids.next "gtml-on").2 }.addScript
            (handlerScript (Text.lower event) (page.ids.next "gtml-on").1 handler)) := by
  obtain ⟨needs, runs⟩ := Script.exists_run_lowerHandler scope body
  refine ⟨needs, ?_⟩
  rw [lowerPart]
  dsimp only
  rw [Compile.run_bind]
  change (runLowering found (Script.lowerHandler scope body) >>= _).run { page with ids := (page.ids.next "gtml-on").2 } = _
  rw [Compile.run_bind, runLowering, runs]
  cases Script.translate scope body <;> rfl

theorem astray_handler {c : Char} (other : c ≠ 'd') (expected event body : Text) (parts : List Part) :
    Astray (c :: expected) (.handler event body :: parts) := by
  intro scope found later page final out ran begins
  obtain ⟨first, rest, between, after, written, rfl⟩ := exists_of_run_lowerParts ran
  obtain ⟨needs, runs⟩ := run_lowerPart_handler scope found event body page
  rw [runs] at written
  cases translated : Script.translate scope body with
  | error failure =>
    rw [translated] at written
    cases written
  | ok handler =>
    rw [translated] at written
    cases written
    exact other (List.cons_prefix_cons.1 begins).1

/-- Where a handler is the first to start, the text is not written on from there as it stands. -/
theorem astray_of_starts {blocks : List Span} {html : Text} {offset : Nat} {last : Option Char}
    {part after event body : Text} (quiet : Quiet blocks html offset last part ('o' :: after))
    (starts : handlerHere? blocks html (offset + part.length) (part.getLast?.or last) ('o' :: after) =
      some (event, body)) (expected : Text) :
    Astray (part ++ 'o' :: expected) (partsFrom blocks html offset last (part ++ 'o' :: after)) := by
  rw [partsFrom_append quiet, partsFrom_of_starts starts]
  apply Astray.append
  split
  · exact astray_unclosed _ _ _ _
  · exact astray_handler (by decide) _ _ _ _

end Signal

end ComponentPages
