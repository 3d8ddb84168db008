import ComponentPages.Proofs.Markup.Handler
import ComponentPages.Proofs.Markup.Inside

/-!
Inline handlers in the open tag of an element. The tag is given as it is spelled, with quoted attributes and
handlers in any order, and lowering is followed attribute by attribute. Each handler becomes an attribute with a
fresh id and queues one script, as long as the backward search for an angle bracket still sees the tag at every
handler and at no text inside quotes that reads like one.
-/
namespace ComponentPages

/-- The first characters of element names. -/
def startsElement (c : Char) : Bool := isLetter c && !isUpper c

namespace Signal

/-! ### Attributes as they are spelled -/

/-- What an attribute of an open tag is given: a constant between quotes or, for a handler, script between braces. -/
inductive Assigned where
  | quoted (quote : Char) (text : Text)
  | code (body : Text)

namespace Assigned

def print : Assigned → Text
  | .quoted quote text => quote :: text ++ [quote]
  | .code body => '\x7b' :: body ++ ['\x7d']

def isCode : Assigned → Bool
  | .quoted _ _ => false
  | .code _ => true

/-- A constant is free of its quote; a handler has an event for a name, closed strings and balanced braces. -/
def Sound (name : Text) : Assigned → Prop
  | .quoted quote text => isQuote quote = true ∧ ∀ c ∈ text, c ≠ quote
  | .code body => IsEvent name ∧ Script.Balanced body

end Assigned

/-- An attribute of an open tag, with the white space in front of it and around its equals sign. -/
structure Spelled where
  gap : Text
  name : Text
  left : Text
  right : Text
  value : Assigned

namespace Spelled

/-- Everything before the value. -/
def front (spelled : Spelled) : Text := spelled.gap ++ spelled.name ++ spelled.left ++ '=' :: spelled.right

def print (spelled : Spelled) : Text := spelled.front ++ spelled.value.print

structure Sound (spelled : Spelled) : Prop where
  gap : spelled.gap ≠ [] ∧ IsSpace spelled.gap
  name : ∀ c ∈ spelled.name, isBlank c = false ∧ c ≠ '='
  left : IsSpace spelled.left
  right : IsSpace spelled.right
  value : spelled.value.Sound spelled.name

section Sound

variable {spelled : Spelled} {quote : Char} {text body : Text}

theorem Sound.quotes (sound : spelled.Sound) (value : spelled.value = .quoted quote text) : isQuote quote = true := by
  have holds := sound.value
  rw [value] at holds
  exact holds.1

theorem Sound.event (sound : spelled.Sound) (value : spelled.value = .code body) : IsEvent spelled.name := by
  have holds := sound.value
  rw [value] at holds
  exact holds.1

theorem Sound.balanced (sound : spelled.Sound) (value : spelled.value = .code body) : Script.Balanced body := by
  have holds := sound.value
  rw [value] at holds
  exact holds.2

end Sound

/-- Whether the backward search reads an attribute for what it is, given where it begins: it sees the tag at a
handler, and at no text between quotes that reads like a handler. -/
def Kept (html : Text) (offset : Nat) (spelled : Spelled) : Prop :=
  match spelled.value with
  | .quoted _ text => ∀ part after, text = part ++ after → part.getLast?.any isBlank = true → SpellsHandler after →
    ¬Reopened startsElement html 0 (offset + (spelled.front.length + 1 + part.length))
  | .code _ => Reopened startsElement html 0 (offset + spelled.gap.length)

/-- The attribute as it is written, a handler with the id of a number. -/
def settled (number : Nat) (spelled : Spelled) : Spelled :=
  match spelled.value with
  | .quoted _ _ => spelled
  | .code _ => {
    gap := spelled.gap
    name := "data-gtml-" ++ Text.lower spelled.name
    left := []
    right := []
    value := .quoted '\'' (handlerId number) }

/-- The script that a handler queues under a number. -/
def scripts (scope : Scope) (number : Nat) (spelled : Spelled) : List Text :=
  match spelled.value with
  | .quoted _ _ => []
  | .code body =>
    [handlerScript (Text.lower spelled.name) (handlerId number) ((Script.translate scope body).toOption.getD [])]

/-- How many ids an attribute draws. -/
def draws (spelled : Spelled) : Nat := if spelled.value.isCode then 1 else 0

def translates (scope : Scope) (spelled : Spelled) : Bool :=
  match spelled.value with
  | .quoted _ _ => true
  | .code body => (Script.translate scope body).toOption.isSome

theorem length_scripts (scope : Scope) (number : Nat) (spelled : Spelled) :
    (spelled.scripts scope number).length = spelled.draws := by
  rw [scripts, draws]
  cases spelled.value <;> rfl

end Spelled

def printAll (attributes : List Spelled) : Text := attributes.flatMap Spelled.print

def KeptFrom (html : Text) (offset : Nat) : List Spelled → Prop
  | [] => True
  | spelled :: rest => spelled.Kept html offset ∧ KeptFrom html (offset + spelled.print.length) rest

/-- The attributes as they are written, with the ids of the numbers from one on. -/
def settledFrom (number : Nat) : List Spelled → List Spelled
  | [] => []
  | spelled :: rest => spelled.settled number :: settledFrom (number + spelled.draws) rest

/-- The scripts of the handlers in order, queued under the numbers from one on. -/
def scriptsFrom (scope : Scope) (number : Nat) : List Spelled → List Text
  | [] => []
  | spelled :: rest => spelled.scripts scope number ++ scriptsFrom scope (number + spelled.draws) rest

/-- No attribute is written as a handler. -/
theorem isCode_of_mem_settledFrom {number : Nat} {attributes : List Spelled} {written : Spelled}
    (member : written ∈ settledFrom number attributes) : written.value.isCode = false := by
  induction attributes generalizing number with
  | nil => cases member
  | cons spelled rest ih =>
    rcases List.mem_cons.1 member with rfl | later
    · unfold Spelled.settled
      split
      · next quote text value => rw [value]; rfl
      · rfl
    · exact ih later

/-! ### The parts of an attribute -/

/-- The front of a page that is an open tag of an element and lies outside script and style blocks. -/
structure Fronted (blocks : List Span) (html : Text) (stop : Nat) : Prop where
  opens : opensAt startsElement html 0 = true
  within : stop ≤ html.length
  clear : ∀ offset, offset < stop → covered blocks offset = false

section Attributes

variable {blocks : List Span} {html : Text} {stop offset : Nat} {last : Option Char} {spelled : Spelled} {more : Text}

theorem Fronted.starts_iff (fronted : Fronted blocks html stop) (behind : 0 < offset) (before : offset < stop)
    {text event body : Text} : handlerHere? blocks html offset last text = some (event, body) ↔
      last.any isBlank = true ∧ handlerStart text = some (event, body) ∧ Reopened startsElement html 0 offset := by
  have within := fronted.within
  have inside : insideElementTag html offset = true ↔ Reopened startsElement html 0 offset :=
    opensTag_iff_reopened fronted.opens behind (by omega)
  rw [handlerHere?_eq_some_iff, inside, and_iff_left (fronted.clear offset before)]

theorem ne_of_isBlank {c : Char} (blank : isBlank c = true) : c ≠ 'o' := by
  rintro rfl
  exact absurd blank (by decide)

/-- No handler starts before the value of a quoted attribute. -/
theorem quiet_front (sound : spelled.Sound) {quote : Char} (quotes : isQuote quote = true) :
    Quiet blocks html offset last (spelled.front ++ [quote]) more := by
  have space {text : Text} (blank : IsSpace text) : ∀ c ∈ text, c ≠ 'o' :=
    fun c member => ne_of_isBlank (blank c member)
  refine Quiet.append (Quiet.append (Quiet.append (Quiet.append ?_ ?_) ?_) ?_) ?_
  · exact quiet_of_ne (space sound.gap.2)
  · refine quiet_of_solid (fun c member => (sound.name c member).1) ?_
    rw [Option.eq_none_iff_forall_ne_some]
    rintro ⟨event, body⟩ starts
    have found := (handlerHere?_eq_some_iff.1 starts).2.1
    refine not_spellsHandler_quoted quotes sound.name sound.left sound.right more (spellsHandler_iff.2 ?_)
    rw [List.append_assoc, List.append_assoc]
    exact Option.ne_none_iff_exists'.2 ⟨_, found⟩
  · exact quiet_of_ne (space sound.left)
  · refine quiet_of_ne fun c member => ?_
    rcases List.mem_cons.1 member with rfl | inSpace
    · decide
    · exact space sound.right c inSpace
  · refine quiet_of_ne fun c member => ?_
    rw [List.mem_singleton.1 member]
    exact (solid_of_isQuote quotes).2.2.2.2

/-- Between quotes no handler starts exactly if the search does not see the tag at a text that reads like one. -/
theorem quiet_quoted_iff (fronted : Fronted blocks html stop) {quote : Char} (quotes : isQuote quote = true)
    {text : Text} (behind : 0 < offset) (before : offset + text.length ≤ stop) :
    Quiet blocks html offset (some quote) text (quote :: more) ↔
      ∀ part after, text = part ++ after → part.getLast?.any isBlank = true → SpellsHandler after →
        ¬Reopened startsElement html 0 (offset + part.length) := by
  constructor
  · intro quiet part after whole blank reads reopened
    have size := congrArg List.length whole
    cases after with
    | nil =>
      obtain ⟨event, left, right, body, -, -, -, empty⟩ := reads
      simp at empty
    | cons c after =>
      obtain ⟨⟨event, body⟩, starts⟩ :=
        Option.ne_none_iff_exists'.1 (spellsHandler_iff.1 (reads.append (quote :: more)))
      have blankBefore : (part.getLast?.or (some quote)).any isBlank = true := by
        cases final : part.getLast? with
        | none => rw [final] at blank; cases blank
        | some d => rw [final] at blank; exact blank
      rw [List.length_append, List.length_cons] at size
      have here := (fronted.starts_iff (by omega) (by omega)).2 ⟨blankBefore, starts, reopened⟩
      rw [quiet part c after whole] at here
      cases here
  · intro kept part c after whole
    have size := congrArg List.length whole
    rw [List.length_append, List.length_cons] at size
    rw [Option.eq_none_iff_forall_ne_some]
    rintro ⟨event, body⟩ starts
    obtain ⟨blank, found, reopened⟩ := (fronted.starts_iff (by omega) (by omega)).1 starts
    have reads : SpellsHandler (c :: after ++ quote :: more) := by
      rw [spellsHandler_iff, found]
      exact Option.some_ne_none _
    refine kept part (c :: after) whole ?_ (spellsHandler_of_quoted quotes reads) reopened
    cases final : part.getLast? with
    | none =>
      rw [final, Option.none_or, Option.any_some, (solid_of_isQuote quotes).1] at blank
      cases blank
    | some d => rw [final] at blank; exact blank

section Quoted

variable {quote : Char} {text : Text}

theorem Spelled.print_quoted (value : spelled.value = .quoted quote text) :
    spelled.print = spelled.front ++ [quote] ++ (text ++ [quote]) := by
  simp [Spelled.print, value, Assigned.print]

/-- A constant that is read for what it is stays as it is. -/
theorem partsFrom_quoted (fronted : Fronted blocks html stop) (sound : spelled.Sound)
    (value : spelled.value = .quoted quote text) (behind : 0 < offset)
    (before : offset + spelled.print.length ≤ stop) (kept : spelled.Kept html offset) (last : Option Char)
    (more : Text) :
    ∃ last', partsFrom blocks html offset last (spelled.print ++ more) =
      spelled.print.map .plain ++ partsFrom blocks html (offset + spelled.print.length) last' more := by
  have quotes := sound.quotes value
  have inside : Quiet blocks html (offset + (spelled.front ++ [quote]).length) (some quote) text (quote :: more) := by
    rw [Spelled.print_quoted value] at before
    simp only [List.length_append, List.length_singleton] at before ⊢
    refine (quiet_quoted_iff fronted quotes (by omega) (by omega)).2 ?_
    rw [Spelled.Kept, value] at kept
    simpa only [Nat.add_assoc] using kept
  have whole : Quiet blocks html offset last (spelled.front ++ [quote] ++ (text ++ [quote])) more := by
    refine (quiet_front sound quotes).append ?_
    rw [List.getLast?_concat, Option.some_or]
    refine Quiet.append (by rwa [List.singleton_append]) (quiet_of_ne fun c member => ?_)
    rw [List.mem_singleton.1 member]
    exact (solid_of_isQuote quotes).2.2.2.2
  rw [Spelled.print_quoted value]
  exact ⟨_, partsFrom_append whole⟩

/-- A constant that reads like a handler is not written as it stands. -/
theorem astray_quoted (fronted : Fronted blocks html stop) (sound : spelled.Sound)
    (value : spelled.value = .quoted quote text) (behind : 0 < offset)
    (before : offset + spelled.print.length ≤ stop) (lost : ¬spelled.Kept html offset) (expected : Text) :
    Astray (spelled.print ++ expected) (partsFrom blocks html offset last (spelled.print ++ more)) := by
  have quotes := sound.quotes value
  rcases quiet_or_starts blocks html (offset + (spelled.front ++ [quote]).length) (some quote) text (quote :: more) with
    quiet | ⟨part, c, after, event, body, whole, quiet, starts⟩
  · refine absurd ?_ lost
    rw [Spelled.print_quoted value] at before
    simp only [List.length_append, List.length_singleton] at before quiet
    have kept := (quiet_quoted_iff fronted quotes (by omega) (by omega)).1 quiet
    rw [Spelled.Kept, value]
    simpa only [Nat.add_assoc] using kept
  · have front : Quiet blocks html offset last (spelled.front ++ [quote] ++ part) (c :: after ++ (quote :: more)) := by
      refine (quiet_front sound quotes).append ?_
      rw [List.getLast?_concat, Option.some_or]
      exact quiet
    have found := (handlerHere?_eq_some_iff.1 starts).2.1
    obtain rfl : c = 'o' := by
      by_contra other
      rw [List.cons_append, handlerStart_of_ne other] at found
      cases found
    have split (rest : Text) : spelled.print ++ rest =
        spelled.front ++ [quote] ++ part ++ 'o' :: (after ++ quote :: rest) := by
      rw [Spelled.print_quoted value, whole]
      simp
    have place : (spelled.front ++ [quote] ++ part).getLast?.or last = part.getLast?.or (some quote) := by
      rw [List.getLast?_append, List.getLast?_concat, Option.or_assoc, Option.some_or]
    rw [← place, Nat.add_assoc, ← List.length_append] at starts
    rw [split, split]
    exact astray_of_starts front starts _

end Quoted

section Code

variable {body : Text}

theorem Spelled.print_code (value : spelled.value = .code body) (rest : Text) :
    spelled.print ++ rest =
      spelled.gap ++ (spelled.name ++ spelled.left ++ '=' :: spelled.right ++ '\x7b' :: (body ++ '\x7d' :: rest)) := by
  simp [Spelled.print, Spelled.front, value, Assigned.print]

theorem Spelled.print_settled (value : spelled.value = .code body) (number : Nat) :
    (spelled.settled number).print =
      spelled.gap ++ handlerAttribute (Text.lower spelled.name) (handlerId number) := by
  have equals : ("='" : Text) = ['=', '\''] := rfl
  have quote : ("'" : Text) = ['\''] := rfl
  unfold handlerAttribute
  rw [equals, quote]
  simp only [Spelled.settled, value, Spelled.print, Spelled.front, Assigned.print, List.append_assoc,
    List.cons_append, List.nil_append]

/-- At its name a handler starts exactly if the search sees the tag there. -/
theorem starts_code_iff (fronted : Fronted blocks html stop) (sound : spelled.Sound)
    (value : spelled.value = .code body) (behind : 0 < offset) (before : offset + spelled.print.length ≤ stop)
    (last : Option Char) (more : Text) :
    handlerHere? blocks html (offset + spelled.gap.length) (spelled.gap.getLast?.or last)
        (spelled.name ++ spelled.left ++ '=' :: spelled.right ++ '\x7b' :: (body ++ '\x7d' :: more)) =
      some (spelled.name, body ++ '\x7d' :: more) ↔ spelled.Kept html offset := by
  have event := sound.event value
  have size := congrArg List.length (Spelled.print_code value [])
  simp only [List.append_nil, List.length_append, List.length_cons] at size
  have blank : (spelled.gap.getLast?.or last).any isBlank = true := by
    rw [List.getLast?_eq_some_getLast sound.gap.1]
    exact sound.gap.2 _ (List.getLast_mem sound.gap.1)
  rw [fronted.starts_iff (by omega) (by omega), Spelled.Kept, value]
  exact ⟨fun starts => starts.2.2,
    fun kept => ⟨blank, handlerStart_eq_some_iff.2 ⟨_, _, event, sound.left, sound.right, rfl⟩, kept⟩⟩

theorem quiet_gap (sound : spelled.Sound) : Quiet blocks html offset last spelled.gap more :=
  quiet_of_ne fun c member => ne_of_isBlank (sound.gap.2 c member)

/-- A handler at which the search sees the tag is taken as one, body and all. -/
theorem partsFrom_code (fronted : Fronted blocks html stop) (sound : spelled.Sound)
    (value : spelled.value = .code body) (behind : 0 < offset) (before : offset + spelled.print.length ≤ stop)
    (kept : spelled.Kept html offset) :
    partsFrom blocks html offset last (spelled.print ++ more) =
      spelled.gap.map .plain ++ .handler spelled.name body ::
        partsFrom blocks html (offset + spelled.print.length) (some '\x7d') more := by
  have starts := (starts_code_iff fronted sound value behind before last more).2 kept
  have whole := Spelled.print_code value more
  rw [whole, partsFrom_append (quiet_gap sound)]
  generalize text_eq : spelled.name ++ spelled.left ++ '=' :: spelled.right ++ '\x7b' :: (body ++ '\x7d' :: more) =
    text at starts whole
  cases text with
  | nil => simp at text_eq
  | cons c rest =>
    have sizes := congrArg List.length whole
    have inner := congrArg List.length text_eq
    simp only [List.length_append, List.length_cons] at sizes inner
    have place : offset + spelled.gap.length + (rest.length + 1 - more.length) = offset + spelled.print.length := by
      omega
    rw [partsFrom_of_starts starts, Script.close?_body (sound.balanced value)]
    dsimp only
    rw [place]

/-- A handler at which the search does not see the tag is not replaced. -/
theorem astray_code (fronted : Fronted blocks html stop) (sound : spelled.Sound)
    (value : spelled.value = .code body) (behind : 0 < offset) (before : offset + spelled.print.length ≤ stop)
    (lost : ¬spelled.Kept html offset) (number : Nat) (expected : Text) :
    Astray ((spelled.settled number).print ++ expected)
      (partsFrom blocks html offset last (spelled.print ++ more)) := by
  have event := sound.event value
  have nothing : handlerHere? blocks html (offset + spelled.gap.length) (spelled.gap.getLast?.or last)
      (spelled.name ++ spelled.left ++ '=' :: spelled.right ++ '\x7b' :: (body ++ '\x7d' :: more)) = none := by
    rw [Option.eq_none_iff_forall_ne_some]
    rintro ⟨event', body'⟩ starts
    have found := (handlerHere?_eq_some_iff.1 starts).2.1
    rw [handlerStart_eq_some_iff.2 ⟨_, _, event, sound.left, sound.right, rfl⟩] at found
    cases found
    exact lost ((starts_code_iff fronted sound value behind before last more).1 starts)
  rw [Spelled.print_code value, partsFrom_append (quiet_gap sound), Spelled.print_settled value,
    List.append_assoc]
  apply Astray.append
  obtain ⟨letters, -, -, name⟩ := event
  have spelledOut : spelled.name = 'o' :: 'n' :: letters := name
  simp only [spelledOut, List.cons_append] at nothing ⊢
  rw [partsFrom_plain nothing]
  exact astray_plain (by decide) _ _

end Code

theorem printAll_cons (spelled : Spelled) (rest : List Spelled) :
    printAll (spelled :: rest) = spelled.print ++ printAll rest := List.flatMap_cons

/-- One attribute that is read for what it is: it is written as it should be, and its script is queued. -/
theorem run_kept (fronted : Fronted blocks html stop) (sound : spelled.Sound) {scope : Scope}
    (translates : spelled.translates scope = true) (behind : 0 < offset)
    (before : offset + spelled.print.length ≤ stop) (kept : spelled.Kept html offset) (found : Declarations) {page : Page}
    (drawn : Drawn page) (last : Option Char) (more : Text) :
    ∃ found' later last',
      Queues page later (spelled.scripts scope (page.ids.count "gtml-on" + 1)) ∧ Drawn later ∧
      (lowerParts scope found (partsFrom blocks html offset last (spelled.print ++ more))).run page =
        (Prod.map ((spelled.settled (page.ids.count "gtml-on" + 1)).print ++ ·) id <$>
          lowerParts scope found' (partsFrom blocks html (offset + spelled.print.length) last' more)).run later := by
  cases value : spelled.value with
  | quoted quote text =>
    obtain ⟨last', parts⟩ := partsFrom_quoted fronted sound value behind before kept last more
    refine ⟨found, page, last', ?_, drawn, ?_⟩
    · rw [Spelled.scripts, value]
      exact .refl page
    · rw [parts, lowerParts_plain_append, Spelled.settled, value]
  | code body =>
    have named := sound.event value
    rw [Spelled.translates, value] at translates
    dsimp only at translates
    obtain ⟨handler, translated⟩ : ∃ handler, Script.translate scope body = .ok handler := by
      cases result : Script.translate scope body with
      | error failure => rw [result] at translates; cases translates
      | ok handler => exact ⟨handler, rfl⟩
    obtain ⟨needs, runs⟩ := run_lowerPart_handler scope found spelled.name body page
    obtain ⟨queues, redrawn⟩ := queues_handler drawn (equals_not_mem_lower named) handler
    rw [translated, next_handlerId] at runs
    refine ⟨{ found with usesRuntime := found.usesRuntime || needs }, _, some '\x7d', ?_, redrawn, ?_⟩
    · rw [Spelled.scripts, value]
      dsimp only
      rw [translated]
      exact queues
    · rw [partsFrom_code fronted sound value behind before kept, lowerParts_plain_append, lowerParts,
        Spelled.print_settled value, ← map_prefix_map_prefix]
      exact Compile.run_map_congr (run_lowerParts_cons runs _) _

/-- One attribute that is not read for what it is: it is not written as it should be. -/
theorem astray_lost (fronted : Fronted blocks html stop) (sound : spelled.Sound) (behind : 0 < offset)
    (before : offset + spelled.print.length ≤ stop) (lost : ¬spelled.Kept html offset) (number : Nat)
    (last : Option Char) (more expected : Text) :
    Astray ((spelled.settled number).print ++ expected)
      (partsFrom blocks html offset last (spelled.print ++ more)) := by
  cases value : spelled.value with
  | quoted quote text =>
    rw [Spelled.settled, value]
    exact astray_quoted fronted sound value behind before lost expected
  | code body => exact astray_code fronted sound value behind before lost number expected

/-- A row of attributes is written as it should be, with one script for each handler, exactly if every one of them
is read for what it is. -/
theorem run_attributes (fronted : Fronted blocks html stop) {scope : Scope} {attributes : List Spelled}
    (sound : ∀ spelled ∈ attributes, spelled.Sound) (translates : ∀ spelled ∈ attributes, spelled.translates scope = true)
    (behind : 0 < offset) (before : offset + (printAll attributes).length ≤ stop) (found : Declarations) {page : Page}
    (drawn : Drawn page) (last : Option Char) (more : Text) :
    (KeptFrom html offset attributes → ∃ found' later last',
      Queues page later (scriptsFrom scope (page.ids.count "gtml-on" + 1) attributes) ∧
      (lowerParts scope found (partsFrom blocks html offset last (printAll attributes ++ more))).run page =
        (Prod.map (printAll (settledFrom (page.ids.count "gtml-on" + 1) attributes) ++ ·) id <$>
          lowerParts scope found'
            (partsFrom blocks html (offset + (printAll attributes).length) last' more)).run later) ∧
    (¬KeptFrom html offset attributes → ∀ out found' final,
      (lowerParts scope found (partsFrom blocks html offset last (printAll attributes ++ more))).run page =
        (.ok (out, found'), final) →
      ¬printAll (settledFrom (page.ids.count "gtml-on" + 1) attributes) <+: out) := by
  induction attributes generalizing offset found page last with
  | nil =>
    refine ⟨fun _ => ⟨found, page, last, .refl page, ?_⟩, fun lost => absurd trivial lost⟩
    exact congrFun (id_map (lowerParts scope found (partsFrom blocks html offset last more))).symm page
  | cons spelled rest ih =>
    rw [printAll_cons, List.length_append] at before
    have front := sound spelled List.mem_cons_self
    rw [printAll_cons, settledFrom, printAll_cons, scriptsFrom, List.append_assoc]
    by_cases kept : spelled.Kept html offset
    · obtain ⟨found₁, page₁, last₁, queues, drawn₁, ran⟩ := run_kept fronted front
        (translates spelled List.mem_cons_self) behind (by omega) kept found drawn last (printAll rest ++ more)
      have count := queues.ids "gtml-on"
      rw [if_pos rfl, Spelled.length_scripts] at count
      have behindRest : 0 < offset + spelled.print.length := by omega
      obtain ⟨others, lost⟩ := ih (fun other member => sound other (List.mem_cons_of_mem spelled member))
        (fun other member => translates other (List.mem_cons_of_mem spelled member)) behindRest (by omega) found₁
        drawn₁ last₁
      rw [count, Nat.add_right_comm] at others lost
      constructor
      · rintro ⟨-, keptRest⟩
        obtain ⟨found₂, page₂, last₂, queues₂, ran₂⟩ := others keptRest
        refine ⟨found₂, page₂, last₂, queues.trans queues₂, ?_⟩
        rw [ran, ← map_prefix_map_prefix, List.length_append, ← Nat.add_assoc]
        exact Compile.run_map_congr ran₂ _
      · intro lostSome out found' final ends begins
        rw [ran] at ends
        obtain ⟨written, behind, rfl⟩ := exists_of_run_map_prefix ends
        refine lost (fun keptRest => lostSome ⟨kept, keptRest⟩) written found' final behind ?_
        exact (List.prefix_append_right_inj _).1 begins
    · refine ⟨fun keptAll => absurd keptAll.1 kept, fun _ out found' final ends => ?_⟩
      exact astray_lost fronted front behind (by omega) kept _ last (printAll rest ++ more) _ scope found found' page
        final out ends

end Attributes

/-! ### Open tags -/

/-- The open tag of an element, with any white space before its end. -/
structure OpenTag where
  name : Text
  attributes : List Spelled
  gap : Text
  closed : Bool

namespace OpenTag

def ending (tag : OpenTag) : Text := tag.gap ++ if tag.closed then ['/', '>'] else ['>']

def print (tag : OpenTag) : Text := '<' :: tag.name ++ (printAll tag.attributes ++ tag.ending)

structure Sound (tag : OpenTag) : Prop where
  name : ∀ c ∈ tag.name, isBlank c = false
  element : tag.name.head?.any startsElement = true
  attributes : ∀ spelled ∈ tag.attributes, spelled.Sound
  gap : IsSpace tag.gap

/-- Whether the backward search reads every attribute for what it is. -/
def Kept (html : Text) (tag : OpenTag) : Prop := KeptFrom html (1 + tag.name.length) tag.attributes

/-- The tag as it is written, its handlers with the ids of the numbers from one on. -/
def settled (number : Nat) (tag : OpenTag) : OpenTag := { tag with attributes := settledFrom number tag.attributes }

end OpenTag

section Tag

variable {tag : OpenTag} {html rest : Text}

theorem fronted_openTag (sound : tag.Sound) (whole : html = tag.print ++ rest)
    (clear : ∀ span ∈ Block.spans html, tag.print.length ≤ span.start) :
    Fronted (Block.spans html) html tag.print.length := by
  refine ⟨?_, by rw [whole, List.length_append]; omega, fun offset before => ?_⟩
  · have element := sound.element
    rw [whole, OpenTag.print]
    cases name : tag.name with
    | nil => rw [name] at element; cases element
    | cons c letters =>
      rw [name] at element
      exact element
  · rw [covered, List.any_eq_false]
    intro span member
    have behind := clear span member
    simp only [Span.covers, Bool.and_eq_true, decide_eq_true_eq]
    omega

theorem keptFrom_of_plain {attributes : List Spelled} {offset : Nat} (behind : 0 < offset)
    (angleless : ∀ place, 0 < place → place < offset + (printAll attributes).length →
      html[place]?.any isAngle = false)
    (braceless : ∀ spelled ∈ attributes, ∀ quote text, spelled.value = .quoted quote text → '\x7b' ∉ text) :
    KeptFrom html offset attributes := by
  induction attributes generalizing offset with
  | nil => trivial
  | cons spelled rest ih =>
    rw [printAll_cons, List.length_append] at angleless
    refine ⟨?_, ih (by omega) (fun place after before => angleless place after (by omega))
      fun other member => braceless other (List.mem_cons_of_mem spelled member)⟩
    unfold Spelled.Kept
    split
    · next quote text value =>
      rintro part after rfl - ⟨event, left, right, body, -, -, -, reads⟩
      exact absurd (by rw [reads]; simp) (braceless spelled List.mem_cons_self quote _ value)
    · refine reopened_of_none fun place after before => ?_
      have size : spelled.gap.length ≤ spelled.print.length := by
        simp only [Spelled.print, Spelled.front, List.length_append]
        omega
      rw [straysAt, angleless place after (by omega), Bool.false_and]

/-- A tag without angle brackets between its ends, and without braces in its constants, is read for what it is. -/
theorem kept_of_plain (whole : html = tag.print ++ rest)
    (angleless : ∀ c ∈ tag.name ++ printAll tag.attributes, isAngle c = false)
    (braceless : ∀ spelled ∈ tag.attributes, ∀ quote text, spelled.value = .quoted quote text → '\x7b' ∉ text) :
    tag.Kept html := by
  refine keptFrom_of_plain (by omega) (fun place after before => ?_) braceless
  obtain ⟨place, rfl⟩ : ∃ earlier, place = earlier + 1 := ⟨place - 1, by omega⟩
  have split : html = '<' :: (tag.name ++ printAll tag.attributes ++ (tag.ending ++ rest)) := by
    rw [whole, OpenTag.print]
    simp
  have within : place < (tag.name ++ printAll tag.attributes).length := by
    rw [List.length_append]
    omega
  rw [split, List.getElem?_cons_succ, List.getElem?_append_left within, List.getElem?_eq_getElem within,
    Option.any_some]
  exact angleless _ (List.getElem_mem within)

/-- Nothing starts in what ends a tag. -/
theorem partsFrom_ending (sound : tag.Sound) (blocks : List Span) (offset : Nat) (last : Option Char) :
    partsFrom blocks html offset last (tag.ending ++ rest) =
      tag.ending.map .plain ++ partsFrom blocks html (offset + tag.ending.length) (some '>') rest := by
  have final : tag.ending.getLast?.or last = some '>' := by
    rw [OpenTag.ending, List.getLast?_append]
    cases tag.closed <;> rfl
  rw [partsFrom_append, final]
  refine quiet_of_ne fun c member => ?_
  rcases List.mem_append.1 member with inGap | inEnd
  · exact ne_of_isBlank (sound.gap c inGap)
  · rintro rfl
    cases closed : tag.closed <;> simp [closed] at inEnd

/-- What the parts of a page that begins with an open tag are written as, up to what follows the tag. -/
theorem run_openTag (sound : tag.Sound) {scope : Scope}
    (translates : ∀ spelled ∈ tag.attributes, spelled.translates scope = true) (whole : html = tag.print ++ rest)
    (clear : ∀ span ∈ Block.spans html, tag.print.length ≤ span.start) {page : Page} (drawn : Drawn page) :
    (tag.Kept html → ∃ found later,
      Queues page later (scriptsFrom scope (page.ids.count "gtml-on" + 1) tag.attributes) ∧
      (lowerParts scope {} (parts html)).run page =
        (Prod.map ((tag.settled (page.ids.count "gtml-on" + 1)).print ++ ·) id <$>
          lowerParts scope found (partsFrom (Block.spans html) html tag.print.length (some '>') rest)).run later) ∧
    (¬tag.Kept html → ∀ out found final, (lowerParts scope {} (parts html)).run page = (.ok (out, found), final) →
      ¬(tag.settled (page.ids.count "gtml-on" + 1)).print <+: out) := by
  have fronted := fronted_openTag sound whole clear
  have size : tag.print.length = 1 + tag.name.length + (printAll tag.attributes).length + tag.ending.length := by
    simp only [OpenTag.print, List.cons_append, List.length_cons, List.length_append]
    omega
  have front : Quiet (Block.spans html) html 0 none ('<' :: tag.name)
      (printAll tag.attributes ++ (tag.ending ++ rest)) := by
    refine quiet_of_solid (fun c member => ?_) rfl
    rcases List.mem_cons.1 member with rfl | inName
    · decide
    · exact sound.name c inName
  have text : html = '<' :: tag.name ++ (printAll tag.attributes ++ (tag.ending ++ rest)) := by
    rw [whole, OpenTag.print]
    simp
  have split := partsFrom_append front
  rw [← text, Nat.zero_add, List.length_cons, Nat.add_comm tag.name.length] at split
  have behind : 0 < 1 + tag.name.length := by omega
  obtain ⟨kept, lost⟩ := run_attributes fronted sound.attributes translates behind (by omega) {} drawn
    (('<' :: tag.name).getLast?.or none) (tag.ending ++ rest)
  have prints : (tag.settled (page.ids.count "gtml-on" + 1)).print = '<' :: tag.name ++
      (printAll (settledFrom (page.ids.count "gtml-on" + 1) tag.attributes) ++ tag.ending) := rfl
  rw [parts, split, lowerParts_plain_append, prints]
  constructor
  · intro all
    obtain ⟨found, later, last, queues, ran⟩ := kept all
    refine ⟨found, later, queues, ?_⟩
    rw [partsFrom_ending sound, lowerParts_plain_append, map_prefix_map_prefix] at ran
    rw [size, ← map_prefix_map_prefix]
    exact Compile.run_map_congr ran _
  · intro some_ out found final ran begins
    obtain ⟨written, behind, rfl⟩ := exists_of_run_map_prefix ran
    refine lost some_ written found final behind ?_
    exact (List.prefix_append _ _).trans ((List.prefix_append_right_inj _).1 begins)

/-- No part declares a signal. -/
theorem declared_of_run_lowerParts {scope : Scope} {found later : Declarations} {parts : List Part} {page final : Page}
    {out : Text} (ran : (lowerParts scope found parts).run page = (.ok (out, later), final)) :
    later.declared = found.declared := by
  induction parts generalizing found page out with
  | nil =>
    cases ran
    rfl
  | cons part parts ih =>
    obtain ⟨first, rest, between, after, written, -⟩ := exists_of_run_lowerParts ran
    rw [run_lowerParts_cons written] at ran
    obtain ⟨others, behind, -⟩ := exists_of_run_map_prefix ran
    rw [ih behind]
    cases part with
    | plain c =>
      cases written
      rfl
    | unclosed event snippet => cases written
    | handler event body =>
      obtain ⟨needs, runs⟩ := run_lowerPart_handler scope found event body page
      rw [runs] at written
      cases translated : Script.translate scope body with
      | error failure =>
        rw [translated] at written
        cases written
      | ok handler =>
        rw [translated] at written
        cases written
        rfl

/-- Lowering the parts of a page behind a text that is written already, when no signal is declared. -/
def finish (front : Text) (scope : Scope) (found : Declarations) (parts : List Part) : Compile Text := do
  let lowered ← lowerParts scope found parts
  if lowered.2.usesRuntime then Compile.needSignals
  pure (front ++ lowered.1)

theorem lower_of_unscripted (unscripted : Pattern.values block html = []) (scope : Scope) :
    lower html scope = finish [] scope {} (parts html) := by
  rw [lower, unscripted, Pattern.erase_of_values unscripted]
  change lowerParts scope {} (parts html) >>= _ = _
  apply Compile.ext_run
  intro page
  rw [finish, Compile.run_bind, Compile.run_bind]
  cases ran : (lowerParts scope {} (parts html)).run page with
  | mk outcome later =>
    cases outcome with
    | error failure => rfl
    | ok lowered =>
      obtain ⟨written, declared, needs⟩ := lowered
      obtain rfl : declared = [] := declared_of_run_lowerParts ran
      rfl

theorem run_finish_of_run {scope : Scope} {found later : Declarations} {parts behind : List Part} {written : Text}
    {page after : Page} (ran : (lowerParts scope found parts).run page =
      (Prod.map (written ++ ·) id <$> lowerParts scope later behind).run after) :
    (finish [] scope found parts).run page = (finish written scope later behind).run after := by
  rw [finish, Compile.run_bind, ran, ← Compile.run_bind, bind_map_left]
  rfl

theorem exists_of_run_finish {scope : Scope} {found : Declarations} {parts : List Part} {front out : Text}
    {page final : Page} (ran : (finish front scope found parts).run page = (.ok out, final)) :
    ∃ lowered later after, (lowerParts scope found parts).run page = (.ok (lowered, later), after) ∧
      out = front ++ lowered := by
  rw [finish, Compile.run_bind] at ran
  cases written : (lowerParts scope found parts).run page with
  | mk outcome after =>
    rw [written] at ran
    cases outcome with
    | error failure => cases ran
    | ok lowered =>
      refine ⟨lowered.1, lowered.2, after, rfl, ?_⟩
      dsimp only at ran
      split at ran <;> exact (Except.ok.inj (congrArg Prod.fst ran)).symm

/-- Without a brace no handler starts. -/
theorem partsFrom_of_braceless (braceless : '\x7b' ∉ rest) (blocks : List Span) (offset : Nat) (last : Option Char) :
    partsFrom blocks html offset last rest = rest.map .plain := by
  have quiet : Quiet blocks html offset last rest [] := by
    intro part c after whole
    rw [List.append_nil, Option.eq_none_iff_forall_ne_some]
    rintro ⟨event, body⟩ starts
    obtain ⟨left, right, -, -, -, spelled⟩ := handlerStart_eq_some_iff.1 (handlerHere?_eq_some_iff.1 starts).2.1
    exact braceless (by rw [whole, spelled]; simp)
  have parts := partsFrom_append quiet
  rw [List.append_nil] at parts
  rw [parts, partsFrom, List.append_nil]

/-- A page that begins with the open tag of an element and holds no script of the dialect. Its handlers become
attributes with fresh ids, and each queues one script, in order, exactly if the backward search reads every attribute
of the tag for what it is; the rest of the page is then lowered as it would be anyway. Otherwise the page does not
begin with the tag as it should be written. -/
theorem lower_openTag (sound : tag.Sound) {scope : Scope}
    (translates : ∀ spelled ∈ tag.attributes, spelled.translates scope = true) (whole : html = tag.print ++ rest)
    (unscripted : Pattern.values block html = [])
    (clear : ∀ span ∈ Block.spans html, tag.print.length ≤ span.start) {page : Page} (drawn : Drawn page) :
    (∀ spelled ∈ (tag.settled (page.ids.count "gtml-on" + 1)).attributes, spelled.value.isCode = false) ∧
    (tag.Kept html → ∃ found later,
      Queues page later (scriptsFrom scope (page.ids.count "gtml-on" + 1) tag.attributes) ∧
      (lower html scope).run page =
        (finish (tag.settled (page.ids.count "gtml-on" + 1)).print scope found
          (partsFrom (Block.spans html) html tag.print.length (some '>') rest)).run later ∧
      ('\x7b' ∉ rest → ∃ final : Page, final.scripts = later.scripts ∧
        (lower html scope).run page =
          (.ok ((tag.settled (page.ids.count "gtml-on" + 1)).print ++ rest), final))) ∧
    (¬tag.Kept html → ∀ out final, (lower html scope).run page = (.ok out, final) →
      ¬(tag.settled (page.ids.count "gtml-on" + 1)).print <+: out) := by
  obtain ⟨kept, lost⟩ := run_openTag sound translates whole clear drawn
  rw [lower_of_unscripted unscripted]
  refine ⟨fun spelled member => isCode_of_mem_settledFrom member, fun all => ?_, fun missed out final ran => ?_⟩
  · obtain ⟨found, later, queues, ran⟩ := kept all
    have lowers := run_finish_of_run ran
    refine ⟨found, later, queues, lowers, fun braceless => ?_⟩
    rw [lowers, partsFrom_of_braceless braceless, finish, lowerParts_map_plain, pure_bind]
    dsimp only
    split
    · exact ⟨{ later with usesSignals := true }, rfl, rfl⟩
    · exact ⟨later, rfl, rfl⟩
  · obtain ⟨lowered, found, after, written, rfl⟩ := exists_of_run_finish ran
    exact lost missed _ found after written

/-- In `<button title='x' onkeyup={$n--}>` the handler is replaced. In `<button onclick={() => $n++} onkeyup={$n--}>`
the arrow hides the tag from the second one. -/
theorem lower_openTag_button :
    (∃ final : Page, final.scripts = [handlerScript "onkeyup" "gtml-on-1"
        "function(event) \x7b gtml.set('n', gtml.get('n') - 1) \x7d"] ∧
      (lower "<button title='x' onkeyup=\x7b$n--\x7d>ok</button>" []).run {} =
        (.ok "<button title='x' data-gtml-onkeyup='gtml-on-1'>ok</button>", final)) ∧
    ∀ out final,
      (lower "<button onclick=\x7b() => $n++\x7d onkeyup=\x7b$n--\x7d>ok</button>" []).run {} = (.ok out, final) →
      ¬("<button data-gtml-onclick='gtml-on-1' data-gtml-onkeyup='gtml-on-2'>" : Text) <+: out := by
  let title : Spelled := ⟨" ", "title", [], [], .quoted '\'' "x"⟩
  let down : Spelled := ⟨" ", "onkeyup", [], [], .code "$n--"⟩
  let up : Spelled := ⟨" ", "onclick", [], [], .code "() => $n++"⟩
  have space : IsSpace " " := by simp [IsSpace, isBlank]
  have empty : IsSpace [] := by simp [IsSpace]
  have quoted : title.Sound := ⟨⟨by decide, space⟩, by decide, empty, empty, by decide, by decide⟩
  have downSound : down.Sound := ⟨⟨by decide, space⟩, by decide, empty, empty,
    ⟨"keyup", by decide, by decide, by decide⟩, Script.balanced_of_flat (by decide)⟩
  have upSound : up.Sound := ⟨⟨by decide, space⟩, by decide, empty, empty,
    ⟨"click", by decide, by decide, by decide⟩, Script.balanced_of_flat (by decide)⟩
  have drawn : Drawn {} := fun _ _ _ _ _ => List.not_mem_nil
  have unblocked {html : Text} (none : Block.spans html = []) (size : Nat) :
      ∀ span ∈ Block.spans html, size ≤ span.start := by
    rw [none]
    exact fun span member => absurd member List.not_mem_nil
  constructor
  · let tag : OpenTag := ⟨"button", [title, down], [], false⟩
    let html : Text := "<button title='x' onkeyup=\x7b$n--\x7d>ok</button>"
    have sound : tag.Sound :=
      ⟨by decide, by decide, List.forall_mem_cons.2 ⟨quoted, List.forall_mem_singleton.2 downSound⟩, empty⟩
    have translates : ∀ spelled ∈ tag.attributes, spelled.translates [] = true := by decide +kernel
    have whole : html = tag.print ++ "ok</button>" := by decide +kernel
    obtain ⟨-, kept, -⟩ := lower_openTag sound translates whole (by decide +kernel)
      (unblocked (by decide +kernel) _) drawn
    have constants : ∀ spelled ∈ tag.attributes, ∀ quote text, spelled.value = .quoted quote text →
        '\x7b' ∉ text := by
      refine List.forall_mem_cons.2 ⟨?_, List.forall_mem_singleton.2 ?_⟩
      · intro quote text value
        cases value
        decide
      · intro quote text value
        cases value
    obtain ⟨found, later, queues, -, finishes⟩ := kept (kept_of_plain whole (by decide) constants)
    obtain ⟨final, scripts, ran⟩ := finishes (by decide)
    refine ⟨final, ?_, ?_⟩
    · rw [scripts, queues.scripts]
      decide +kernel
    · have written : (tag.settled 1).print ++ ("ok</button>" : Text) =
          "<button title='x' data-gtml-onkeyup='gtml-on-1'>ok</button>" := by decide +kernel
      rw [← written]
      exact ran
  · let tag : OpenTag := ⟨"button", [up, down], [], false⟩
    let html : Text := "<button onclick=\x7b() => $n++\x7d onkeyup=\x7b$n--\x7d>ok</button>"
    have sound : tag.Sound :=
      ⟨by decide, by decide, List.forall_mem_cons.2 ⟨upSound, List.forall_mem_singleton.2 downSound⟩, empty⟩
    have translates : ∀ spelled ∈ tag.attributes, spelled.translates [] = true := by decide +kernel
    have whole : html = tag.print ++ "ok</button>" := by decide +kernel
    obtain ⟨-, -, lost⟩ := lower_openTag sound translates whole (by decide +kernel)
      (unblocked (by decide +kernel) _) drawn
    have missed : ¬tag.Kept html := by
      rintro ⟨-, second, -⟩
      have hidden : ¬Reopened startsElement html 0 (1 + tag.name.length + up.print.length + down.gap.length) := by
        decide +kernel
      exact hidden second
    have written : (tag.settled 1).print = "<button data-gtml-onclick='gtml-on-1' data-gtml-onkeyup='gtml-on-2'>" := by
      decide +kernel
    intro out final ran
    rw [← written]
    exact lost missed out final ran

end Tag

end Signal

end ComponentPages
