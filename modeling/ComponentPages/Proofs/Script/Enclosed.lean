import ComponentPages.Proofs.Growth
import ComponentPages.Proofs.Script.Closing
import ComponentPages.Proofs.Script.Matching

/-!
The script element of a page. It encloses what the dialect's scripts and the inline handlers of the page and of its
components are lowered to. Lowering writes calls around names and values, and keeps the rest as it is: so where no source
holds `</script`, no script does, whatever the values are that signals start with, and the element is closed by its
closing tag alone.
-/
namespace ComponentPages

namespace Script

/-! ### Texts that close nothing -/

def closerWord : Text := "</script"

/-- Reading a word stops at a character that is not in it. -/
theorem prefix_of_border {word text more : Text} {border : Char} (foreign : border ∉ word)
    (begins : word <+: text ++ border :: more) : word <+: text := by
  rcases Nat.lt_or_ge text.length word.length with longer | within
  · have crossed : text ++ [border] <+: word :=
      List.prefix_of_prefix_length_le ⟨more, by simp⟩ begins (by simpa using longer)
    exact absurd (crossed.subset (List.mem_append_right text List.mem_cons_self)) foreign
  · exact List.prefix_of_prefix_length_le begins (List.prefix_append text _) within

theorem closer_eq_none_iff {text : Text} : closer text = none ↔ ¬closerWord <+: text.map Char.toLower := by
  rw [closer]
  change (if closerWord <+: _ then _ else _) = none ↔ _
  split
  · next here => simp [here]
  · next apart => simp [apart]

theorem closer_persists : Pattern.Persists closer := by
  intro text more nothing
  rw [closer_eq_none_iff] at nothing ⊢
  intro begins
  rw [List.map_append] at nothing
  exact nothing (begins.trans (List.prefix_append _ _))

theorem absent_within {text part : Text} (absent : Pattern.Absent closer text) (inside : part <:+: text) :
    Pattern.Absent closer part := by
  obtain ⟨before, after, rfl⟩ := inside
  exact closer_persists.absent_part absent

/-- Nothing in the text closes a script element, whatever follows it. -/
def Harmless (text : Text) : Prop := ∀ more, Pattern.Passes closer text more

theorem Harmless.append {first second : Text} (front : Harmless first) (back : Harmless second) :
    Harmless (first ++ second) :=
  fun more => Pattern.passes_append_iff.2 ⟨front (second ++ more), back more⟩

theorem Harmless.absent {text : Text} (harmless : Harmless text) : Pattern.Absent closer text := harmless []

theorem harmless_of_not_mem {text : Text} (free : '<' ∉ text) : Harmless text :=
  fun more => Pattern.passes_of_begins more fun _ member _ => closer_eq_none fun angle => absurd (angle ▸ member) free

/-- A text that closes nothing and ends before a character that is not in `</script`. -/
theorem Harmless.bordered {text behind : Text} {border : Char} (absent : Pattern.Absent closer text)
    (foreign : border.toLower ∉ closerWord) (harmless : Harmless (border :: behind)) : Harmless (text ++ border :: behind) := by
  intro more
  refine Pattern.passes_append_iff.2 ⟨?_, harmless more⟩
  refine Pattern.passes_border (fun _ after later nothing => ?_) absent (behind ++ more)
  rw [closer_eq_none_iff] at nothing ⊢
  intro begins
  rw [List.map_append, List.map_cons] at begins
  exact nothing (prefix_of_border foreign begins)

theorem absent_seed (value : Value) : Pattern.Absent closer (seed value) := by
  refine passes_of_slashless (List.isChain_iff_forall_rel_of_append_cons_cons.2 ?_) (by simp)
  rintro c d before after whole ⟨rfl, rfl⟩
  exact Text.replace_ne_slash _ before after whole

/-! ### Written calls -/

section Calls

variable {name selector event value handler : Text}

/-- A value that closes nothing between texts without angle brackets. -/
theorem harmless_around {front behind : Text} (before : '<' ∉ front) (absent : Pattern.Absent closer value)
    (after : '<' ∉ behind) (border : behind.head?.any (fun c => !closerWord.elem c.toLower) = true) :
    Harmless (front ++ value ++ behind) := by
  obtain ⟨c, tail, rfl⟩ : ∃ c tail, behind = c :: tail := by
    cases behind with
    | nil => cases border
    | cons c tail => exact ⟨c, tail, rfl⟩
  rw [List.append_assoc]
  refine (harmless_of_not_mem before).append (Harmless.bordered absent ?_ (harmless_of_not_mem after))
  simpa using border

theorem harmless_call {function : Text} (plain : '<' ∉ function) (named : '<' ∉ name) {argument : Text}
    (absent : Pattern.Absent closer argument) : Harmless (call function name (some argument)) := by
  have whole : call function name (some argument) = ("gtml." ++ function ++ "('" ++ name ++ "'" ++ ", ") ++ argument ++ ")" :=
    congrArg (· ++ (")" : Text)) (List.append_assoc (_ ++ name ++ _) (", " : Text) argument).symm
  rw [whole]
  refine harmless_around ?_ absent (by decide) (by decide)
  simp only [List.mem_append, not_or]
  exact ⟨⟨⟨⟨⟨by decide, plain⟩, by decide⟩, named⟩, by decide⟩, by decide⟩

theorem not_mem_getCall (named : '<' ∉ name) : '<' ∉ getCall name := by
  rw [getCall, call_none]
  simp only [List.mem_append, List.mem_cons, not_or]
  refine ⟨⟨by decide, by decide⟩, ⟨by decide, ⟨by decide, named⟩, by decide⟩, by decide⟩

theorem harmless_incrementCall (named : '<' ∉ name) (up : Bool) : Harmless (incrementCall name up) := by
  refine harmless_call (by decide) named (Harmless.absent (harmless_of_not_mem ?_))
  simp only [List.mem_append, not_or]
  exact ⟨⟨⟨not_mem_getCall named, by decide⟩, by cases up <;> decide⟩, by decide⟩

theorem not_mem_queryCall (named : '<' ∉ selector) (every : Bool) : '<' ∉ queryCall selector every := by
  unfold queryCall
  simp only [List.mem_append, not_or]
  exact ⟨⟨⟨⟨by decide, by cases every <;> decide⟩, by decide⟩, named⟩, by decide⟩

theorem harmless_forEach {selection : Text} (selects : '<' ∉ selection) (listened : '<' ∉ event)
    (absent : Pattern.Absent closer handler) : Harmless (forEach selection event handler) := by
  refine harmless_around ?_ absent (by decide) (by decide)
  simp only [List.mem_append, not_or]
  exact ⟨⟨⟨selects, by decide⟩, listened⟩, by decide⟩

theorem harmless_bindingCall (named : '<' ∉ selector) (listened : '<' ∉ event) (every : Bool)
    (absent : Pattern.Absent closer handler) : Harmless (bindingCall selector every event handler) := by
  cases every with
  | true => exact harmless_forEach (not_mem_queryCall named true) listened absent
  | false =>
    refine harmless_around ?_ absent (by decide) (by decide)
    simp only [List.mem_append, not_or]
    exact ⟨⟨⟨not_mem_queryCall named false, by decide⟩, listened⟩, by decide⟩

theorem absent_operated (named : '<' ∉ name) {operator : Option Char} (known : operator ≠ some '<')
    (absent : Pattern.Absent closer value) : Pattern.Absent closer (operated name operator value) := by
  cases operator with
  | none => exact absent
  | some sign =>
    refine Harmless.absent (harmless_around ?_ absent (by decide) (by decide))
    simp only [List.mem_append, not_or]
    refine ⟨⟨⟨not_mem_getCall named, by decide⟩, ?_⟩, by decide⟩
    exact fun member => known (congrArg some (List.mem_singleton.1 member).symm)

end Calls

/-! ### Lowering -/

/-- The script closes its element nowhere if the source does not, and begins with an end of `</script` only if the
source does. -/
structure StaysOpen (source script : Text) : Prop where
  begins : ∀ word, word ≠ [] → word <:+ closerWord → word <+: script.map Char.toLower → word <+: source.map Char.toLower
  absent : Pattern.Absent closer source → Pattern.Absent closer script

theorem StaysOpen.cons {source script : Text} (later : StaysOpen source script) (c : Char) :
    StaysOpen (c :: source) (c :: script) := by
  have begins : ∀ word, word ≠ [] → word <:+ closerWord → word <+: (c :: script).map Char.toLower →
      word <+: (c :: source).map Char.toLower := by
    intro word some ends begins
    obtain ⟨d, word, rfl⟩ := List.exists_cons_of_ne_nil some
    obtain ⟨same, further⟩ := List.cons_prefix_cons.1 begins
    refine List.cons_prefix_cons.2 ⟨same, ?_⟩
    by_cases done : word = []
    · rw [done]
      exact List.nil_prefix
    · exact later.begins word done ((List.suffix_cons d word).trans ends) further
  refine ⟨begins, fun absent => ?_⟩
  obtain ⟨here, further⟩ := Pattern.passes_cons_iff.1 absent
  refine Pattern.passes_cons_iff.2 ⟨?_, later.absent further⟩
  rw [List.append_nil, closer_eq_none_iff] at here ⊢
  exact fun closes => here (begins closerWord (by decide) List.suffix_rfl closes)

theorem StaysOpen.append {source script : Text} (later : StaysOpen source script) (kept : Text) :
    StaysOpen (kept ++ source) (kept ++ script) := by
  induction kept with
  | nil => exact later
  | cons c kept ih => exact ih.cons c

/-- No end of `</script` begins as the text does. -/
def StartsForeign (text : Text) : Prop := ∃ c tail, text = c :: tail ∧ c.toLower ∉ closerWord

theorem startsForeign_call (function name : Text) (argument? : Option Text) :
    StartsForeign (call function name argument?) := ⟨'g', _, rfl, by decide⟩

theorem startsForeign_queryCall (selector : Text) (every : Bool) : StartsForeign (queryCall selector every) :=
  ⟨'d', _, rfl, by decide⟩

theorem startsForeign_bindingCall (selector : Text) (every : Bool) (event handler : Text) :
    StartsForeign (bindingCall selector every event handler) := by
  cases every with
  | true => exact ⟨'d', _, rfl, by decide⟩
  | false => exact ⟨'d', _, rfl, by decide⟩

/-- A written call in front of the rest, in place of what it was read from. -/
theorem StaysOpen.written {source rest script piece : Text} (later : StaysOpen rest script) (remains : rest <:+ source)
    (harmless : Pattern.Absent closer source → Harmless piece) (foreign : StartsForeign piece) :
    StaysOpen source (piece ++ script) := by
  constructor
  · rintro word some ends begins
    obtain ⟨c, tail, rfl, other⟩ := foreign
    obtain ⟨d, word, rfl⟩ := List.exists_cons_of_ne_nil some
    obtain ⟨rfl, -⟩ := List.cons_prefix_cons.1 begins
    exact absurd (ends.subset List.mem_cons_self) other
  · intro absent
    exact Pattern.absent_append_iff.2 ⟨harmless absent script, later.absent (absent_within absent remains.isInfix)⟩

/-- The name or the selector in a lexeme of the dialect. -/
def nameOf : Lexeme → Text
  | .binding selector _ _ | .selector selector _ => selector
  | .increment name _ | .write name _ | .read name => name
  | .verbatim _ | .other _ => []

theorem not_mem_of_signal {text name rest : Text} (named : signal text = some (name, rest)) : '<' ∉ name :=
  fun member => absurd ((eq_of_signal named).2 _ member) (by decide)

theorem not_mem_of_selector {text chosen rest : Text} (selected : selector text = some (chosen, rest)) : '<' ∉ chosen :=
  fun member => absurd ((eq_of_selector selected).2.2 _ member) (by decide +kernel)

/-- Names and selectors have no angle brackets. -/
theorem not_mem_nameOf {before : Option Char} {c : Char} {tail rest : Text} {found : Lexeme}
    (taken : lexeme before c tail = (found, rest)) : '<' ∉ nameOf found := by
  have binds {text : Text} (read : binding text = some (found, rest)) : '<' ∉ nameOf found := by
    simp only [binding, bind, Option.bind_eq_some_iff, Prod.exists, Option.some.injEq, Prod.mk.injEq] at read
    obtain ⟨chosen, _, selected, _, _, _, _, _, _, _, rfl, -⟩ := read
    exact not_mem_of_selector selected
  have steps {text : Text} (read : increment text = some (found, rest)) : '<' ∉ nameOf found := by
    simp only [increment, bind, Option.bind_eq_some_iff, Prod.exists] at read
    obtain ⟨name, _, named, stepped⟩ := read
    split at stepped
    · cases stepped
      exact not_mem_of_signal named
    · cases stepped
      exact not_mem_of_signal named
    · cases stepped
  have writes {text : Text} (read : write text = some (found, rest)) : '<' ∉ nameOf found := by
    simp only [write, bind, Option.bind_eq_some_iff, Prod.exists, Option.some.injEq, Prod.mk.injEq] at read
    obtain ⟨name, _, named, _, _, _, rfl, -⟩ := read
    exact not_mem_of_signal named
  have reads {text : Text} (read : read text = some (found, rest)) : '<' ∉ nameOf found := by
    obtain ⟨⟨name, after⟩, named, same⟩ := Option.map_eq_some_iff.1 read
    cases same
    exact not_mem_of_signal named
  have queries {text : Text} (read : query text = some (found, rest)) : '<' ∉ nameOf found := by
    simp only [query, bind, Option.bind_eq_some_iff, Prod.exists] at read
    obtain ⟨chosen, _, selected, chose⟩ := read
    split at chose
    · cases chose
      exact not_mem_of_selector selected
    · split at chose
      · cases chose
        exact not_mem_of_selector selected
      · cases chose
  rcases exists_pattern_of_lexeme taken with ⟨text, rfl⟩ | rfl | ⟨pattern, member, here⟩
  · exact List.not_mem_nil
  · exact List.not_mem_nil
  · simp only [List.mem_cons, List.not_mem_nil, or_false] at member
    rcases member with rfl | rfl | rfl | rfl | rfl
    exacts [binds here, steps here, writes here, reads here, queries here]

/-- What a bracket closes, the bracket and the rest are the text. -/
theorem eq_of_close? {opening closing : Char} {state : ScriptState} {depth : Nat} {text inside after : Text}
    (closed : close? opening closing state depth text = some (inside, after)) : text = inside ++ closing :: after := by
  induction text generalizing state depth inside with
  | nil => cases closed
  | cons c rest ih =>
    unfold close? at closed
    split at closed
    · next here =>
      cases closed
      rw [here.2.1, List.nil_append]
    · obtain ⟨⟨first, second⟩, later, same⟩ := Option.map_eq_some_iff.1 closed
      cases same
      rw [ih later, List.cons_append]

theorem splitValue_append (state : ScriptState) (depth : Nat) (text : Text) :
    (splitValue state depth text).1 ++ (splitValue state depth text).2 = text := by
  induction text generalizing state depth with
  | nil => rfl
  | cons c text ih =>
    rw [splitValue]
    split
    · rfl
    · rw [List.cons_append, ih]

theorem suffix_of_lexeme {before : Option Char} {c : Char} {tail rest : Text} {found : Lexeme}
    (taken : lexeme before c tail = (found, rest)) : rest <:+ c :: tail := by
  rcases lexeme_cases taken with ⟨inside, _, -, rfl, -⟩ | ⟨-, -, inside, rfl, -⟩ | ⟨-, rfl, -⟩
  · exact List.suffix_append (c :: inside) rest
  · exact List.suffix_append (c :: inside) rest
  · exact List.suffix_cons c rest

theorem isDialect_of_lexeme {before : Option Char} {c : Char} {tail rest : Text} {found : Lexeme}
    (taken : lexeme before c tail = (found, rest)) (verbatim : ∀ text, found ≠ .verbatim text)
    (other : ∀ c, found ≠ .other c) : IsDialect found := by
  rcases lexeme_cases taken with ⟨inside, _, same, -⟩ | ⟨known, -⟩ | ⟨same, -⟩
  · exact absurd same (verbatim _)
  · exact known
  · exact absurd same (other _)

theorem not_mem_lower {event : Text} (named : Signal.IsEvent event) : '<' ∉ Text.lower event :=
  fun member => absurd (Signal.isTagNamePart_of_mem_lower named '<' member) (by decide)

theorem infix_trim (text : Text) : Text.trim text <:+: text := by
  obtain ⟨before, after, -, -, whole⟩ := Text.exists_eq_trim text
  exact ⟨before, after, whole.symm⟩

theorem returns_harmless_writeSignal {p : Prop} {name value : Text} (topLevel : Bool) (named : '<' ∉ name)
    (absent : p → Pattern.Absent closer value) :
    (writeSignal topLevel name value).Returns fun written => (p → Harmless written) ∧ StartsForeign written := by
  unfold writeSignal
  split
  · refine (Lowering.Returns.any _).bind fun _ _ => .pure ?_
    exact ⟨fun holds => harmless_call (by decide) named (absent holds), startsForeign_call _ _ _⟩
  · exact .pure ⟨fun holds => harmless_call (by decide) named (absent holds), startsForeign_call _ _ _⟩

/-- A script closes its element nowhere that its source does not, whatever the values in the scope are. -/
theorem returns_staysOpen (scope : Scope) (nested : Bool) (before : Option Char) (braces : Int) (source : Text) :
    (lowerFrom scope nested before braces source).Returns (StaysOpen source) := by
  fun_induction lowerFrom scope nested before braces source with
  | case1 => exact .pure ⟨fun _ _ _ begins => begins, id⟩
  | case2 nested before braces c tail rest text taken _ shorter ih =>
    rcases lexeme_cases taken with ⟨inside, _, same, rfl, -⟩ | ⟨known, -⟩ | ⟨other, -⟩
    · cases same
      exact ih.bind fun script opened => .pure (opened.append (c :: inside))
    · cases known
    · cases other
  | case3 => exact .throw _ _
  | case4 nested before braces c tail rest selector every event taken inside after ends parts remainder _ shorter
      handler others =>
    have named := not_mem_nameOf taken
    have closed := eq_of_close? ends
    have whole : inside ++ ')' :: after <:+ c :: tail := closed ▸ suffix_of_lexeme taken
    have within : inside <:+: c :: tail := (List.prefix_append inside _).isInfix.trans whole.isInfix
    have remains : (afterBinding after).2 <:+ c :: tail := by
      obtain ⟨skipped, split, -⟩ := exists_afterBinding after
      calc (afterBinding after).2 <:+ after := ⟨skipped, split.symm⟩
        _ <:+ inside ++ ')' :: after := ⟨inside ++ [')'], by simp⟩
        _ <:+ c :: tail := whole
    have known : IsDialect (.binding selector every event) := isDialect_of_lexeme taken (by simp) (by simp)
    refine handler.bind fun lowered inner => others.bind fun script opened => .pure ?_
    refine opened.written remains (fun absent => ?_) (startsForeign_bindingCall _ _ _ _)
    have trimmed := absent_within (inner.absent (absent_within absent within)) (infix_trim lowered)
    exact harmless_bindingCall named (not_mem_lower known.2) every trimmed
  | case5 nested before braces c tail rest name up taken _ shorter ih =>
    refine (Lowering.Returns.any _).bind fun _ _ => ih.bind fun script opened => .pure ?_
    exact opened.written (suffix_of_lexeme taken) (fun _ => harmless_incrementCall (not_mem_nameOf taken) up)
      (startsForeign_call _ _ _)
  | case6 => exact .throw _ _
  | case7 nested before braces c tail rest name operator taken sizes trimmed parts raw topLevel valued _ shorter =>
    rename_i others value
    have named := not_mem_nameOf taken
    have whole : parts.1 ++ parts.2 <:+ c :: tail := by
      rw [splitValue_append]
      exact suffix_of_lexeme taken
    have within : raw <:+: c :: tail :=
      (infix_trim parts.1).trans ((List.prefix_append _ _).isInfix.trans whole.isInfix)
    have remains : parts.2 <:+ c :: tail := (List.suffix_append parts.1 _).trans whole
    have known : operator ≠ some '<' := by
      rintro rfl
      have dialect : IsDialect (.write name (some '<')) := isDialect_of_lexeme taken (by simp) (by simp)
      exact absurd (dialect.2 '<' rfl) (by decide)
    have written (lowered : Text) (good : Pattern.Absent closer (c :: tail) → Pattern.Absent closer lowered) : (do
        let written ← writeSignal topLevel name (operated name operator lowered)
        pure (written ++ (← lowerFrom scope nested parts.1.getLast? braces parts.2)) : Lowering Text).Returns
          (StaysOpen (c :: tail)) := by
      have writes := returns_harmless_writeSignal topLevel named fun absent => absent_operated named known (good absent)
      refine writes.bind fun piece harmless => others.bind fun script opened => .pure ?_
      exact opened.written remains harmless.1 harmless.2
    refine (Lowering.Returns.any _).bind fun _ _ => ?_
    dsimp only
    split
    · next literal seeded =>
      refine (Lowering.Returns.pure ?_).bind fun literal good => written literal fun _ => good
      obtain ⟨seeds, -, rfl⟩ := Option.map_eq_some_iff.1 (seeded_of_seed? seeded)
      exact absent_seed seeds
    · exact value.bind fun lowered inner => written lowered fun absent => inner.absent (absent_within absent within)
  | case8 nested before braces c tail rest name taken _ shorter ih =>
    refine (Lowering.Returns.any _).bind fun _ _ => ih.bind fun script opened => .pure ?_
    exact opened.written (suffix_of_lexeme taken)
      (fun _ => harmless_of_not_mem (not_mem_getCall (not_mem_nameOf taken))) (startsForeign_call _ _ _)
  | case9 nested before braces c tail rest selector every taken last _ shorter ih =>
    refine ih.bind fun script opened => .pure ?_
    exact opened.written (suffix_of_lexeme taken)
      (fun _ => harmless_of_not_mem (not_mem_queryCall (not_mem_nameOf taken) every)) (startsForeign_queryCall _ _)
  | case10 nested before braces c tail rest d taken outer _ shorter ih =>
    rcases lexeme_cases taken with ⟨_, _, other, -⟩ | ⟨known, -⟩ | ⟨same, rfl, -⟩
    · cases other
    · cases known
    · cases same
      exact ih.bind fun script opened => .pure (opened.cons c)

end Script

/-! ### Queued scripts -/

/-- Where only scripts of a kind are queued, all scripts of a page are of that kind if they were so before. -/
theorem Page.respects_queued {accepts : Text → Prop} : Page.Respects accepts fun before after =>
    (∀ script ∈ before.scripts, accepts script) → ∀ script ∈ after.scripts, accepts script where
  refl _ := id
  trans here later := later ∘ here
  note _ _ := id
  nextId _ _ := id
  needSignals _ := id
  addScript page script accepted queued := by
    unfold Page.addScript
    split
    · exact queued
    · exact List.forall_mem_append.2 ⟨queued, List.forall_mem_singleton.2 accepted⟩

namespace Signal

open Script (closer Harmless harmless_around harmless_forEach absent_within infix_trim)

/-- The scripts of a template and the bodies of its inline handlers, as they are written. -/
def sources (html : Text) : List Text :=
  Pattern.values block html ++ (parts (Pattern.erase block html)).filterMap fun
    | .handler _ body => some body
    | _ => none

theorem isEvent_of_mem_partsFrom {blocks : List Span} {html text : Text} {offset : Nat} {before : Option Char}
    {event body : Text} (member : .handler event body ∈ partsFrom blocks html offset before text) : IsEvent event := by
  fun_induction partsFrom blocks html offset before text with
  | case1 => cases member
  | case2 offset before c rest nothing ih =>
    rcases List.mem_cons.1 member with other | later
    · cases other
    · exact ih later
  | case3 =>
    rcases List.mem_cons.1 member with other | later
    · cases other
    · cases later
  | case4 offset before c rest written inside starts body after closed ih =>
    rcases List.mem_cons.1 member with same | later
    · cases same
      obtain ⟨_, _, named, -⟩ := handlerStart_eq_some_iff.1 (handlerHere?_eq_some_iff.1 starts).2.1
      exact named
    · exact ih later

theorem absent_wrap {script : Text} (absent : Pattern.Absent closer script) : Pattern.Absent closer (wrap script) :=
  Harmless.absent (harmless_around (by decide) absent (by decide) (by decide))

theorem absent_handlerScript {event handler : Text} (named : IsEvent event) (number : Nat)
    (absent : Pattern.Absent closer handler) :
    Pattern.Absent closer (handlerScript (Text.lower event) ("gtml-on" ++ "-" ++ Text.ofNat number) handler) := by
  have listened := Script.not_mem_lower named
  have digits : '<' ∉ Text.ofNat number := fun member => absurd (Text.isDigit_of_mem_ofNat member) (by decide)
  have id : '<' ∉ ("gtml-on" ++ "-" ++ Text.ofNat number : Text) :=
    List.not_mem_append (List.not_mem_append (by decide) (by decide)) digits
  have marked : '<' ∉ handlerAttribute (Text.lower event) ("gtml-on" ++ "-" ++ Text.ofNat number) := by
    unfold handlerAttribute
    have front : '<' ∉ ("data-gtml-" ++ Text.lower event ++ "='" : Text) :=
      List.not_mem_append (List.not_mem_append (by decide) listened) (by decide)
    exact List.not_mem_append (List.not_mem_append front id) (by decide)
  have selection : '<' ∉ ("document.querySelectorAll(\"[" : Text) := by decide +kernel
  exact Harmless.absent (harmless_forEach (List.not_mem_append (List.not_mem_append selection marked) (by decide)) listened
    absent)

theorem returns_lowerHandler (scope : Scope) {body : Text} (absent : Pattern.Absent closer body) :
    (Script.lowerHandler scope body).Returns (Pattern.Absent closer) := by
  refine (Script.returns_staysOpen scope true none 0 (Text.trim body)).bind fun lowered opened => ?_
  have kept := opened.absent (absent_within absent (infix_trim body))
  have called : Harmless ("function(event) \x7b " ++ lowered ++ " \x7d") :=
    harmless_around (by decide) kept (by decide) (by decide)
  split
  · exact .pure kept
  · exact .pure called.absent

/-- Sources that close nothing are queued as scripts that close nothing. -/
theorem queuesOnly_of_sources {html : Text} (free : ∀ source ∈ sources html, Pattern.Absent closer source) (scope : Scope) :
    QueuesOnly (Pattern.Absent closer) html scope where
  blocks source member found script ran := by
    have opened := Script.returns_staysOpen scope false none 0 source found script ran
    exact absent_wrap (absent_within (opened.absent (free source (List.mem_append_left _ member))) (infix_trim script))
  handlers event body member number found handler ran := by
    have listed : body ∈ sources html := List.mem_append_right _ (List.mem_filterMap.2 ⟨_, member, rfl⟩)
    exact absent_handlerScript (isEvent_of_mem_partsFrom member) number
      (returns_lowerHandler scope (free body listed) found handler ran)

end Signal

/-! ### The script element of a page -/

namespace ScriptTexts

open Script (closer ClosesOnce Harmless harmless_of_not_mem)

set_option maxRecDepth 4000 in
theorem not_mem_library : '<' ∉ library {} := by
  have each : ∀ line ∈ runtimeLines.map String.toList, line.all (· != '<') = true := by
    simp only [runtimeLines, List.map_cons, List.map_nil, List.forall_mem_cons]
    and_intros
    all_goals first
      | exact all_of_spelled rfl (by decide +kernel)
      | exact List.forall_mem_nil _
  intro member
  have inLines : '<' ∈ lines (runtimeLines.map String.toList) := by
    change '<' ∈ withoutFinalBreak (lines (runtimeLines.map String.toList)) at member
    unfold withoutFinalBreak at member
    split at member
    · exact List.mem_of_mem_dropLast member
    · exact member
  rcases mem_of_mem_lines inLines with lineBreak | ⟨line, listed, inLine⟩
  · exact absurd lineBreak (by decide)
  · exact absurd (List.all_eq_true.1 (each line listed) _ inLine) (by decide)

theorem pageScript_closed {scripts : List Text} (open_ : ∀ script ∈ scripts, Pattern.Absent closer script)
    (usesSignals : Bool) :
    pageScript {} scripts usesSignals = [] ∨ ClosesOnce (pageScript {} scripts usesSignals) := by
  have tag : Harmless ('<' :: ("script>\n" : Text)) := fun more =>
    Pattern.passes_cons_iff.2 ⟨Script.closer_eq_none fun _ same => absurd (Option.some.inj same) (by decide),
      harmless_of_not_mem (by decide) more⟩
  have queued : Harmless (scripts.flatMap (· ++ ['\n'])) := by
    induction scripts with
    | nil => exact harmless_of_not_mem List.not_mem_nil
    | cons script scripts ih =>
      obtain ⟨here, later⟩ := List.forall_mem_cons.1 open_
      rw [List.flatMap_cons]
      exact (Harmless.bordered here (by decide) (harmless_of_not_mem (by decide))).append (ih later)
  have runtime : Harmless (if usesSignals then library {} ++ "\n" else []) := by
    split
    · exact (harmless_of_not_mem not_mem_library).append (harmless_of_not_mem (by decide))
    · exact harmless_of_not_mem List.not_mem_nil
  have binding : Harmless (if usesSignals then "gtml.bind(document);\n" else []) := by
    split <;> exact harmless_of_not_mem (by decide)
  have body := ((tag.append runtime).append queued).append binding
  unfold pageScript
  split
  · exact .inl rfl
  · right
    have whole : Text.trim (bundledPage (library {}) scripts usesSignals) = bundledPage (library {}) scripts usesSignals := by
      unfold bundledPage
      dsimp only
      rw [List.append_assoc ("<script>\n" : Text), List.append_assoc ("<script>\n" : Text)]
      exact trim_element _
    change ClosesOnce (Text.trim (bundledPage (library {}) scripts usesSignals))
    rw [whole]
    exact Script.closesOnce_of_passes (body "</script>")

end ScriptTexts

/-- The script element of a page closes at its closing tag alone, if no script and no inline handler of the page or of a
component holds `</script` itself; whatever the values in the scope are, and however the compilation ends. -/
theorem compileFresh_closesOnce {workshop : Workshop} {html : Text}
    (page : ∀ source ∈ Signal.sources html, Pattern.Absent Script.closer source)
    (components : ∀ component ∈ workshop.registry.components, ∀ source ∈ Signal.sources component.template,
      Pattern.Absent Script.closer source) (limit : Int) (scope : Scope) :
    let final := (compileFresh workshop limit scope html).2
    ScriptTexts.pageScript {} final.scripts final.usesSignals = [] ∨
      Script.ClosesOnce (ScriptTexts.pageScript {} final.scripts final.usesSignals) := by
  intro final
  have registered : workshop.registry.QueuesOnly (Pattern.Absent Script.closer) := by
    intro name component required scope
    have listed : component ∈ workshop.registry.components := by
      unfold Registry.require at required
      split at required
      · next found =>
        cases required
        exact List.mem_of_find?_eq_some found
      · cases required
    exact Signal.queuesOnly_of_sources (components component listed) scope
  have moved : (compilePage workshop (ExpansionStack.empty limit) scope true html).Moves fun before after =>
      (∀ script ∈ before.scripts, Pattern.Absent Script.closer script) →
        ∀ script ∈ after.scripts, Pattern.Absent Script.closer script :=
    moves_compilePage Page.respects_queued registered _ fun _ => Signal.queuesOnly_of_sources page scope
  exact ScriptTexts.pageScript_closed (moved {} (List.forall_mem_nil _)) final.usesSignals

/-- A signal that starts with `</script>`, on a page with a component whose handler holds another closing tag. -/
theorem compileFresh_closesOnce_seeded :
    let html : Text := "<script type='gtml'>$s = name</script><p>\x7bs\x7d</p><Card />"
    let card : Component :=
      { name := "Card", template := "<b onclick=\x7bf('</b>')\x7d></b>", props := [], scopeId := "data-card", css := [] }
    (∀ source ∈ Signal.sources html, Pattern.Absent Script.closer source) ∧
      (∀ component ∈ [card], ∀ source ∈ Signal.sources component.template, Pattern.Absent Script.closer source) ∧
      let final := (compileFresh { registry := ⟨[card]⟩ } 8 [("name", .string "</script>")] html).2
      ScriptTexts.pageScript {} final.scripts final.usesSignals = [] ∨
        Script.ClosesOnce (ScriptTexts.pageScript {} final.scripts final.usesSignals) := by
  intro html card
  have read : Signal.sources html = [("$s = name" : Text)] := by decide +kernel
  have handled : Signal.sources card.template = [("f('</b>')" : Text)] := by decide +kernel
  have page : ∀ source ∈ Signal.sources html, Pattern.Absent Script.closer source := by
    rw [read]
    exact List.forall_mem_singleton.2 (Pattern.absent_of_seek? (Option.isNone_iff_eq_none.1 (by decide +kernel)))
  have components : ∀ component ∈ [card], ∀ source ∈ Signal.sources component.template,
      Pattern.Absent Script.closer source := by
    refine List.forall_mem_singleton.2 ?_
    rw [handled]
    exact List.forall_mem_singleton.2 (Pattern.absent_of_seek? (Option.isNone_iff_eq_none.1 (by decide +kernel)))
  exact ⟨page, components, @compileFresh_closesOnce { registry := ⟨[card]⟩ } html page components 8 _⟩

end ComponentPages
