import ComponentPages.Expansion
import ComponentPages.Proofs.Bindings
import ComponentPages.Proofs.Expression.Reading
import ComponentPages.Proofs.Fetch.Survival
import ComponentPages.Proofs.Hook.Marking
import ComponentPages.Proofs.Markup.Slot

/-!
The passes keep markers whole. Settling cuts a text at braces and parentheses, expressions at quotes and operators,
attributes at blanks, quotes and braces, and tags at angle brackets; what they put in place is cut from marked texts,
or has no marker in it. Resolving leaves no marker, and the lowering of fetch elements makes none.
-/
namespace ComponentPages

/-- A hit is read off the front of what is left of the text. -/
theorem Pattern.exists_of_hit {α : Type} {read : Pattern α} {text source : Text} {value : α}
    (member : .hit source value ∈ segments read text) :
    ∃ front rest, front <:+ text ∧ read front = some (value, rest) ∧ source ≠ [] ∧
      source = front.take (front.length - rest.length) := by
  fun_induction segments read text with
  | case1 => cases member
  | case2 c tail found rest reads taken positive ih =>
    rcases List.mem_cons.1 member with here | later
    · cases here
      refine ⟨c :: tail, rest, List.suffix_rfl, reads, fun empty => ?_, rfl⟩
      have size := congrArg List.length empty
      simp only [List.length_take, List.length_cons, List.length_nil] at size
      omega
    · obtain ⟨front, rest, suffix, facts⟩ := ih later
      exact ⟨front, rest, suffix.trans (List.drop_suffix _ _), facts⟩
  | case3 c tail found rest reads taken nothing ih =>
    rcases List.mem_cons.1 member with here | later
    · cases here
    · obtain ⟨front, rest, suffix, facts⟩ := ih later
      exact ⟨front, rest, suffix.trans (List.suffix_cons c tail), facts⟩
  | case4 c tail nothing ih =>
    rcases List.mem_cons.1 member with here | later
    · cases here
    · obtain ⟨front, rest, suffix, facts⟩ := ih later
      exact ⟨front, rest, suffix.trans (List.suffix_cons c tail), facts⟩

theorem exists_of_bind {α β : Type} {first : Except Failure α} {next : α → Except Failure β} {value : β}
    (succeeds : (first >>= next) = .ok value) : ∃ a, first = .ok a ∧ next a = .ok value := by
  cases first with
  | error failure => cases succeeds
  | ok a => exact ⟨a, rfl, succeeds⟩

theorem exists_of_map {α β : Type} {f : α → β} {first : Except Failure α} {value : β}
    (succeeds : first.map f = .ok value) : ∃ a, first = .ok a ∧ f a = value := by
  cases first with
  | error failure => cases succeeds
  | ok a => exact ⟨a, rfl, Except.ok.inj succeeds⟩

theorem forall₂_of_mapM {α β : Type} {f : α → Except Failure β} {list : List α} {results : List β}
    (mapped : list.mapM f = .ok results) : List.Forall₂ (fun a b => a ∈ list ∧ f a = .ok b) list results := by
  induction list generalizing results with
  | nil =>
    cases mapped
    exact .nil
  | cons a list ih =>
    rw [List.mapM_cons] at mapped
    obtain ⟨b, here, mapped⟩ := exists_of_bind mapped
    obtain ⟨others, later, mapped⟩ := exists_of_bind mapped
    cases mapped
    refine .cons ⟨List.mem_cons_self, here⟩ ((ih later).imp fun other _ found => ?_)
    exact ⟨List.mem_cons_of_mem a found.1, found.2⟩

namespace Signal

variable {known : Text → Prop}

/-! ### Patterns -/

/-- A pattern that begins in no marker. -/
def Outside {α : Type} (read : Pattern α) : Prop := ∀ c text, isBorder c = false → read (c :: text) = none

theorem outside_of_ne {α : Type} {read : Pattern α} {front : Char} (border : isBorder front = true)
    (begins : ∀ c text, c ≠ front → read (c :: text) = none) : Outside read := by
  intro c text inside
  apply begins
  rintro rfl
  rw [border] at inside
  cases inside

theorem border_of_hit {α : Type} {read : Pattern α} (outside : Outside read) (unread : read [] = none) {text source : Text}
    {value : α} (member : .hit source value ∈ Pattern.segments read text) : source.head?.any isBorder = true := by
  obtain ⟨front, rest, -, reads, solid, whole⟩ := Pattern.exists_of_hit member
  cases front with
  | nil =>
    rw [unread] at reads
    cases reads
  | cons c front =>
    have border : isBorder c = true := by
      by_contra inside
      rw [outside c front (Bool.eq_false_of_not_eq_true inside)] at reads
      cases reads
    cases source with
    | nil => exact absurd rfl solid
    | cons d source =>
      have taken : (c :: front).take ((c :: front).length - rest.length) = d :: source := whole.symm
      cases size : (c :: front).length - rest.length with
      | zero =>
        rw [size, List.take_zero] at taken
        cases taken
      | succ n =>
        rw [size, List.take_succ_cons] at taken
        rw [← (List.cons.inj taken).1]
        exact border

theorem Marked.replace {α : Type} {read : Pattern α} (outside : Outside read) (unread : read [] = none) {text : Text}
    (marked : Marked known text) {write : α → Text}
    (writes : ∀ front value rest, front <:+ text → read front = some (value, rest) → Marked known (write value)) :
    Marked known (Pattern.replace read write text) := by
  rw [Pattern.replace, List.flatMap_def]
  have rewritten : Rewritten known ((Pattern.segments read text).flatMap Segment.source)
      ((Pattern.segments read text).map (Segment.write write)).flatten := by
    apply Rewritten.of_segments
    rw [List.forall₂_map_right_iff, List.forall₂_same]
    intro piece member
    cases piece with
    | plain c => rfl
    | hit source value =>
      obtain ⟨front, rest, suffix, reads, -, -⟩ := Pattern.exists_of_hit member
      exact ⟨border_of_hit outside unread member, writes front value rest suffix reads⟩
  rw [Pattern.flatMap_source_segments] at rewritten
  exact rewritten.marked marked

/-! ### Conditionals -/

open Conditional in
theorem Marked.of_afterJoint {joint : Joint} {snippet text rest : Text} (marked : Marked known text)
    (found : afterJoint joint snippet text = .ok rest) : Marked known rest := by
  have left := marked.trimLeft
  rw [eq_of_afterJoint found] at left
  exact left.2

open Conditional in
theorem Marked.of_readBranch {truthy : Bool} {snippet text inside after : Text} (marked : Marked known text)
    (found : readBranch truthy snippet text = .ok (inside, after)) : Marked known inside ∧ Marked known after := by
  unfold readBranch at found
  split at found
  · next located =>
    cases found
    rw [eq_of_branch? located] at marked
    exact ⟨marked.before (by decide), marked.behind.2⟩
  · cases found

/-- Both branches of a conditional and what follows it. -/
theorem Marked.of_read {offset : Nat} {text rest : Text} {conditional : Conditional} (marked : Marked known text)
    (reads : Conditional.read offset text = .ok (conditional, rest)) :
    text.head? = some '\x7b' ∧ Marked known conditional.truthy ∧ Marked known conditional.falsy ∧ Marked known rest := by
  unfold Conditional.read at reads
  split at reads
  · next inside =>
    split at reads
    · cases reads
    · next condition mark afterMark located =>
      have behind := marked.2
      rw [Conditional.eq_of_splitCondition? located] at behind
      simp only [bind, Except.bind] at reads
      split at reads
      · cases reads
      · split at reads
        · cases reads
        · next opened =>
          split at reads
          · cases reads
          · next first =>
            split at reads
            · cases reads
            · next colon =>
              split at reads
              · cases reads
              · next openedAgain =>
                split at reads
                · cases reads
                · next second =>
                  split at reads
                  · cases reads
                  · next closed =>
                    cases reads
                    have one := (behind.behind.2.of_afterJoint opened).of_readBranch first
                    have two := ((one.2.of_afterJoint colon).of_afterJoint openedAgain).of_readBranch second
                    exact ⟨rfl, one.1, two.1, two.2.of_afterJoint closed⟩
  · cases reads

theorem Marked.of_choose {conditional : Conditional} {scope : Scope} {branch : Text}
    (truthy : Marked known conditional.truthy) (falsy : Marked known conditional.falsy)
    (chosen : conditional.choose scope = .ok branch) : Marked known branch := by
  unfold Conditional.choose at chosen
  simp only [bind, Except.bind] at chosen
  split at chosen
  · cases chosen
  · split at chosen
    · cases chosen
      exact truthy
    · cases chosen
      exact falsy
    · cases chosen

theorem Marked.settle {html settled : Text} {scope : Scope} (marked : Marked known html)
    (settles : Conditional.settle html scope = .ok settled) : Marked known settled := by
  induction size : html.length using Nat.strongRecOn generalizing html settled with
  | ind length ih =>
    cases sought : Conditional.seek? html with
    | none =>
      rw [Conditional.settle_of_none sought] at settles
      cases settles
      exact marked
    | some pair =>
      obtain ⟨before, found⟩ := pair
      have whole := Conditional.eq_of_seekFrom? sought
      rw [Conditional.settle_of_some sought] at settles
      rw [whole] at marked
      cases reads : Conditional.read before.length found with
      | error failure =>
        rw [reads] at settles
        cases settles
      | ok result =>
        obtain ⟨conditional, rest⟩ := result
        obtain ⟨brace, truthy, falsy, behind⟩ := marked.behind.of_read reads
        have shorter := Conditional.length_of_read reads
        rw [reads] at settles
        cases chosen : conditional.choose scope with
        | error failure =>
          simp only [bind, Except.bind, chosen] at settles
          cases settles
        | ok branch =>
          have branchShorter := Conditional.length_of_choose chosen
          simp only [bind, Except.bind, chosen] at settles
          cases replaced : Conditional.settle branch scope with
          | error failure =>
            simp only [replaced] at settles
            cases settles
          | ok replacement =>
            have replacementShorter := Conditional.length_of_settle replaced
            simp only [replaced] at settles
            have sizes := congrArg List.length whole
            simp only [List.length_append] at sizes
            have branchMarked := ih branch.length (by omega) (truthy.of_choose falsy chosen) replaced rfl
            have frontMarked : Marked known before := by
              cases found with
              | nil => cases brace
              | cons c found =>
                obtain rfl : c = '\x7b' := Option.some.inj brace
                exact marked.before (by decide)
            have joined := (frontMarked.append branchMarked).append behind
            exact ih _ (by simp only [List.length_append]; omega) joined settles rfl

/-! ### Values -/

/-- Whatever a scope holds is written with whole markers. -/
def MarkedScope (known : Text → Prop) (scope : Scope) : Prop := ∀ binding ∈ scope, Marked known binding.2.render

theorem MarkedScope.mono {more : Text → Prop} {scope : Scope} (marked : MarkedScope known scope)
    (learns : ∀ name, known name → more name) : MarkedScope more scope :=
  fun binding member => (marked binding member).mono learns

theorem marked_ofInt (number : Int) : Marked known (Text.ofInt number) := by
  have digits (n : Nat) : markerOpen ∉ Text.ofNat n := by
    intro member
    exact absurd (Text.isDigit_of_mem_ofNat member) (by decide)
  apply marked_of_not_mem
  cases number with
  | ofNat n => exact digits n
  | negSucc n =>
    intro member
    rcases List.mem_cons.1 member with sign | later
    · exact absurd sign (by decide)
    · exact digits (n + 1) later

/-- Only strings can hold markers. -/
theorem marked_render {value : Value} (strings : ∀ text, value = .string text → Marked known text) :
    Marked known value.render := by
  cases value with
  | string text => exact strings text rfl
  | int number => exact marked_ofInt number
  | boolean truth => cases truth <;> exact marked_of_not_mem (by decide)

theorem arithmetic_ne_string {operator : Operator} {left right : Int} {source text : Text} :
    Value.arithmetic operator left right source ≠ .ok (.string text) := by
  intro computed
  unfold Value.arithmetic at computed
  split at computed <;> first | cases computed | (split at computed <;> cases computed)

theorem compare_ne_string {left right : Value} {symbol source text : Text} :
    Value.compare left right symbol source ≠ .ok (.string text) := by
  intro compared
  unfold Value.compare at compared
  dsimp only at compared
  split at compared <;> first | cases compared | (split at compared <;> cases compared)

theorem Marked.of_combine {left right value : Value} {operator : Operator} {source : Text}
    (first : Marked known left.render) (second : Marked known right.render)
    (combined : left.combine operator right source = .ok value) : Marked known value.render := by
  apply marked_render
  rintro text rfl
  unfold Value.combine at combined
  split at combined
  · split at combined <;> cases combined
  · split at combined <;> cases combined
  · -- A string comes from an addition of strings and from nothing else.
    unfold Value.addition at combined
    split at combined
    · cases combined
      exact first.append second
    · cases combined
    · cases combined
  all_goals first
    | exact absurd combined compare_ne_string
    | (split at combined <;> first | exact absurd combined arithmetic_ne_string | cases combined)

/-- The strings in an expression have whole markers. -/
def MarkedTree (known : Text → Prop) : Expression → Prop
  | .literal value => Marked known value.render
  | .binary _ left right _ => MarkedTree known left ∧ MarkedTree known right
  | .variable _ | .invalid _ => True

theorem Marked.of_eval {expression : Expression} {scope : Scope} {value : Value} (marked : MarkedTree known expression)
    (held : MarkedScope known scope) (evaluated : expression.eval scope = .ok value) : Marked known value.render := by
  induction expression generalizing value with
  | literal value =>
    cases evaluated
    exact marked
  | «variable» name =>
    rw [Expression.eval] at evaluated
    split at evaluated
    · next bound =>
      cases evaluated
      exact held (name, value) (Bindings.mem_of_get? bound)
    · cases evaluated
  | binary operator left right source leftMarked rightMarked =>
    rw [Expression.eval] at evaluated
    cases first : left.eval scope with
    | error failure =>
      rw [first] at evaluated
      cases evaluated
    | ok front =>
      cases second : right.eval scope with
      | error failure =>
        rw [first, second] at evaluated
        cases evaluated
      | ok back =>
        rw [first, second] at evaluated
        exact (leftMarked marked.1 first).of_combine (rightMarked marked.2 second) evaluated
  | invalid failure => cases evaluated

theorem Marked.of_literal? {text : Text} {value : Value} (marked : Marked known text)
    (found : Expression.literal? text = some value) : Marked known value.render := by
  apply marked_render
  rintro body rfl
  unfold Expression.literal? at found
  split at found
  · cases found
  · split at found
    · cases found
    · rcases Option.or_eq_some_iff.1 found with quoted | ⟨-, number⟩
      · obtain ⟨quote, inside, rfl, quotes, -, same⟩ := Expression.quoted?_eq_some_iff.1 quoted
        cases same
        exact Marked.before marked.2 (isBorder_of_isQuote quotes)
      · unfold Expression.integer? at number
        split at number
        · obtain ⟨n, -, same⟩ := Option.map_eq_some_iff.1 number
          cases same
        · obtain ⟨n, -, same⟩ := Option.map_eq_some_iff.1 number
          cases same

/-- The operands of an operator, which is written outside any marker. -/
theorem Marked.of_split? {text left right : Text} {operator : Operator} (marked : Marked known text)
    (found : Expression.split? text = some (operator, left, right)) : Marked known left ∧ Marked known right := by
  obtain ⟨c, symbol, spelled, border⟩ : ∃ c symbol, operator.symbol = c :: symbol ∧ isBorder c = true := by
    cases operator <;> exact ⟨_, _, rfl, by decide⟩
  rw [(Expression.eq_of_scan? (Expression.split?_eq_some_iff.1 found).1).2, spelled, List.append_assoc] at marked
  exact ⟨marked.before border, marked.behind.behind⟩

theorem markedTree_read {written : Text} (marked : Marked known written) :
    MarkedTree known (Expression.read written) := by
  fun_induction Expression.read written with
  | case1 => trivial
  | case2 written text solid value found => exact marked.trim.of_literal? found
  | case3 written text solid unread operator left right found leftMarked rightMarked =>
    obtain ⟨front, back⟩ := marked.trim.of_split? found
    exact ⟨leftMarked front, rightMarked back⟩
  | case4 written text solid unread whole inside found ih =>
    apply ih
    have trimmed := marked.trim
    rw [show Text.trim written = '(' :: inside ++ [')'] from Expression.eq_of_enclosed? found] at trimmed
    exact Marked.before trimmed.2 (by decide)
  | case5 => trivial
  | case6 => trivial

theorem Marked.of_evaluate {written : Text} {scope : Scope} {value : Value} (marked : Marked known written)
    (held : MarkedScope known scope) (evaluated : Expression.evaluate written scope = .ok value) :
    Marked known value.render :=
  Marked.of_eval (markedTree_read marked) held evaluated

/-! ### Placeholders -/

theorem eq_of_pattern {text inner rest : Text} (found : Placeholder.pattern text = some (inner, rest)) :
    text = '\x7b' :: inner ++ '\x7d' :: rest := by
  simp only [Placeholder.pattern, bind, Option.bind_eq_some_iff, Prod.exists, Option.some.injEq, Prod.mk.injEq] at found
  obtain ⟨opened, brace, inner, closing, ran, rest, closed, rfl, rfl⟩ := found
  rw [Text.eq_of_after? brace, (Pattern.eq_of_run ran).1, Text.eq_of_after? closed]
  rfl

/-- The text of a placeholder, and the expression in it. -/
theorem Marked.of_placeholder {html source inner : Text} (marked : Marked known html)
    (member : .hit source inner ∈ Pattern.segments Placeholder.pattern html) :
    Marked known source ∧ Marked known inner := by
  obtain ⟨front, rest, suffix, reads, -, whole⟩ := Pattern.exists_of_hit member
  have spelled := eq_of_pattern reads
  have here := marked.suffix suffix
  have taken : source = '\x7b' :: inner ++ ['\x7d'] := by
    rw [whole, spelled, show '\x7b' :: inner ++ '\x7d' :: rest = '\x7b' :: inner ++ ['\x7d'] ++ rest by simp]
    apply List.take_left'
    simp only [List.length_append, List.length_cons, List.length_nil]
    omega
  rw [spelled] at here
  rw [taken]
  exact ⟨here.upTo (by decide), (here.before (by decide)).2⟩

theorem Marked.substitute {html substituted : Text} {scope : Scope} (marked : Marked known html)
    (held : MarkedScope known scope) (substitutes : Placeholder.substitute html scope = .ok substituted) :
    Marked known substituted := by
  obtain ⟨parts, mapped, same⟩ := exists_of_bind substitutes
  cases same
  have rewritten : Rewritten known ((Pattern.segments Placeholder.pattern html).flatMap Segment.source) parts.flatten := by
    apply Rewritten.of_segments
    rw [← Pattern.map_snd_located 0 (Pattern.segments Placeholder.pattern html), List.forall₂_map_left_iff]
    refine (forall₂_of_mapM mapped).imp fun (offset, piece) out ⟨located, written⟩ => ?_
    have member := Pattern.mem_of_mem_located located
    cases piece with
    | plain c =>
      cases written
      rfl
    | hit source inner =>
      have outside : Outside Placeholder.pattern := outside_of_ne (by decide) Placeholder.pattern_of_ne
      obtain ⟨sourceMarked, innerMarked⟩ := marked.of_placeholder member
      refine ⟨border_of_hit outside rfl member, ?_⟩
      dsimp only at written
      split at written
      · cases written
        exact sourceMarked
      · obtain ⟨value, evaluated, rfl⟩ := exists_of_map written
        exact innerMarked.of_evaluate held evaluated
  rw [Pattern.flatMap_source_segments] at rewritten
  exact rewritten.marked marked

/-! ### Attributes -/

/-- A text may be cut before a border and behind one. -/
theorem Marked.cut {front rest : Text} (marked : Marked known (front ++ rest))
    (border : rest.head?.all isBorder = true ∨ front.getLast?.any isBorder = true) : Marked known front := by
  rcases border with next | last
  · cases rest with
    | nil => rwa [List.append_nil] at marked
    | cons c rest => exact marked.before next
  · cases ends : front.getLast? with
    | none =>
      rw [ends] at last
      cases last
    | some c =>
      obtain ⟨before, rfl⟩ := List.getLast?_eq_some_iff.1 ends
      rw [ends] at last
      rw [List.append_assoc, List.singleton_append] at marked
      exact marked.upTo last

/-- A value is read up to a border, and is marked where it stands in a marked text. -/
theorem exists_readValue {first : Char} {rest : Text} (marked : Marked known (first :: rest)) :
    Marked known (Attribute.readValue first rest).1.2 ∧ ∃ taken, first :: rest = taken ++ (Attribute.readValue first rest).2 ∧
      ((Attribute.readValue first rest).2.head?.all isBorder = true ∨ taken.getLast?.any isBorder = true) := by
  unfold Attribute.readValue
  split
  · split
    · next inside after closed =>
      have whole := Nesting.eq_of_close? closed
      have behind := marked.2
      rw [whole] at behind
      refine ⟨behind.before (by decide), first :: inside ++ ['\x7d'], by rw [whole]; simp, .inr ?_⟩
      rw [List.getLast?_concat]
      decide
    · exact ⟨marked.2, first :: rest, by rw [List.append_nil], .inl rfl⟩
  · split
    · next quotes =>
      split
      · next inside after cut =>
        have whole := Text.eq_of_cut? cut
        have behind := marked.2
        rw [whole] at behind
        refine ⟨behind.before (isBorder_of_isQuote quotes), first :: inside ++ [first], by rw [whole]; simp, .inr ?_⟩
        rw [List.getLast?_concat]
        exact isBorder_of_isQuote quotes
      · exact ⟨marked.2, first :: rest, by rw [List.append_nil], .inl rfl⟩
    · have whole : first :: rest = first :: rest.takeWhile (!isBlank ·) ++ rest.dropWhile (!isBlank ·) := by
        rw [List.cons_append, List.takeWhile_append_dropWhile]
      have next : (rest.dropWhile (!isBlank ·)).head?.all isBorder = true := by
        cases start : rest.dropWhile (!isBlank ·) with
        | nil => rfl
        | cons c more => exact isBorder_of_isBlank (by simpa using stop_of_dropWhile start)
      rw [whole] at marked
      exact ⟨marked.cut (.inl next), _, whole, .inl next⟩

/-- Where a name ends, a border follows. -/
theorem border_of_isNamePart {c : Char} (ends : Attribute.isNamePart c = false) : isBorder c = true := by
  simp only [Attribute.isNamePart, Bool.and_eq_false_iff, Bool.not_eq_false', bne_eq_false_iff_eq] at ends
  rcases ends with ((blank | rfl) | rfl) | rfl
  · exact isBorder_of_isBlank blank
  all_goals decide

theorem Marked.of_step {head rest : Text} {attr : Attribute} (marked : Marked known head)
    (found : Attribute.step head = .found attr rest) :
    Marked known rest ∧ Marked known attr.raw ∧ ∀ text, attr.text? = some text → Marked known text := by
  have trimmed := marked.trimLeft
  unfold Attribute.step at found
  split at found
  · cases found
  · next c tail start =>
    rw [start] at trimmed
    dsimp only at found
    split at found
    · next named =>
      have nameEnds : Marked known (c :: tail.takeWhile Attribute.isNamePart) := by
        rw [← List.takeWhile_cons_of_pos named]
        exact trimmed.takeWhile fun d => border_of_isNamePart
      have afterName : Marked known (tail.dropWhile Attribute.isNamePart) := Marked.dropWhile trimmed.2
      split at found
      · next afterEquals equals =>
        have afterSign := afterName.trimLeft
        rw [equals] at afterSign
        split at found
        · cases found
        · next first value begins =>
          have valued := afterSign.2.trimLeft
          rw [begins] at valued
          obtain ⟨textMarked, taken, whole, border⟩ := exists_readValue valued
          have suffix : first :: value <:+ c :: tail := by
            rw [← begins]
            refine (List.dropWhile_suffix _).trans ((List.suffix_cons '=' afterEquals).trans ?_)
            rw [← equals]
            exact (List.dropWhile_suffix _).trans ((List.dropWhile_suffix _).trans (List.suffix_cons c tail))
          obtain ⟨front, spelled⟩ := suffix
          rw [whole, ← List.append_assoc] at spelled
          cases found
          have raw : (c :: tail).take (tail.length + 1 - (Attribute.readValue first value).2.length) = front ++ taken := by
            rw [← List.length_cons, ← spelled]
            apply List.take_left'
            simp only [List.length_append]
            omega
          rw [whole] at valued
          rw [← spelled] at trimmed
          refine ⟨valued.behind, ?_, ?_⟩
          · rw [raw]
            refine trimmed.cut (border.imp_right fun last => ?_)
            rw [List.getLast?_append]
            cases ends : taken.getLast? with
            | none =>
              rw [ends] at last
              cases last
            | some d =>
              rw [ends] at last
              exact last
          · rintro text ⟨⟩
            exact textMarked
      · cases found
        refine ⟨afterName, nameEnds, ?_⟩
        rintro text ⟨⟩
    · cases found

theorem Marked.of_skipped {head rest : Text} (marked : Marked known head) (skips : Attribute.step head = .skipped rest) :
    Marked known rest := by
  have trimmed := marked.trimLeft
  unfold Attribute.step at skips
  split at skips
  · cases skips
  · next c tail start =>
    rw [start] at trimmed
    dsimp only at skips
    split at skips
    · split at skips
      · split at skips <;> cases skips
      · cases skips
    · cases skips
      exact trimmed.2

/-- The spellings and the values of the attributes in a head. -/
theorem Marked.of_tokenize {head : Text} (marked : Marked known head) : ∀ attr ∈ Attribute.tokenize head,
    Marked known attr.raw ∧ ∀ text, attr.text? = some text → Marked known text := by
  unfold Attribute.tokenize
  fun_induction Attribute.scan head with
  | case1 => simp
  | case2 => simp
  | case3 head rest skips ih => exact ih (marked.of_skipped skips)
  | case4 head attr rest found attributes valueless others ih =>
    obtain ⟨behind, facts⟩ := marked.of_step found
    rw [others] at ih
    intro other member
    rcases List.mem_cons.1 member with rfl | later
    · exact facts
    · exact ih behind other later

/-! ### Arguments -/

theorem Marked.of_ofAttribute {caller : Scope} {props : Props} {strict : Bool} {attr : Attribute} {name : Text}
    {value : Value} (marked : ∀ text, attr.text? = some text → Marked known text) (held : MarkedScope known caller)
    (passed : Argument.ofAttribute caller props strict attr = .ok (some (name, value))) : Marked known value.render := by
  obtain ⟨value?, valued, passed⟩ := exists_of_bind passed
  cases value? with
  | none => cases passed
  | some given =>
    obtain ⟨_, -, passed⟩ := exists_of_bind passed
    cases passed
    unfold Argument.value? at valued
    split at valued
    · cases valued
    · cases valued
    · next expression written =>
      obtain ⟨result, evaluated, same⟩ := exists_of_map valued
      cases same
      exact (marked expression (by rw [Attribute.text?, written]; rfl)).of_evaluate held evaluated
    · next quote text written =>
      have filled : ∀ {given}, (Placeholder.substitute text caller).map (fun text => some (Value.string text)) = .ok (some given) →
          Marked known given.render := by
        intro given mapped
        obtain ⟨result, substituted, same⟩ := exists_of_map mapped
        cases same
        exact (marked text (by rw [Attribute.text?, written]; rfl)).substitute held substituted
      dsimp only at valued
      split at valued
      · exact filled valued
      · exact filled valued
      · cases valued

theorem markedScope_fill {strict : Bool} {given filled : Bindings Value} {prop : Text × ValueType}
    (marked : MarkedScope known given) (fills : Argument.fill strict given prop = .ok filled) : MarkedScope known filled := by
  unfold Argument.fill at fills
  dsimp only at fills
  split at fills
  · cases fills
    exact marked
  · split at fills
    · cases fills
    · cases fills
      have zero : Marked known (Value.zero prop.2).render := by
        apply marked_render
        intro text empty
        cases type : prop.2 <;> rw [type] at empty <;> cases empty
        trivial
      exact @Bindings.forall_set _ (fun value : Value => Marked known value.render) _ _ _ zero marked

/-- The arguments of a tag are marked where its head and the scope around it are. -/
theorem markedScope_resolve {head : Text} {caller : Scope} {props : Props} {strict : Bool} {arguments : Bindings Value}
    (marked : Marked known head) (held : MarkedScope known caller)
    (resolved : Argument.resolve head caller props strict = .ok arguments) : MarkedScope known arguments := by
  obtain ⟨given, mapped, filled⟩ := exists_of_bind resolved
  have start : MarkedScope known (Bindings.ofList (given.filterMap id)) := by
    refine @Bindings.forall_ofList _ (fun value : Value => Marked known value.render) _ ?_
    rintro ⟨name, value⟩ member
    obtain ⟨pair, inGiven, same⟩ := List.mem_filterMap.1 member
    cases same
    have options := congrArg Except.toOption mapped
    rw [toOption_mapM] at options
    obtain ⟨attr, listed, passed⟩ := exists_of_mem_mapM options inGiven
    exact Marked.of_ofAttribute (marked.of_tokenize attr listed).2 held (eq_ok_of_toOption passed)
  clear mapped resolved
  generalize Bindings.ofList (given.filterMap id) = bindings at start filled
  induction props generalizing bindings with
  | nil =>
    cases filled
    exact start
  | cons prop props ih =>
    rw [List.foldlM_cons] at filled
    obtain ⟨next, fills, filled⟩ := exists_of_bind filled
    exact ih next (markedScope_fill start fills) filled

/-! ### Slots -/

theorem outside_marker : Outside Slot.marker :=
  outside_of_ne (by decide) fun c text (other : c ≠ '\x7b') => by simp [Slot.marker, Text.after?, other.symm]

theorem outside_placeholder : Outside Slot.placeholder := outside_of_ne (by decide) Slot.placeholder_of_ne

/-- The head and the body of a fill. -/
theorem Marked.of_usage {text rest : Text} {usage : Slot.Usage} (marked : Marked known text)
    (found : Slot.usage text = some (usage, rest)) : Marked known usage.head ∧ Marked known usage.body := by
  simp only [Slot.usage, bind, Option.bind_eq_some_iff] at found
  obtain ⟨named, opened, found⟩ := found
  split at found
  · cases found
  · obtain ⟨⟨inside, afterHead⟩, cut, found⟩ := Option.bind_eq_some_iff.1 found
    dsimp only at found
    obtain ⟨head, afterHead⟩ := (marked.of_after? opened).trimLeft.of_cut? (by decide) cut
    split at found
    · cases found
    · obtain ⟨⟨body, _, after⟩, sought, same⟩ := Option.bind_eq_some_iff.1 found
      cases same
      obtain ⟨front, whole, closing⟩ := Pattern.exists_of_seek? sought
      simp only [Block.closing?, bind, Option.bind_eq_some_iff] at closing
      obtain ⟨closed, opens, -⟩ := closing
      rw [whole, Text.eq_of_after? opens] at afterHead
      exact ⟨head.trimRight, Marked.before afterHead (by decide)⟩

theorem Marked.of_table {head name value : Text} (marked : Marked known head)
    (bound : (Attribute.table head).get? name = some value) : Marked known value := by
  refine @Bindings.forall_ofList _ (Marked known) _ ?_ (name, value) (Bindings.mem_of_get? bound)
  rintro ⟨other, text⟩ member
  obtain ⟨attr, listed, same⟩ := List.mem_filterMap.1 member
  obtain ⟨found, here, same⟩ := Option.map_eq_some_iff.1 same
  cases same
  exact (marked.of_tokenize attr listed).2 text here

theorem marked_markup {usage : Slot.Usage} (head : Marked known usage.head) (body : Marked known usage.body) :
    Marked known usage.markup := by
  have tagMarked : Marked known usage.tag := by
    unfold Slot.Usage.tag
    cases bound : (Attribute.table usage.head).get? "tag" with
    | none => trivial
    | some tag => exact head.of_table bound
  have extras : Marked known (usage.extras.flatMap (' ' :: ·)) := by
    rw [List.flatMap_def]
    refine marked_flatten fun piece member => ?_
    obtain ⟨extra, inExtras, rfl⟩ := List.mem_map.1 member
    obtain ⟨attr, listed, rfl⟩ := List.mem_map.1 inExtras
    exact (head.of_tokenize attr (List.mem_of_mem_filter listed)).1.cons (by decide)
  unfold Slot.Usage.markup
  split
  · exact body
  · have sign (text : Text) (free : markerOpen ∉ text) : Marked known text := marked_of_not_mem free
    exact ((((((sign "<" (by decide)).append tagMarked).append extras).append (sign ">" (by decide))).append body).append
      (sign "</" (by decide))).append tagMarked |>.append (sign ">" (by decide))

theorem marked_fills {children : Text} (marked : Marked known children) :
    ∀ fill ∈ Slot.fills children, Marked known fill.2 := by
  refine Bindings.forall_ofList ?_
  intro pair member
  obtain ⟨usage, listed, rfl⟩ := List.mem_map.1 member
  obtain ⟨segment, inSegments, hit⟩ := List.mem_filterMap.1 (List.mem_of_mem_filter listed)
  cases segment with
  | plain c => cases hit
  | hit source value =>
    cases hit
    obtain ⟨front, rest, suffix, reads, -⟩ := Pattern.exists_of_hit inSegments
    obtain ⟨head, body⟩ := (marked.suffix suffix).of_usage reads
    exact marked_markup head body

theorem isSlugPart_markerOpen : isSlugPart markerOpen = false := by decide +kernel

theorem marked_inject {template : Text} {slots : Bindings Text} (marked : Marked known template)
    (filled : ∀ fill ∈ slots, Marked known fill.2) : Marked known (Slot.inject template slots) := by
  refine Marked.replace outside_placeholder rfl ?_ ?_
  · refine marked.replace outside_marker rfl ?_
    intro front name rest _ reads
    have free : markerOpen ∉ name := by
      simp only [Slot.marker, bind, Option.bind_eq_some_iff, Prod.exists, Option.some.injEq, Prod.mk.injEq] at reads
      obtain ⟨opened, -, label, -, slug, after, ran, closed, -, rfl, -⟩ := reads
      intro member
      have part := (Pattern.eq_of_run ran).2 _ member
      rw [isSlugPart_markerOpen] at part
      cases part
    apply marked_of_not_mem
    simp only [List.mem_append, not_or]
    exact ⟨⟨by decide, free⟩, by decide⟩
  · intro front name rest _ _
    cases bound : slots.get? name with
    | none => trivial
    | some fill => exact filled (name, fill) (Bindings.mem_of_get? bound)

/-! ### Tags -/

theorem angle_of_named? {name : Text} {c : Char} {rest after : Text} {closing : Bool}
    (found : Tag.named? name (c :: rest) = some (closing, after)) : c = '<' := by
  unfold Tag.named? at found
  by_contra other
  have unread (word : Text) : Text.after? ('<' :: word) (c :: rest) = none := if_neg (Ne.symm other)
  rw [List.cons_append, unread, unread] at found
  cases found

/-- A closing tag starts with an angle bracket. -/
theorem angle_of_closeFrom? {blocks : List Span} {name text : Text} {depth offset : Nat} {span : Span}
    (found : Tag.closeFrom? blocks name depth offset text = some span) : text[span.start - offset]? = some '<' := by
  induction text generalizing depth offset with
  | nil => simp [Tag.closeFrom?] at found
  | cons c rest ih =>
    have later {depth : Nat} (found : Tag.closeFrom? blocks name depth (offset + 1) rest = some span) :
        (c :: rest)[span.start - offset]? = some '<' := by
      have bounds := Tag.bounds_of_closeFrom? found
      rw [show span.start - offset = span.start - (offset + 1) + 1 by omega, List.getElem?_cons_succ]
      exact ih found
    unfold Tag.closeFrom? at found
    split at found
    · exact later found
    · next after read =>
      have named : Tag.named? name (c :: rest) = some (true, after) := by
        split at read
        · cases read
        · exact read
      split at found
      · cases found
      · split at found
        · cases found
          rw [Nat.sub_self, List.getElem?_cons_zero, angle_of_named? named]
        · exact later found
    · split at found
      · cases found
      · split at found
        · exact later found
        · exact later found

theorem exists_mark_of_next? {html : Text} {start : Nat} {tag : ComponentTag}
    (found : ComponentTag.next? html start = .ok (some tag)) :
    ∃ mark ∈ ComponentTag.marks html start, mark.closing = false ∧ ComponentTag.ofMark html mark = .ok tag := by
  unfold ComponentTag.next? at found
  split at found
  · cases found
  · next mark others first =>
    have kept : mark ∈ (ComponentTag.marks html start).dropWhile ComponentTag.Mark.closing := by
      rw [first]
      exact List.mem_cons_self
    obtain ⟨result, made, same⟩ := exists_of_map found
    cases same
    exact ⟨mark, (List.dropWhile_suffix _).subset kept, stop_of_dropWhile first, made⟩

/-- A component tag in a marked text: the text before it, its head and its children. -/
theorem Marked.of_next? {html : Text} {start : Nat} {tag : ComponentTag} (marked : Marked known html)
    (found : ComponentTag.next? html start = .ok (some tag)) :
    Marked known (Text.slice html start tag.start) ∧ Marked known tag.attributes ∧ Marked known tag.inner := by
  have front := (ComponentTag.front_of_next? found).1
  rw [opensAt, Bool.and_eq_true, beq_iff_eq] at front
  have before : Marked known (html.take tag.start) := marked.take (by rw [front.1]; decide)
  refine ⟨before.drop start, ?_⟩
  obtain ⟨mark, member, opening, made⟩ := exists_mark_of_next? found
  have behind := (marked.drop start).drop (mark.offset - start)
  rw [(ComponentTag.eq_of_mem_marksFrom member opening).1] at behind
  unfold ComponentTag.ofMark at made
  dsimp only at made
  split at made
  · cases made
  · next head body read =>
    have after := behind.behind
    rw [TagHead.eq_of_split? read] at after
    have headMarked : Marked known head := after.before (by decide)
    split at made
    · next closes =>
      cases made
      obtain ⟨bare, spelled⟩ := List.getLast?_eq_some_iff.1 (of_decide_eq_true closes)
      have trimmed := headMarked.trimRight
      rw [spelled] at trimmed ⊢
      rw [List.dropLast_concat]
      exact ⟨(trimmed.before (by decide)).trim, trivial⟩
    · split at made
      · cases made
      · next close closed =>
        cases made
        refine ⟨headMarked.trim, Marked.take after.behind.2 ?_⟩
        rw [angle_of_closeFrom? closed]
        decide

/-! ### Masks and resolving -/

theorem Marked.mask {html masked : Text} (marked : Marked known html) (masks : Fetch.mask html = .ok masked) :
    Marked known masked := by
  obtain ⟨spans, -, rfl⟩ := exists_of_map masks
  have rewritten (offset : Nat) (text : Text) : Rewritten known text (Fetch.maskFrom spans html offset text) := by
    induction text generalizing offset with
    | nil => exact .nil
    | cons c text ih =>
      rw [Fetch.maskFrom]
      split
      · next hidden =>
        simp only [Bool.and_eq_true, Bool.or_eq_true, beq_iff_eq] at hidden
        have brace : isBorder c = true ∧ isBorder (Fetch.maskChar c) = true := by
          rcases hidden.1.1 with rfl | rfl <;> decide
        exact @Rewritten.put known c [] [Fetch.maskChar c] _ _ brace.1 (marked_singleton brace.2) (ih (offset + 1))
      · exact .keep c (ih (offset + 1))
  exact (rewritten 0 html).marked marked

theorem marker_append {name : Text} (identifier : Text.isIdentifier name = true) (after : Text) :
    marker (markerOpen :: (name ++ markerClose :: after)) = some (name, after) := by
  obtain ⟨solid, parts⟩ := isIdentifierPart_of_isIdentifier identifier
  have ran : Pattern.run isIdentifierPart (name ++ markerClose :: after) = some (name, markerClose :: after) :=
    Pattern.run_append solid parts rfl
  calc
    marker (markerOpen :: (name ++ markerClose :: after)) =
        (Pattern.run isIdentifierPart (name ++ markerClose :: after)).bind fun result =>
          (Text.after? [markerClose] result.2).bind fun rest => some (result.1, rest) := rfl
    _ = some (name, after) := by rw [ran]; rfl

theorem marker_of_named {text : Text} (named : Named known text) :
    ∃ name after, Text.isIdentifier name = true ∧ known name ∧ text = name ++ markerClose :: after ∧
      marker (markerOpen :: text) = some (name, after) := by
  obtain ⟨name, after, identifier, knows, rfl⟩ := named
  exact ⟨name, after, identifier, knows, rfl, marker_append identifier after⟩

/-- Where a marked text is read for markers, every marker is found and shows a known name. -/
theorem segments_of_marked {text : Text} (marked : Marked known text) :
    ∀ segment ∈ Pattern.segments marker text, match segment with
      | .plain c => c ≠ markerOpen
      | .hit _ name => Text.isIdentifier name = true ∧ known name := by
  have begins {c : Char} {tail name rest : Text} (reads : marker (c :: tail) = some (name, rest)) : c = markerOpen := by
    by_contra other
    rw [marker_of_ne c tail other] at reads
    cases reads
  have advances {c : Char} {tail name rest : Text} (marked : Marked known (c :: tail))
      (reads : marker (c :: tail) = some (name, rest)) : 0 < tail.length + 1 - rest.length := by
    obtain ⟨_, after, -, -, whole, found⟩ := marker_of_named (marked.1 (begins reads))
    rw [← begins reads, reads] at found
    have ends : rest = after := (Prod.mk.inj (Option.some.inj found)).2
    have sizes := congrArg List.length whole
    simp only [List.length_append, List.length_cons, ← ends] at sizes
    omega
  fun_induction Pattern.segments marker text with
  | case1 => simp
  | case2 c tail value rest reads taken positive ih =>
    intro segment member
    rcases List.mem_cons.1 member with rfl | later
    · obtain rfl := begins reads
      obtain ⟨name, after, identifier, knows, -, found⟩ := marker_of_named (marked.1 rfl)
      rw [reads] at found
      cases found
      exact ⟨identifier, knows⟩
    · exact ih (marked.drop _) segment later
  | case3 c tail value rest reads taken nothing ih =>
    exact absurd (advances marked reads) nothing
  | case4 c tail reads ih =>
    intro segment member
    rcases List.mem_cons.1 member with rfl | later
    · rintro rfl
      obtain ⟨name, after, -, -, -, found⟩ := marker_of_named (marked.1 rfl)
      rw [reads] at found
      cases found
    · exact ih marked.2 segment later

/-- Resolving a marked text shows known names only, and leaves no marker. -/
theorem resolve_of_marked {text : Text} (marked : Marked known text) :
    (∀ name ∈ Pattern.values marker text, known name) ∧ markerOpen ∉ resolve text := by
  have facts := segments_of_marked marked
  constructor
  · intro name member
    obtain ⟨segment, inSegments, hit⟩ := List.mem_filterMap.1 member
    have fact := facts segment inSegments
    cases segment with
    | plain c => cases hit
    | hit source value =>
      cases hit
      exact fact.2
  · intro member
    obtain ⟨segment, inSegments, written⟩ := List.mem_flatMap.1 member
    have fact := facts segment inSegments
    cases segment with
    | plain c => exact fact (List.mem_singleton.1 written).symm
    | hit source name =>
      rcases List.mem_append.1 written with front | back
      · rcases List.mem_append.1 front with opening | inName
        · exact absurd opening (by decide)
        · exact absurd ((isIdentifierPart_of_isIdentifier fact.1).2 _ inName) (by decide)
      · exact absurd back (by decide)

end Signal

end ComponentPages
