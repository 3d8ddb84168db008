import ComponentPages.Proofs.Markup.Condition
import ComponentPages.Proofs.Markup.Handler
import ComponentPages.Proofs.Markup.Inert

/-!
A page that shows the value of one expression. Three readers look at its placeholder before it is evaluated, and
each takes it for a conditional on grounds of its own: the search for conditionals, the reader of a condition and
the substitution of values. So the value is shown unless a question mark and an opening parenthesis, both of which
may stand in quotations, come together in the expression.
-/
namespace ComponentPages

open Compile (Gives LeadsTo)

def paragraph (inner : Text) : Text := "<p>" ++ inner ++ "</p>"

theorem paragraph_eq (inner : Text) : paragraph inner = "<p>" ++ inner ++ "</p>" := rfl

theorem paragraph_eq_pieces (inner : Text) :
    paragraph inner = printPieces [.opening "p" [] false] ++ (inner ++ printPieces [.closing "p"]) := by
  rw [paragraph_eq, List.append_assoc]
  rfl

section Tagless

variable {inner : Text} (tagless : ∀ c ∈ inner, c ≠ '<')
include tagless

/-- A pattern that begins with an angle bracket begins nowhere in a paragraph but at its tags. -/
theorem absent_paragraph {α : Type} {read : Pattern α} (angled : ∀ c text, c ≠ '<' → read (c :: text) = none)
    (opening : ∀ text, read ('<' :: 'p' :: text) = none) (closing : ∀ text, read ('<' :: '/' :: text) = none) :
    Pattern.Absent read (paragraph inner) := by
  have free {piece : Text} (none : ∀ c ∈ piece, c ≠ '<') (rest : Text) : Pattern.Passes read piece rest :=
    Pattern.passes_of_begins rest fun c member text => angled c text (none c member)
  have whole : paragraph inner = '<' :: ("p>" ++ inner ++ '<' :: "/p>") := by simp [paragraph_eq]
  rw [whole, Pattern.Absent, Pattern.passes_cons_iff, Pattern.passes_append_iff, Pattern.passes_append_iff,
    Pattern.passes_cons_iff]
  exact ⟨opening _, ⟨free (by decide) _, free tagless _⟩, closing _, free (by decide) _⟩

theorem spans_paragraph : Block.spans (paragraph inner) = [] := by
  have unopened {text : Text} (named : ∀ word : Text, word = "script" ∨ word = "style" → Block.opening? word text = none) :
      Block.guarded text = none := by
    rw [Block.guarded, named "script" (.inl rfl), named "style" (.inr rfl)]
    rfl
  apply Block.spans_of_absent
  apply absent_paragraph tagless
  · intro c text other
    exact unopened fun word _ => Block.opening?_of_ne word c text other
  · intro text
    refine unopened fun word block => ?_
    rcases block with rfl | rfl <;> rfl
  · intro text
    refine unopened fun word block => ?_
    rcases block with rfl | rfl <;> rfl

theorem absent_block_paragraph : Pattern.Absent Signal.block (paragraph inner) := by
  apply absent_paragraph tagless Signal.block_of_ne
  · exact fun text => rfl
  · exact fun text => rfl

theorem unfetched_paragraph : Fetch.next? (paragraph inner) 0 = none := by
  have front := @Fetch.siteOf?_elementMarksFrom_append [.opening "p" [] false] (by decide) 0
    (inner ++ printPieces [.closing "p"])
  rw [Fetch.next?, Fetch.elementMarks, spans_paragraph tagless, List.drop_zero, paragraph_eq_pieces]
  refine front.trans ?_
  rw [Fetch.elementMarksFrom_free tagless]
  exact Fetch.siteOf?_elementMarksFrom (by decide) _

theorem untagged_paragraph : ComponentTag.next? (paragraph inner) 0 = .ok none := by
  have front := @ComponentTag.marksFrom_plain [.opening "p" [] false] (by decide) (by decide) 0
    (inner ++ printPieces [.closing "p"])
  have back := @ComponentTag.marksFrom_plain [.closing "p"] (by decide) (by decide)
    (0 + (printPieces [.opening "p" [] false]).length + inner.length) []
  rw [ComponentTag.next?, ComponentTag.marks, spans_paragraph tagless, List.drop_zero, paragraph_eq_pieces, front,
    ComponentTag.marksFrom_free tagless, ← List.append_nil (printPieces [.closing "p"]), back]
  rfl

end Tagless

section Braceless

variable {expression : Text} (braceless : ∀ c ∈ expression, Placeholder.isBrace c = false)
include braceless

/-- No handler starts in front of the only opening brace, nor behind it. -/
theorem absent_handlerStart_paragraph : Pattern.Absent Signal.handlerStart (paragraph (braced expression)) := by
  have whole : paragraph (braced expression) = "<p>\x7b" ++ (expression ++ "\x7d</p>") := by simp [paragraph_eq, braced]
  rw [whole, Pattern.absent_append_iff]
  constructor
  · refine Pattern.passes_of_begins _ fun c member text => Signal.handlerStart_of_ne ?_ text
    rintro rfl
    exact absurd member (by decide)
  · intro before c after split
    cases found : Signal.handlerStart (c :: after ++ []) with
    | none => rfl
    | some result =>
      -- A handler is written with an opening brace.
      obtain ⟨written, spelled, -⟩ := Signal.eq_of_handlerStart found
      have member : '\x7b' ∈ expression ++ "\x7d</p>" := by
        rw [split, ← List.append_nil (c :: after), spelled]
        simp
      rcases List.mem_append.1 member with inside | behind
      · exact absurd (braceless _ inside) (by decide)
      · exact absurd behind (by decide)

theorem seek?_paragraph (tagless : ∀ c ∈ braced expression, c ≠ '<') :
    Conditional.seek? (paragraph (braced expression)) =
      if Conditional.asks false expression then some (("<p>" : Text), braced expression ++ "</p>") else none := by
  have free {piece : Text} (none : ∀ c ∈ piece, c ≠ '\x7b') (rest : Text) : Pattern.Passes Conditional.start piece rest :=
    Pattern.passes_of_begins rest fun c member text => Conditional.start_of_ne (none c member) text
  have opened := Conditional.opens_braced braceless "</p>"
  have here : braced expression ++ "</p>" = '\x7b' :: (expression ++ '\x7d' :: "</p>") := by simp [braced]
  rw [Conditional.seek?, spans_paragraph tagless, paragraph_eq, List.append_assoc,
    Conditional.seekFrom?_append (free (by decide) _)]
  split
  · next asked =>
    rw [asked] at opened
    rw [here, Conditional.seekFrom?, covered_nil, opened]
    rfl
  · next unasked =>
    rw [Bool.eq_false_of_not_eq_true unasked] at opened
    have absent : Pattern.Absent Conditional.start (braced expression ++ "</p>") := by
      rw [here, Pattern.Absent, Pattern.passes_cons_iff, Pattern.passes_append_iff, List.append_nil]
      refine ⟨Conditional.start_of_not_opens opened, free ?_ _, free (by decide) _⟩
      rintro c member rfl
      exact absurd (braceless _ member) (by decide)
    rw [Conditional.seekFrom?_of_absent absent]
    rfl

end Braceless

/-- The reader of a condition comes to the end of an expression without finding a question mark. -/
theorem Conditional.read_braced {expression : Text} {scope : Scope} {value : Value}
    (evaluates : Expression.evaluate expression scope = .ok value)
    (braceless : ∀ c ∈ expression, Placeholder.isBrace c = false) (offset : Nat) (rest : Text) :
    read offset (braced expression ++ rest) = .error (.conditionalQuestion (braced expression)) := by
  obtain ⟨term, rendered⟩ := Expression.exists_rendered_of_evaluate evaluates
  have stops := splitCondition?_stop (rendered.conditionEnd? 0) braceless (.inr rfl) rest
  have whole : braced expression ++ rest = '\x7b' :: (expression ++ '\x7d' :: rest) := by simp [braced]
  rw [whole, read, stops]
  rfl

theorem substitute_paragraph {expression : Text} (nonempty : expression ≠ [])
    (braceless : ∀ c ∈ expression, Placeholder.isBrace c = false) (tagless : ∀ c ∈ braced expression, c ≠ '<')
    (scope : Scope) : Placeholder.substitute (paragraph (braced expression)) scope =
      (Placeholder.replacement scope false (braced expression) expression).map paragraph := by
  rw [Placeholder.substitute_eq_fill (spans_paragraph tagless), paragraph_eq, List.append_assoc,
    Placeholder.fill_passes (by decide), braced, Placeholder.fill_braces nonempty braceless]
  have last : ∀ before, Placeholder.fill scope before (Pattern.segments Placeholder.pattern "</p>") = .ok "</p>" := by
    intro before
    have closing := @Placeholder.fill_passes "</p>" [] (by decide) scope before
    rw [List.append_nil] at closing
    rw [closing, Pattern.segments]
    rfl
  have outside : opensTag isUpper (some '\x7b') ([] ++ ("<p>" : Text)).reverse = false := by decide
  rw [outside]
  cases Placeholder.replacement scope false ('\x7b' :: expression ++ ['\x7d']) expression with
  | error failure => rfl
  | ok shown =>
    rw [Except.bind, last]
    rfl

theorem lower_paragraph {expression : Text} (braceless : ∀ c ∈ expression, Placeholder.isBrace c = false)
    (tagless : ∀ c ∈ braced expression, c ≠ '<') (scope : Scope) :
    Signal.lower (paragraph (braced expression)) scope = pure (paragraph (braced expression)) := by
  have unscripted := absent_block_paragraph tagless
  have unhandled := absent_handlerStart_paragraph braceless
  refine Signal.lower_of_quiet (Pattern.values_of_absent unscripted) (Pattern.erase_of_absent unscripted) ?_ scope
  rw [Signal.parts, spans_paragraph tagless]
  refine @Signal.partsFrom_of_quiet _ [] _ rfl (fun part c after whole handles => ?_) none
  have here := unhandled part c after whole
  rw [List.append_nil] at here
  exact handles.1 here

theorem isReserved_of_mem_paragraph {inner : Text} (clean : ∀ c ∈ inner, isReserved c = false) :
    ∀ c ∈ paragraph inner, isReserved c = false := by
  intro c member
  rw [paragraph_eq, List.mem_append, List.mem_append] at member
  rcases member with (opening | inside) | closing
  · exact (by decide : ∀ c ∈ ("<p>" : Text), isReserved c = false) c opening
  · exact clean c inside
  · exact (by decide : ∀ c ∈ ("</p>" : Text), isReserved c = false) c closing

section Compiling

variable {limit : Int} {workshop : Workshop} {stack : ExpansionStack limit} {scope : Scope} {expression : Text}
  (braceless : ∀ c ∈ expression, Placeholder.isBrace c = false) (tagless : ∀ c ∈ braced expression, c ≠ '<')
include braceless tagless

/-- What looks like a conditional to the search fails at the reader of the condition. -/
theorem leadsTo_question {value : Value} (evaluates : Expression.evaluate expression scope = .ok value)
    (asked : Conditional.asks false expression = true) :
    (compilePage workshop stack scope true (paragraph (braced expression))).LeadsTo
      (Compile.lift (.error (.conditionalQuestion (braced expression)))) := by
  have sought := seek?_paragraph braceless tagless
  rw [if_pos asked] at sought
  rw [compilePage, if_pos rfl, lower_paragraph braceless tagless, pure_bind]
  refine LeadsTo.bind_pure (Expansion.leadsTo_mask (unfetched_paragraph tagless)) ?_
  rw [Expansion.expand, Conditional.settle_of_some sought, Conditional.read_braced evaluates braceless]
  exact LeadsTo.refl _

/-- Otherwise the page shows what the substitution of values makes of the placeholder. -/
theorem gives_paragraph (nonempty : expression ≠ []) (unasked : ¬Conditional.asks false expression = true) {shown : Text}
    (replaced : Placeholder.replacement scope false (braced expression) expression = .ok shown)
    (clean : ∀ c ∈ shown, c ≠ '<' ∧ isReserved c = false) :
    (compilePage workshop stack scope true (paragraph (braced expression))).Gives (some (paragraph shown)) := by
  have sought := seek?_paragraph braceless tagless
  rw [if_neg unasked] at sought
  have substituted := substitute_paragraph nonempty braceless tagless scope
  rw [replaced] at substituted
  have untagged : (ComponentTag.next? (paragraph (braced expression)) 0).toOption = some none := by
    rw [untagged_paragraph tagless]
    rfl
  refine gives_compilePage (lower_paragraph braceless tagless scope) (unfetched_paragraph tagless)
    (Conditional.settle_of_none sought scope) (gives_expandFrom_of_untagged untagged (by rw [substituted]; rfl)) ?_
  intro result same
  rw [← Option.some.inj same]
  exact ⟨unfetched_paragraph fun c member => (clean c member).1,
    isReserved_of_mem_paragraph fun c member => (clean c member).2⟩

end Compiling

/-- The placeholder of an expression that has a value shows that value, unless a question mark and an opening
parenthesis both stand in the expression. If the parenthesis stands behind the question mark, compilation fails;
otherwise the placeholder stays as it is written. -/
theorem compileFresh_paragraph (workshop : Workshop) (limit : Int) {scope : Scope} {expression : Text} {value : Value}
    (plain : ∀ c ∈ expression, isAngle c = false ∧ Placeholder.isBrace c = false)
    (evaluates : Expression.evaluate expression scope = .ok value)
    (clean : ∀ c ∈ value.render, c ≠ '<' ∧ isReserved c = false)
    (unmarked : Placeholder.looksConditional expression = true → ∀ c ∈ expression, isReserved c = false) :
    (compileFresh workshop limit scope (paragraph (braced expression))).1 =
      if Conditional.asks false expression then .error (.conditionalQuestion (braced expression))
      else if Placeholder.looksConditional expression then .ok (paragraph (braced expression))
      else .ok (paragraph value.render) := by
  have braceless : ∀ c ∈ expression, Placeholder.isBrace c = false := fun c member => (plain c member).2
  have tagless : ∀ c ∈ braced expression, c ≠ '<' := by
    refine forall_braced (by decide) (by decide) fun c member => ?_
    rintro rfl
    exact absurd (plain _ member).1 (by decide)
  split
  · next asked =>
    obtain ⟨notes, same⟩ := leadsTo_question braceless tagless evaluates asked {}
    rw [compileFresh, same, Compile.run_lift]
  · next unasked =>
    have nonempty : expression ≠ [] := by
      obtain ⟨term, rendered⟩ := Expression.exists_rendered_of_evaluate evaluates
      obtain ⟨c, rest, rfl, -⟩ := rendered.first
      exact List.cons_ne_nil c rest
    split
    · next looks =>
      have kept : Placeholder.replacement scope false (braced expression) expression = .ok (braced expression) := by
        rw [Placeholder.replacement, Bool.false_or, if_pos looks]
      have unreserved : ∀ c ∈ braced expression, isReserved c = false :=
        forall_braced (by decide) (by decide) (unmarked looks)
      exact eq_ok_of_toOption (gives_paragraph braceless tagless nonempty unasked kept
        (fun c member => ⟨tagless c member, unreserved c member⟩) {})
    · next other =>
      have valued : Placeholder.replacement scope false (braced expression) expression = .ok value.render := by
        rw [Placeholder.replacement, Bool.false_or, if_neg other, evaluates]
        rfl
      exact eq_ok_of_toOption (gives_paragraph braceless tagless nonempty unasked valued clean {})

/-- Both a question mark in front of a parenthesis and one behind it keep the value from the page. -/
theorem compileFresh_paragraph_question :
    Expression.evaluate "('?') + ('a')" [] = .ok (.string "?a") ∧
    (compileFresh {} 100 [] (paragraph (braced "('?') + ('a')"))).1 =
      .error (.conditionalQuestion (braced "('?') + ('a')")) ∧
    Expression.evaluate "('a') + '?'" [] = .ok (.string "a?") ∧
    (compileFresh {} 100 [] (paragraph (braced "('a') + '?'"))).1 = .ok (paragraph (braced "('a') + '?'")) := by
  have first : Expression.evaluate "('?') + ('a')" [] = .ok (.string "?a") := eq_ok_of_toOption (by decide +kernel)
  have second : Expression.evaluate "('a') + '?'" [] = .ok (.string "a?") := eq_ok_of_toOption (by decide +kernel)
  refine ⟨first, ?_, second, ?_⟩
  · rw [compileFresh_paragraph {} 100 (by decide +kernel) first (by decide +kernel) (by decide +kernel)]
    exact if_pos (by decide +kernel)
  · rw [compileFresh_paragraph {} 100 (by decide +kernel) second (by decide +kernel) (by decide +kernel),
      if_neg (by decide +kernel), if_pos (by decide +kernel)]

end ComponentPages
