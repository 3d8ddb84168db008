import ComponentPages.Proofs.Compilation
import ComponentPages.Proofs.Markup.Document
import ComponentPages.Proofs.Outcome

/-!
Conditionals are lazy choices. Settling a written document leaves what the document is with every conditional replaced
by the branch that its condition chooses. To say which conditions are evaluated, settling is run with a record of them,
which changes nothing about what it comes back with.
-/
namespace ComponentPages

/-- What a computation comes back with, and the conditions that it evaluates, in order. -/
@[ext]
structure Recorded (α : Type) where
  asked : List Text
  outcome : Except Failure α

namespace Recorded

variable {α β : Type}

instance : Monad Recorded where
  pure value := ⟨[], .ok value⟩
  bind first next :=
    match first.outcome with
    | .ok value => ⟨first.asked ++ (next value).asked, (next value).outcome⟩
    | .error failure => ⟨first.asked, .error failure⟩

def lift (result : Except Failure α) : Recorded α := ⟨[], result⟩

def evaluate (condition : Text) (scope : Scope) : Recorded Value := ⟨[condition], Expression.evaluate condition scope⟩

/-- Whether a condition holds, which fails if its value is not boolean. -/
def holds (condition : Text) (scope : Scope) : Recorded Bool := do
  match ← evaluate condition scope with
  | .boolean value => pure value
  | value => lift (.error (.conditionType condition value.type))

theorem bind_of_ok {first : Recorded α} {value : α} (reached : first.outcome = .ok value) (next : α → Recorded β) :
    first >>= next = ⟨first.asked ++ (next value).asked, (next value).outcome⟩ := by
  simp only [bind, reached]

theorem bind_of_error {first : Recorded α} {failure : Failure} (failed : first.outcome = .error failure)
    (next : α → Recorded β) : first >>= next = ⟨first.asked, .error failure⟩ := by
  simp only [bind, failed]

instance : LawfulMonad Recorded :=
  LawfulMonad.mk' Recorded
    (fun first => by
      cases reached : first.outcome with
      | error failure => exact (bind_of_error reached _).trans (by rw [← reached])
      | ok value =>
        refine (bind_of_ok reached _).trans ?_
        ext1
        · exact List.append_nil _
        · exact reached.symm)
    (fun _ _ => rfl)
    (fun first next later => by
      cases reached : first.outcome with
      | error failure => rw [bind_of_error reached, bind_of_error reached, bind_of_error rfl]
      | ok value =>
        rw [bind_of_ok reached, bind_of_ok reached]
        cases again : (next value).outcome with
        | error failure => rw [bind_of_error again, bind_of_error rfl]
        | ok other =>
          rw [bind_of_ok again, bind_of_ok rfl, List.append_assoc])

theorem outcome_bind (first : Recorded α) (next : α → Recorded β) :
    (first >>= next).outcome = first.outcome >>= fun value => (next value).outcome := by
  cases reached : first.outcome with
  | error failure => rw [bind_of_error reached]; rfl
  | ok value => rw [bind_of_ok reached]; rfl

theorem lift_bind_ok (value : α) (next : α → Recorded β) : lift (.ok value) >>= next = next value := rfl

theorem outcome_lift_bind (result : Except Failure α) (next : α → Recorded β) :
    (lift result >>= next).outcome = result >>= fun value => (next value).outcome :=
  outcome_bind (lift result) next

theorem exists_of_bind {first : Recorded α} {next : α → Recorded β} {result : β}
    (reached : (first >>= next).outcome = .ok result) :
    ∃ value, first.outcome = .ok value ∧ (next value).outcome = .ok result := by
  rw [outcome_bind] at reached
  cases here : first.outcome with
  | error failure =>
    rw [here] at reached
    cases reached
  | ok value =>
    rw [here] at reached
    exact ⟨value, rfl, reached⟩

theorem exists_of_map {first : Recorded α} {f : α → β} {result : β} (reached : (f <$> first).outcome = .ok result) :
    ∃ value, first.outcome = .ok value ∧ f value = result := by
  rw [map_eq_pure_bind] at reached
  obtain ⟨value, here, same⟩ := exists_of_bind reached
  exact ⟨value, here, Except.ok.inj same⟩

/-- What follows a computation matters only for what it comes back with. -/
theorem bind_congr_of_outcome {first : Recorded α} {next other : α → Recorded β}
    (same : ∀ value, first.outcome = .ok value → next value = other value) : first >>= next = first >>= other := by
  cases reached : first.outcome with
  | error failure => rw [bind_of_error reached, bind_of_error reached]
  | ok value => rw [bind_of_ok reached, bind_of_ok reached, same value reached]

end Recorded

namespace Conditional

open Recorded (lift holds)

/-- The branch of a conditional for a value of its condition. -/
def branchFor (conditional : Conditional) (value : Bool) : Text :=
  if value then conditional.truthy else conditional.falsy

theorem length_branchFor_le (conditional : Conditional) (value : Bool) :
    (conditional.branchFor value).length ≤ conditional.truthy.length + conditional.falsy.length := by
  unfold branchFor
  split <;> omega

/-- The branch that a conditional chooses is that for the value of its condition. -/
theorem outcome_holds (conditional : Conditional) (scope : Scope) :
    (holds conditional.condition scope).outcome.map conditional.branchFor = conditional.choose scope := by
  rw [holds, Recorded.outcome_bind, Recorded.evaluate, choose]
  cases Expression.evaluate conditional.condition scope with
  | error failure => rfl
  | ok value =>
    cases value with
    | boolean value => cases value <;> rfl
    | int value => rfl
    | string value => rfl

/-- Settling, with a record of the conditions that it evaluates. -/
def reduceRecorded (html : Text) (scope : Scope) : Recorded { result : Text // result.length ≤ html.length } :=
  match _sought : seek? html with
  | none => pure ⟨html, Nat.le_refl _⟩
  | some (before, found) =>
    match _read : read before.length found with
    | .error failure => lift (.error failure)
    | .ok (conditional, rest) => do
      have whole := congrArg List.length (eq_of_seekFrom? _sought)
      have shorter := length_of_read _read
      let value ← holds conditional.condition scope
      have branchShorter := conditional.length_branchFor_le value
      let ⟨replacement, replacementShorter⟩ ← reduceRecorded (conditional.branchFor value) scope
      let ⟨result, resultShorter⟩ ← reduceRecorded (before ++ replacement ++ rest) scope
      pure ⟨result, by simp only [List.length_append] at whole resultShorter ⊢; omega⟩
termination_by html.length
decreasing_by
  · simp only [List.length_append] at whole ⊢; omega
  · simp only [List.length_append] at whole ⊢; omega

def settleRecorded (html : Text) (scope : Scope) : Recorded Text := Subtype.val <$> reduceRecorded html scope

theorem settleRecorded_of_none {html : Text} (unsought : seek? html = none) (scope : Scope) :
    settleRecorded html scope = pure html := by
  rw [settleRecorded, reduceRecorded]
  split
  · rfl
  · next sought =>
    rw [unsought] at sought
    cases sought

theorem settleRecorded_of_some {html before found : Text} (sought : seek? html = some (before, found)) (scope : Scope) :
    settleRecorded html scope = (do
      let (conditional, rest) ← lift (read before.length found)
      let value ← holds conditional.condition scope
      let replacement ← settleRecorded (conditional.branchFor value) scope
      settleRecorded (before ++ replacement ++ rest) scope) := by
  rw [settleRecorded, reduceRecorded]
  split
  · next unsought =>
    rw [unsought] at sought
    cases sought
  · next before' found' sought' =>
    rw [sought] at sought'
    cases sought'
    split
    · next failure reads =>
      rw [reads]
      rfl
    · next conditional rest reads =>
      conv => rhs; rw [reads]
      rw [Recorded.lift_bind_ok]
      dsimp only
      simp only [settleRecorded, map_eq_pure_bind, bind_assoc, pure_bind]

/-- The record changes nothing about what settling comes back with. -/
theorem outcome_settleRecorded (html : Text) (scope : Scope) : (settleRecorded html scope).outcome = settle html scope := by
  -- The branch is shorter than the text, and so is the text with the branch in place of the conditional.
  induction size : html.length using Nat.strong_induction_on generalizing html with
  | _ size ih =>
    subst size
    cases sought : seek? html with
    | none => rw [settleRecorded_of_none sought, settle_of_none sought]; rfl
    | some parts =>
      obtain ⟨before, found⟩ := parts
      rw [settleRecorded_of_some sought, settle_of_some sought, Recorded.outcome_lift_bind]
      cases reads : read before.length found with
      | error failure => rfl
      | ok result =>
        obtain ⟨conditional, rest⟩ := result
        have whole := congrArg List.length (eq_of_seekFrom? sought)
        have shorter := length_of_read reads
        rw [List.length_append] at whole
        change (holds conditional.condition scope >>= fun value => _).outcome = conditional.choose scope >>= fun branch => _
        rw [Recorded.outcome_bind, ← outcome_holds]
        cases (holds conditional.condition scope).outcome with
        | error failure => rfl
        | ok value =>
          have branchShorter := conditional.length_branchFor_le value
          change (settleRecorded (conditional.branchFor value) scope >>= fun replacement => _).outcome =
            settle (conditional.branchFor value) scope >>= fun replacement => _
          rw [Recorded.outcome_bind, ih _ (by omega) _ rfl]
          cases settled : settle (conditional.branchFor value) scope with
          | error failure => rfl
          | ok replacement =>
            have replacementShorter := length_of_settle settled
            exact ih _ (by simp only [List.length_append]; omega) _ rfl

end Conditional

namespace Document

open Recorded (holds)

/-- A failure is that of the condition evaluated last. -/
def FailsLast {α : Type} (scope : Scope) (computation : Recorded α) : Prop :=
  ∀ failure, computation.outcome = .error failure →
    ∃ condition, computation.asked.getLast? = some condition ∧ (holds condition scope).outcome = .error failure

theorem FailsLast.bind {α β : Type} {scope : Scope} {first : Recorded α} (fails : FailsLast scope first)
    {next : α → Recorded β} (later : ∀ value, FailsLast scope (next value)) : FailsLast scope (first >>= next) := by
  intro failure failed
  cases reached : first.outcome with
  | error other =>
    rw [Recorded.bind_of_error reached] at failed ⊢
    cases failed
    exact fails failure reached
  | ok value =>
    rw [Recorded.bind_of_ok reached] at failed ⊢
    obtain ⟨condition, last, here⟩ := later value failure failed
    exact ⟨condition, by rw [List.getLast?_append, last, Option.some_or], here⟩

theorem failsLast_pure {α : Type} (scope : Scope) (value : α) : FailsLast scope (pure value) := fun _ failed => nomatch failed

theorem asked_holds (condition : Text) (scope : Scope) : (holds condition scope).asked = [condition] := by
  rw [holds]
  cases reached : (Recorded.evaluate condition scope).outcome with
  | error failure =>
    rw [Recorded.bind_of_error reached]
    rfl
  | ok value =>
    rw [Recorded.bind_of_ok reached]
    cases value <;> rfl

/-- What a document says in a scope: of each conditional one branch, and nothing of the other. -/
def resolve (scope : Scope) : Document → Recorded Text
  | .done => pure []
  | .text words rest => (words ++ ·) <$> rest.resolve scope
  | .placeholder expression rest => (braced expression ++ ·) <$> rest.resolve scope
  | .choice condition _ truthy falsy rest => do
    let value ← holds (Text.trim condition) scope
    let chosen ← (if value then truthy.resolve scope else falsy.resolve scope)
    let others ← rest.resolve scope
    pure (chosen ++ others)

theorem failsLast_resolve (document : Document) (scope : Scope) : FailsLast scope (document.resolve scope) := by
  induction document with
  | done => exact failsLast_pure scope []
  | text words rest ih =>
    rw [resolve, map_eq_pure_bind]
    exact ih.bind fun others => failsLast_pure scope _
  | placeholder expression rest ih =>
    rw [resolve, map_eq_pure_bind]
    exact ih.bind fun others => failsLast_pure scope _
  | choice condition gaps truthy falsy rest truthyIh falsyIh restIh =>
    have asks : FailsLast scope (holds (Text.trim condition) scope) :=
      fun failure failed => ⟨Text.trim condition, by rw [asked_holds]; rfl, failed⟩
    refine asks.bind fun value => FailsLast.bind ?_ fun chosen => restIh.bind fun others => failsLast_pure scope _
    cases value with
    | true => exact truthyIh
    | false => exact falsyIh

theorem append_comp_append (first second : Text) : (first ++ ·) ∘ (second ++ ·) = (first ++ second ++ ·) := by
  funext text
  exact (List.append_assoc first second text).symm

theorem print_mem_forms (document : Document) : document.print ∈ document.forms := by
  induction document with
  | done => exact List.mem_singleton_self []
  | text words rest ih => exact List.mem_map_of_mem ih
  | placeholder expression rest ih => exact List.mem_map_of_mem ih
  | choice condition gaps truthy falsy rest truthyIh falsyIh restIh =>
    exact List.mem_flatMap.2 ⟨rest.print, restIh, List.mem_cons_self⟩

theorem branch_mem_forms {condition : Text} {gaps : Gaps} {truthy falsy rest : Document} {chosen later : Text}
    (listed : chosen ∈ truthy.forms ++ falsy.forms) (laterListed : later ∈ rest.forms) :
    chosen ++ later ∈ (choice condition gaps truthy falsy rest).forms :=
  List.mem_flatMap.2 ⟨later, laterListed, List.mem_cons_of_mem _ (List.mem_map_of_mem listed)⟩

/-- What a document says is one of its forms, and no conditional is left in it. -/
theorem of_resolve {document : Document} (sound : document.isWellFormed = true) {scope : Scope} {result : Text}
    (resolved : (document.resolve scope).outcome = .ok result) :
    result ∈ document.forms ∧ Conditional.Settled result := by
  induction document generalizing result with
  | done =>
    cases resolved
    exact ⟨List.mem_singleton_self [], Conditional.settled_nil⟩
  | text words rest ih =>
    simp only [isWellFormed, Bool.and_eq_true, List.all_eq_true, Bool.not_eq_true'] at sound
    obtain ⟨others, later, rfl⟩ := Recorded.exists_of_map resolved
    obtain ⟨listed, settled⟩ := ih sound.2 later
    exact ⟨List.mem_map_of_mem listed, (Conditional.settled_of_braceless sound.1).append settled⟩
  | placeholder expression rest ih =>
    simp only [isWellFormed, Bool.and_eq_true, List.all_eq_true, Bool.not_eq_true', bne_iff_ne] at sound
    obtain ⟨others, later, rfl⟩ := Recorded.exists_of_map resolved
    obtain ⟨listed, settled⟩ := ih sound.2 later
    have here := Conditional.settled_braced (fun c member => (sound.1 c member).1) fun c member => (sound.1 c member).2
    exact ⟨List.mem_map_of_mem listed, here.append settled⟩
  | choice condition gaps truthy falsy rest truthyIh falsyIh restIh =>
    simp only [isWellFormed, Bool.and_eq_true] at sound
    obtain ⟨⟨⟨-, truthySound⟩, falsySound⟩, restSound⟩ := sound
    obtain ⟨value, -, resolved⟩ := Recorded.exists_of_bind resolved
    obtain ⟨chosen, here, resolved⟩ := Recorded.exists_of_bind resolved
    obtain ⟨others, later, same⟩ := Recorded.exists_of_bind resolved
    cases same
    obtain ⟨laterListed, laterSettled⟩ := restIh restSound later
    have first : chosen ∈ truthy.forms ++ falsy.forms ∧ Conditional.Settled chosen := by
      cases value with
      | true => exact (truthyIh truthySound here).imp_left (List.mem_append_left _)
      | false => exact (falsyIh falsySound here).imp_left (List.mem_append_right _)
    exact ⟨branch_mem_forms first.1 laterListed, first.2.append laterSettled⟩

/-- Behind settled text a document is settled to what it says, by the conditions on the path that it takes. -/
theorem settleRecorded_append {document : Document} (sound : document.isWellFormed = true)
    (enclosed : document.isEnclosed = true) {before : Text} (settled : Conditional.Settled before)
    (unblocked : ∀ text ∈ document.forms, Pattern.Absent Block.guarded (before ++ text)) (scope : Scope) :
    Conditional.settleRecorded (before ++ document.print) scope = (before ++ ·) <$> document.resolve scope := by
  -- The search starts over at the front of the text after each replacement, so what is done with so far stays in `before`.
  induction document generalizing before with
  | done =>
    have blockless := Block.spans_of_absent (unblocked [] (List.mem_singleton_self []))
    rw [print, List.append_nil] at *
    rw [Conditional.settleRecorded_of_none (Conditional.seek?_of_settled settled blockless), resolve, map_pure,
      List.append_nil]
  | text words rest ih =>
    simp only [isWellFormed, Bool.and_eq_true, List.all_eq_true, Bool.not_eq_true'] at sound
    have later := ih sound.2 enclosed (settled.append (Conditional.settled_of_braceless sound.1)) fun text listed => by
      rw [List.append_assoc]
      exact unblocked _ (List.mem_map_of_mem listed)
    rw [print, ← List.append_assoc, later, resolve, ← comp_map, append_comp_append]
  | placeholder expression rest ih =>
    simp only [isWellFormed, Bool.and_eq_true, List.all_eq_true, Bool.not_eq_true', bne_iff_ne] at sound
    have here := Conditional.settled_braced (fun c member => (sound.1 c member).1) fun c member => (sound.1 c member).2
    have later := ih sound.2 enclosed (settled.append here) fun text listed => by
      rw [List.append_assoc]
      exact unblocked _ (List.mem_map_of_mem listed)
    rw [print, ← List.append_assoc, later, resolve, ← comp_map, append_comp_append]
  | choice condition gaps truthy falsy rest truthyIh falsyIh restIh =>
    have blockless := Block.spans_of_absent (unblocked _ (print_mem_forms _))
    simp only [isWellFormed, isEnclosed, Bool.and_eq_true, decide_eq_true_eq] at sound enclosed
    obtain ⟨⟨⟨⟨conditionSound, blank⟩, truthySound⟩, falsySound⟩, restSound⟩ := sound
    obtain ⟨⟨⟨⟨truthyNested, falsyNested⟩, truthyEnclosed⟩, falsyEnclosed⟩, restEnclosed⟩ := enclosed
    have alone {text : Text} (listed : text ∈ truthy.forms ++ falsy.forms) : Pattern.Absent Block.guarded text := by
      have whole := unblocked _ (branch_mem_forms listed rest.print_mem_forms)
      rw [← List.append_assoc] at whole
      exact Block.persists_guarded.absent_part whole
    have branch (value : Bool) :
        Conditional.settleRecorded (Conditional.branchFor ⟨Text.trim condition, truthy.print, falsy.print⟩ value) scope =
          if value then truthy.resolve scope else falsy.resolve scope := by
      cases value with
      | true =>
        have taken := truthyIh truthySound truthyEnclosed Conditional.settled_nil fun text listed =>
          alone (List.mem_append_left _ listed)
        exact taken.trans (id_map _)
      | false =>
        have taken := falsyIh falsySound falsyEnclosed Conditional.settled_nil fun text listed =>
          alone (List.mem_append_right _ listed)
        exact taken.trans (id_map _)
    rw [print, Conditional.settleRecorded_of_some (Conditional.seek?_write settled conditionSound blank blockless),
      Conditional.read_write conditionSound blank truthyNested falsyNested, Recorded.lift_bind_ok, resolve, map_bind]
    refine bind_congr fun value => ?_
    rw [branch, map_bind]
    -- What was chosen is settled as well and is now in front of the rest.
    refine Recorded.bind_congr_of_outcome fun chosen reached => ?_
    obtain ⟨listed, chosenSettled⟩ : chosen ∈ truthy.forms ++ falsy.forms ∧ Conditional.Settled chosen := by
      cases value with
      | true => exact (of_resolve truthySound reached).imp_left (List.mem_append_left _)
      | false => exact (of_resolve falsySound reached).imp_left (List.mem_append_right _)
    have later := restIh restSound restEnclosed (settled.append chosenSettled) fun text laterListed => by
      rw [List.append_assoc]
      exact unblocked _ (branch_mem_forms listed laterListed)
    rw [later, map_bind, map_eq_pure_bind]
    simp only [map_pure, List.append_assoc]

/-- Settling a written document comes back with what the document says, and evaluates the conditions on the path that
the document takes, in order. If it fails, it fails at the last of them. -/
theorem settle_print {document : Document} (sound : document.isWellFormed = true)
    (enclosed : document.isEnclosed = true)
    (unblocked : ∀ text ∈ document.forms, Pattern.seek? Block.guarded text = none) (scope : Scope) :
    Conditional.settle document.print scope = (document.resolve scope).outcome ∧
      (Conditional.settleRecorded document.print scope).asked = (document.resolve scope).asked ∧
      ∀ failure, Conditional.settle document.print scope = .error failure →
        ∃ condition, (Conditional.settleRecorded document.print scope).asked.getLast? = some condition ∧
          (holds condition scope).outcome = .error failure := by
  have recorded := settleRecorded_append sound enclosed Conditional.settled_nil
    (fun text listed => Pattern.absent_of_seek? (unblocked text listed)) scope
  have whole : Conditional.settleRecorded document.print scope = document.resolve scope := recorded.trans (id_map _)
  have settles := Conditional.outcome_settleRecorded document.print scope
  rw [whole] at settles ⊢
  refine ⟨settles.symm, rfl, fun failure failed => ?_⟩
  rw [← settles] at failed
  exact failsLast_resolve document scope failure failed

/-- Of a choice in a choice only the conditions on the path are evaluated; the division by zero is not on it. -/
theorem settle_print_lazy : ∃ document : Document,
    document.print = "<p>\x7bb && ')' != '' ? (\x7b n > 1 ? (x\x7bn\x7d) : (y)\x7d) : (\x7b1 / 0 ? (u) : (v)\x7d)\x7d</p>" ∧
    Conditional.settle document.print [("b", .boolean true), ("n", .int 2)] = .ok "<p>x\x7bn\x7d</p>" ∧
    (Conditional.settleRecorded document.print [("b", .boolean true), ("n", .int 2)]).asked =
      ["b && ')' != ''", "n > 1"] := by
  let gaps : Gaps := ⟨" ", " ", " ", []⟩
  let inner : Document := .choice " n > 1 " gaps (.text "x" (.placeholder "n" .done)) (.text "y" .done) .done
  let failing : Document := .choice "1 / 0 " gaps (.text "u" .done) (.text "v" .done) .done
  let document : Document := .text "<p>" (.choice "b && ')' != '' " gaps inner failing (.text "</p>" .done))
  have sound : document.isWellFormed = true := by decide +kernel
  have enclosed := document.isEnclosed_of_items sound (by decide +kernel)
  obtain ⟨settles, asked, -⟩ := settle_print sound enclosed (by decide +kernel) [("b", .boolean true), ("n", .int 2)]
  refine ⟨document, by decide +kernel, ?_, ?_⟩
  · rw [settles]
    exact eq_ok_of_toOption (by decide +kernel)
  · rw [asked]
    decide +kernel

/-- A parenthesis in the quotation of a placeholder ends the branch that the placeholder stands in. -/
theorem settle_print_quoted : ∃ document : Document, document.print = "\x7btrue ? (\x7b\")\"\x7d) : (b)\x7d" ∧
    document.isWellFormed = true ∧ isNested "true " = true ∧ document.branchItems = ["\")\"", "b"] ∧ isNested "b" = true ∧
    (∀ text ∈ document.forms, Pattern.seek? Block.guarded text = none) ∧
    (document.resolve []).outcome = .ok "\x7b\")\"\x7d" ∧
    Conditional.settle document.print [] = .error (.conditionalMisplaced .colon document.print) := by
  let document : Document :=
    .choice "true " ⟨" ", " ", " ", []⟩ (.placeholder "\")\"" .done) (.text "b" .done) .done
  refine ⟨document, by decide +kernel, by decide +kernel, by decide +kernel, by decide +kernel, by decide +kernel,
    by decide +kernel, eq_ok_of_toOption (by decide +kernel), ?_⟩
  have sought : Conditional.seek? document.print = some ([], document.print) := by decide +kernel
  have reads : Conditional.read 0 document.print = .error (.conditionalMisplaced .colon document.print) := by rfl
  rw [Conditional.settle_of_some sought, List.length_nil, reads]
  rfl

end Document

end ComponentPages
