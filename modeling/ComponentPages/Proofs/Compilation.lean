import ComponentPages.Expansion

/-!
Running a compilation step by step: what a page becomes along a sequence of compilations, and the equations of
settling and of expansion.
-/
namespace ComponentPages

namespace Compile

variable {α β : Type}

theorem run_bind (first : Compile α) (second : α → Compile β) (page : Page) :
    (first >>= second).run page =
      match first.run page with
      | (.error failure, later) => (.error failure, later)
      | (.ok value, later) => (second value).run later := by
  simp only [run, ExceptT.run_bind]
  cases result : StateT.run (ExceptT.run first) page with
  | mk outcome later => cases outcome <;> simp [StateT.run_bind, result] <;> rfl

theorem run_bind_of_ok {first : Compile α} {page later : Page} {value : α}
    (result : first.run page = (.ok value, later)) (second : α → Compile β) :
    (first >>= second).run page = (second value).run later := by
  rw [run_bind, result]

theorem run_bind_of_error {first : Compile α} {page later : Page} {failure : Failure}
    (result : first.run page = (.error failure, later)) (second : α → Compile β) :
    (first >>= second).run page = (.error failure, later) := by
  rw [run_bind, result]

/-- What comes back from two compilations in a row came back from each. -/
theorem exists_of_run_bind {first : Compile α} {second : α → Compile β} {page later : Page} {result : β}
    (ran : (first >>= second).run page = (.ok result, later)) :
    ∃ value between, first.run page = (.ok value, between) ∧ (second value).run between = (.ok result, later) := by
  rw [run_bind] at ran
  cases reached : first.run page with
  | mk outcome between =>
    rw [reached] at ran
    cases outcome with
    | error failure => cases ran
    | ok value => exact ⟨value, between, rfl, ran⟩

theorem run_map (f : α → β) (compilation : Compile α) (page : Page) :
    (f <$> compilation).run page = ((compilation.run page).1.map f, (compilation.run page).2) := by
  rw [map_eq_pure_bind, run_bind]
  cases result : compilation.run page with
  | mk outcome later => cases outcome <;> rfl

theorem run_map_congr {first second : Compile α} {page later : Page} (same : first.run page = second.run later)
    (f : α → β) : (f <$> first).run page = (f <$> second).run later := by
  rw [run_map, run_map, same]

theorem run_note (notes : List Note) (page : Page) :
    (note notes).run page = (.ok (), { page with notes := page.notes ++ notes }) :=
  rfl

theorem run_nextId (stem : Text) (page : Page) :
    (nextId stem).run page = (.ok (page.ids.next stem).1, { page with ids := (page.ids.next stem).2 }) :=
  rfl

theorem run_lift (result : Except Failure α) (page : Page) : (lift result).run page = (result, page) := by
  cases result <;> rfl

theorem ext_run {first second : Compile α} (same : ∀ page, first.run page = second.run page) : first = second :=
  funext same

theorem lift_ok (value : α) : (lift (.ok value) : Compile α) = pure value := rfl

theorem lift_error_bind (failure : Failure) (second : α → Compile β) :
    lift (.error failure) >>= second = (lift (.error failure) : Compile β) :=
  rfl

theorem lift_bind (first : Except Failure α) (second : α → Except Failure β) :
    lift (first >>= second) = lift first >>= fun value => lift (second value) := by
  cases first <;> rfl

/-- Some page lets the compilation come back with the value. -/
def Yields (compilation : Compile α) (value : α) : Prop :=
  ∃ page later, compilation.run page = (.ok value, later)

theorem yields_lift {result : Except Failure α} {value : α} : (lift result).Yields value ↔ result = .ok value := by
  constructor
  · rintro ⟨page, later, reached⟩
    rw [run_lift] at reached
    exact congrArg Prod.fst reached
  · rintro rfl
    exact ⟨{}, {}, rfl⟩

end Compile

namespace Conditional

theorem settle_of_none {html : Text} (unsought : seek? html = none) (scope : Scope) :
    settle html scope = .ok html := by
  rw [settle, reduce]
  split
  · rfl
  · next sought =>
    rw [unsought] at sought
    cases sought

theorem settle_of_some {html before found : Text} (sought : seek? html = some (before, found)) (scope : Scope) :
    settle html scope = (do
      let (conditional, rest) ← read before.length found
      let branch ← conditional.choose scope
      let replacement ← settle branch scope
      settle (before ++ replacement ++ rest) scope) := by
  rw [settle, reduce]
  split
  · next unsought =>
    rw [sought] at unsought
    cases unsought
  · next before' found' sought' =>
    rw [sought] at sought'
    cases sought'
    split
    · next failure reads =>
      conv => rhs; rw [reads]
      rfl
    · next conditional rest reads =>
      conv => rhs; rw [reads]
      dsimp only [bind, Except.bind]
      split
      · next failure chosen =>
        conv => rhs; rw [chosen]
        rfl
      · next branch chosen =>
        conv => rhs; rw [chosen]
        dsimp only
        rw [settle]
        cases reduce branch scope with
        | error failure => rfl
        | ok replacement =>
          obtain ⟨replacement, shorter⟩ := replacement
          dsimp only [Except.map]
          rw [settle]
          cases reduce (before ++ replacement ++ rest) scope <;> rfl

theorem length_of_settle {html result : Text} {scope : Scope} (settled : settle html scope = .ok result) :
    result.length ≤ html.length := by
  rw [settle] at settled
  cases reduced : reduce html scope with
  | error failure =>
    rw [reduced] at settled
    cases settled
  | ok found =>
    rw [reduced] at settled
    obtain rfl := Except.ok.inj settled
    exact found.property

end Conditional

namespace Expansion

variable {limit : Int} {html : Text} {position : Nat}

/-- The closing tags that the search for a component tag passes by. -/
def danglingNotes (html : Text) (position : Nat) : List Note :=
  (ComponentTag.dangling html position).map fun (name, offset) => .danglingClose name offset

theorem expandFrom_of_error {failure : Failure} (found : ComponentTag.next? html position = .error failure)
    (workshop : Workshop) (stack : ExpansionStack limit) (scope : Scope) :
    expandFrom workshop stack scope html position = (do
      Compile.note (danglingNotes html position)
      throw failure) := by
  rw [expandFrom]
  split
  · next found' =>
    rw [found] at found'
    cases found'
    rfl
  · next found' =>
    rw [found] at found'
    cases found'
  · next found' =>
    rw [found] at found'
    cases found'

theorem expandFrom_of_none (found : ComponentTag.next? html position = .ok none)
    (workshop : Workshop) (stack : ExpansionStack limit) (scope : Scope) :
    expandFrom workshop stack scope html position = (do
      Compile.note (danglingNotes html position)
      Compile.lift (Placeholder.substitute (html.drop position) scope)) := by
  rw [expandFrom]
  split
  · next found' =>
    rw [found] at found'
    cases found'
  · rfl
  · next found' =>
    rw [found] at found'
    cases found'

theorem expandFrom_of_tag {tag : ComponentTag} (found : ComponentTag.next? html position = .ok (some tag))
    (workshop : Workshop) (stack : ExpansionStack limit) (scope : Scope) :
    expandFrom workshop stack scope html position = (do
      Compile.note (danglingNotes html position)
      let before ← Compile.lift (Placeholder.substitute (Text.slice html position tag.start) scope)
      let component ← Compile.lift (workshop.registry.require tag.name)
      let arguments ← arguments workshop component scope tag.attributes
      Compile.note [.expanding tag.name arguments.length]
      let inner ← Compile.lift (Conditional.settle tag.inner scope)
      let children ← expandFrom workshop stack scope inner 0
      Compile.note (fillNotes children)
      let entered ← Compile.lift (stack.enter component.name)
      let instance_ ← instantiate workshop component arguments (Slot.fills children)
      let template ← Compile.lift (Conditional.settle instance_ arguments)
      let expanded ← expandFrom workshop entered arguments template 0
      let rest ← expandFrom workshop stack scope html tag.stop
      pure (before ++ expanded ++ rest)) := by
  rw [expandFrom]
  split
  · next found' =>
    rw [found] at found'
    cases found'
  · next found' =>
    rw [found] at found'
    cases found'
  · next tag' found' =>
    rw [found] at found'
    cases found'
    refine bind_congr fun _ => bind_congr fun before => bind_congr fun component => bind_congr fun arguments =>
      bind_congr fun _ => ?_
    rw [Conditional.settle]
    cases Conditional.reduce tag.inner scope with
    | error failure => rfl
    | ok inner =>
      change (do
        let children ← expandFrom workshop stack scope inner.val 0
        _) = (do
        let children ← expandFrom workshop stack scope inner.val 0
        _)
      refine bind_congr fun children => ?_
      split
      · next failure enters =>
        conv => rhs; rw [enters]
        rfl
      · next entered enters =>
        conv => rhs; rw [enters]
        rfl

end Expansion

end ComponentPages
