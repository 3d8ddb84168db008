import ComponentPages.Proofs.Markup.Quiet
import ComponentPages.Proofs.Outcome

/-!
Pages on which a pass finds nothing to do. Each pass leaves such a page as it is, and a page without scripts, handlers,
requests and conditionals comes out of compilation as it comes out of expansion.
-/
namespace ComponentPages

open Compile (Gives LeadsTo)

namespace Expansion

theorem leadsTo_mask {html : Text} (unfetched : Fetch.next? html 0 = none) : (mask html).LeadsTo (pure html) := by
  refine LeadsTo.note ?_ _
  rw [Fetch.mask_of_none unfetched]
  exact LeadsTo.refl _

theorem gives_mask {html : Text} (unfetched : Fetch.next? html 0 = none) : (mask html).Gives (some html) :=
  (leadsTo_mask unfetched).gives (Compile.gives_pure html)

theorem gives_fetched {html : Text} (unfetched : Fetch.next? html 0 = none) (free : ∀ c ∈ html, isReserved c = false)
    (texts : ScriptTexts) : (Fetch.lower texts (Signal.resolve html)).Gives (some html) := by
  rw [Signal.resolve_of_unreserved free, Fetch.lower_of_none unfetched]
  exact Gives.note (Compile.gives_pure _) _

end Expansion

/-- A page without scripts, handlers, requests and conditionals compiles to what it expands to. -/
theorem gives_compilePage {limit : Int} {workshop : Workshop} {stack : ExpansionStack limit} {scope : Scope}
    {html : Text} (lowered : Signal.lower html scope = pure html) (unfetched : Fetch.next? html 0 = none)
    (settled : Conditional.settle html scope = .ok html) {result? : Option Text}
    (expanded : (Expansion.expandFrom workshop stack scope html 0).Gives result?)
    (quiet : ∀ result, result? = some result → Fetch.next? result 0 = none ∧ ∀ c ∈ result, isReserved c = false) :
    (compilePage workshop stack scope true html).Gives result? := by
  rw [compilePage, if_pos rfl, lowered, pure_bind]
  refine Gives.bind_some (Expansion.gives_mask unfetched) ?_
  rw [Expansion.expand, settled, Compile.lift_ok, pure_bind]
  cases result? with
  | none => exact Gives.bind_none expanded _
  | some result =>
    obtain ⟨unfetchedLater, free⟩ := quiet result rfl
    refine Gives.bind_some expanded (Gives.bind_some (Expansion.gives_fetched unfetchedLater free _) ?_)
    rw [Fetch.unmask_of_unreserved free]
    exact Compile.gives_pure result

/-- From a text without tags of components nothing is expanded. -/
theorem gives_expandFrom_of_untagged {limit : Int} {workshop : Workshop} {stack : ExpansionStack limit} {scope : Scope}
    {html result : Text} (untagged : (ComponentTag.next? html 0).toOption = some none)
    (substituted : (Placeholder.substitute html scope).toOption = some result) :
    (Expansion.expandFrom workshop stack scope html 0).Gives (some result) := by
  rw [Expansion.expandFrom_of_none (eq_ok_of_toOption untagged), List.drop_zero]
  exact Gives.note (Compile.gives_lift_of_toOption substituted) _

/-- What holds no tag of a component and no placeholder compiles to itself. -/
theorem gives_compilePage_of_inert {limit : Int} {workshop : Workshop} {stack : ExpansionStack limit} {scope : Scope}
    {html : Text} (lowered : Signal.lower html scope = pure html) (unfetched : (Fetch.next? html 0).isNone)
    (unsought : (Conditional.seek? html).isNone) (untagged : (ComponentTag.next? html 0).toOption = some none)
    (substituted : (Placeholder.substitute html scope).toOption = some html) (free : ∀ c ∈ html, isReserved c = false) :
    (compilePage workshop stack scope true html).Gives (some html) := by
  rw [Option.isNone_iff_eq_none] at unfetched unsought
  have expanded := @gives_expandFrom_of_untagged limit workshop stack scope html html untagged substituted
  refine gives_compilePage lowered unfetched (Conditional.settle_of_none unsought scope) expanded ?_
  intro result same
  rw [← Option.some.inj same]
  exact ⟨unfetched, free⟩

end ComponentPages
