import ComponentPages.Proofs.Compilation
import Mathlib.Data.List.Forall2

/-!
What a compilation comes back with, apart from what it leaves on the page and from how it fails.
-/
namespace ComponentPages

variable {α β : Type}

theorem eq_ok_of_toOption {result : Except Failure α} {value : α} (found : result.toOption = some value) :
    result = .ok value := by
  cases result with
  | error failure => cases found
  | ok other => rw [Option.some.inj found]

theorem toOption_bind (first : Except Failure α) (second : α → Except Failure β) :
    (first >>= second).toOption = first.toOption.bind fun value => (second value).toOption := by
  cases first <;> rfl

theorem toOption_map (f : α → β) (result : Except Failure α) : (result.map f).toOption = result.toOption.map f := by
  cases result <;> rfl

theorem toOption_mapM (f : α → Except Failure β) (list : List α) :
    (list.mapM f).toOption = list.mapM fun a => (f a).toOption := by
  induction list with
  | nil => rfl
  | cons a list ih =>
    rw [List.mapM_cons, List.mapM_cons, ← ih]
    cases f a with
    | error failure => rfl
    | ok first => cases list.mapM f <;> rfl

theorem bind_eq_ok_iff {first : Except Failure α} {next : α → Except Failure β} {result : β} :
    first >>= next = .ok result ↔ ∃ value, first = .ok value ∧ next value = .ok result := by
  cases first <;> simp [bind, Except.bind]

theorem map_eq_ok_iff {f : α → β} {result : Except Failure α} {value : β} :
    result.map f = .ok value ↔ ∃ a, result = .ok a ∧ f a = value := by
  cases result <;> simp [Except.map]

theorem mapM_eq_ok_iff {f : α → Except Failure β} {list : List α} {results : List β} :
    list.mapM f = .ok results ↔ List.Forall₂ (fun a b => f a = .ok b) list results := by
  induction list generalizing results with
  | nil => cases results <;> simp [pure, Except.pure]
  | cons a list ih =>
    rw [List.mapM_cons]
    cases here : f a with
    | error failure => cases results <;> simp [bind, Except.bind, here]
    | ok first =>
      cases later : list.mapM f with
      | error failure => cases results <;> simp [bind, Except.bind, here, later, ← ih]
      | ok others => cases results <;> simp [bind, Except.bind, pure, Except.pure, here, later, ← ih]

theorem exists_mapM_iff {f : α → Except Failure β} {list : List α} :
    (∃ results, list.mapM f = .ok results) ↔ ∀ a ∈ list, ∃ b, f a = .ok b := by
  simp only [mapM_eq_ok_iff]
  induction list with
  | nil => simp
  | cons a list ih =>
    rw [List.forall_mem_cons, ← ih]
    constructor
    · rintro ⟨_, related⟩
      cases related with
      | cons here later => exact ⟨⟨_, here⟩, _, later⟩
    · rintro ⟨⟨b, here⟩, results, later⟩
      exact ⟨b :: results, .cons here later⟩

theorem exists_of_mem_mapM {f : α → Option β} {list : List α} {results : List β}
    (mapped : list.mapM f = some results) {result : β} (member : result ∈ results) : ∃ a ∈ list, f a = some result := by
  induction list generalizing results with
  | nil =>
    cases mapped
    cases member
  | cons a list ih =>
    rw [List.mapM_cons] at mapped
    simp only [Option.bind_eq_bind, Option.bind_eq_some_iff, Option.pure_def, Option.some.injEq] at mapped
    obtain ⟨first, here, others, later, rfl⟩ := mapped
    rcases List.mem_cons.1 member with rfl | inOthers
    · exact ⟨a, List.mem_cons_self, here⟩
    · obtain ⟨b, listed, found⟩ := ih later inOthers
      exact ⟨b, List.mem_cons_of_mem a listed, found⟩

theorem isSome_of_mapM {f : α → Option β} {list : List α} {results : List β} (mapped : list.mapM f = some results) :
    ∀ a ∈ list, (f a).isSome = true := by
  induction list generalizing results with
  | nil => simp
  | cons first list ih =>
    rw [List.mapM_cons] at mapped
    simp only [Option.bind_eq_bind, Option.bind_eq_some_iff, Option.pure_def, Option.some.injEq] at mapped
    obtain ⟨value, here, others, later, -⟩ := mapped
    intro a member
    rcases List.mem_cons.1 member with rfl | rest
    · rw [here]
      rfl
    · exact ih later a rest

namespace Compile

/-- Whatever the page holds, the compilation comes back with the value, and fails where there is none. -/
def Gives (compilation : Compile α) (value? : Option α) : Prop :=
  ∀ page, (compilation.run page).1.toOption = value?

theorem gives_pure (value : α) : (pure value : Compile α).Gives (some value) := fun _ => rfl

theorem gives_lift (result : Except Failure α) : (lift result).Gives result.toOption := by
  intro page
  rw [run_lift]

theorem gives_lift_of_toOption {result : Except Failure α} {value? : Option α} (same : result.toOption = value?) :
    (lift result).Gives value? := by
  rw [← same]
  exact gives_lift result

theorem Gives.bind {first : Compile α} {value? : Option α} (gives : first.Gives value?) {second : α → Compile β}
    {result? : α → Option β} (next : ∀ value, value? = some value → (second value).Gives (result? value)) :
    (first >>= second).Gives (value?.bind result?) := by
  intro page
  have here := gives page
  rw [run_bind]
  cases ran : first.run page with
  | mk outcome later =>
    rw [ran] at here
    cases outcome with
    | error failure =>
      rw [← here]
      rfl
    | ok value =>
      have reached : value? = some value := here.symm
      rw [reached]
      exact next value reached later

theorem Gives.bind_some {first : Compile α} {value : α} (gives : first.Gives (some value)) {second : α → Compile β}
    {result? : Option β} (next : (second value).Gives result?) : (first >>= second).Gives result? := by
  refine @Gives.bind α β first (some value) gives second (fun _ => result?) fun other same => ?_
  rw [← Option.some.inj same]
  exact next

theorem Gives.bind_none {first : Compile α} (gives : first.Gives none) (second : α → Compile β) :
    (first >>= second).Gives none :=
  @Gives.bind α β first none gives second (fun _ => none) fun _ same => nomatch same

theorem Gives.note {compilation : Compile α} {value? : Option α} (gives : compilation.Gives value?)
    (notes : List Note) : (do
      Compile.note notes
      compilation).Gives value? := by
  intro page
  rw [run_bind, run_note]
  exact gives _

/-- The first compilation goes on as the second one and has only noted something before. -/
def LeadsTo (first second : Compile α) : Prop :=
  ∀ page, ∃ notes, first.run page = second.run { page with notes := page.notes ++ notes }

namespace LeadsTo

theorem refl (compilation : Compile α) : compilation.LeadsTo compilation := fun page => ⟨[], by rw [List.append_nil]⟩

theorem trans {first second third : Compile α} (leads : first.LeadsTo second) (next : second.LeadsTo third) :
    first.LeadsTo third := by
  intro page
  obtain ⟨notes, reached⟩ := leads page
  obtain ⟨others, passed⟩ := next { page with notes := page.notes ++ notes }
  exact ⟨notes ++ others, by rw [reached, passed, List.append_assoc]⟩

theorem note {compilation other : Compile α} (leads : compilation.LeadsTo other) (notes : List Note) : (do
    Compile.note notes
    compilation).LeadsTo other := by
  intro page
  obtain ⟨others, reached⟩ := leads { page with notes := page.notes ++ notes }
  exact ⟨notes ++ others, by rw [run_bind, run_note, ← List.append_assoc]; exact reached⟩

theorem bind {first second : Compile α} (leads : first.LeadsTo second) (next : α → Compile β) :
    (first >>= next).LeadsTo (second >>= next) := by
  intro page
  obtain ⟨notes, reached⟩ := leads page
  exact ⟨notes, by rw [run_bind, run_bind, reached]⟩

theorem bind_pure {first : Compile α} {value : α} (leads : first.LeadsTo (pure value)) {next : α → Compile β}
    {other : Compile β} (later : (next value).LeadsTo other) : (first >>= next).LeadsTo other := by
  refine (leads.bind next).trans ?_
  rw [pure_bind]
  exact later

theorem lift {result : Except Failure α} {value : α} (same : result = .ok value) {next : α → Compile β}
    {other : Compile β} (later : (next value).LeadsTo other) : (Compile.lift result >>= next).LeadsTo other := by
  rw [same, lift_ok, pure_bind]
  exact later

/-- What a compilation gives in the end it gives from where it leads. -/
theorem gives {first second : Compile α} (leads : first.LeadsTo second) {value? : Option α} (given : second.Gives value?) :
    first.Gives value? := by
  intro page
  obtain ⟨notes, reached⟩ := leads page
  rw [reached]
  exact given _

/-- What comes back comes back from where the compilation leads. -/
theorem exists_run {first second : Compile α} (leads : first.LeadsTo second) {page after : Page} {result : α}
    (ran : first.run page = (.ok result, after)) : ∃ noted : Page, noted.ids = page.ids ∧ second.run noted = (.ok result, after) := by
  obtain ⟨notes, reached⟩ := leads page
  exact ⟨{ page with notes := page.notes ++ notes }, rfl, reached.symm.trans ran⟩

/-- An id that is drawn does not depend on what has been noted. -/
theorem nextId {stem : Text} {first second : Text → Compile α} (leads : ∀ id, (first id).LeadsTo (second id)) :
    (Compile.nextId stem >>= first).LeadsTo (Compile.nextId stem >>= second) := by
  intro page
  exact leads (page.ids.next stem).1 { page with ids := (page.ids.next stem).2 }

end LeadsTo

/-- Whatever the page holds, the compilation ends with the result. -/
def Returns (compilation : Compile α) (result : Except Failure α) : Prop :=
  ∀ page, (compilation.run page).1 = result

theorem returns_lift (result : Except Failure α) : (lift result).Returns result := by
  intro page
  rw [run_lift]

theorem Gives.returns {compilation : Compile α} {value : α} (gives : compilation.Gives (some value)) :
    compilation.Returns (.ok value) :=
  fun page => eq_ok_of_toOption (gives page)

theorem LeadsTo.returns {first second : Compile α} (leads : first.LeadsTo second) {result : Except Failure α}
    (returned : second.Returns result) : first.Returns result := by
  intro page
  obtain ⟨notes, reached⟩ := leads page
  rw [reached]
  exact returned _

theorem Returns.bind_ok {first : Compile α} {value : α} (returned : first.Returns (.ok value)) {next : α → Compile β}
    {result : Except Failure β} (later : (next value).Returns result) : (first >>= next).Returns result := by
  intro page
  have here := returned page
  rw [run_bind]
  cases reached : first.run page with
  | mk outcome after =>
    rw [reached] at here
    dsimp only at here
    rw [here]
    exact later after

theorem Returns.bind_error {first : Compile α} {failure : Failure} (returned : first.Returns (.error failure))
    (next : α → Compile β) : (first >>= next).Returns (.error failure) := by
  intro page
  have here := returned page
  rw [run_bind]
  cases reached : first.run page with
  | mk outcome after =>
    rw [reached] at here
    dsimp only at here
    rw [here]

end Compile

end ComponentPages
