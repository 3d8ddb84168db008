import ComponentPages.Proofs.Bindings
import ComponentPages.Proofs.Expression.Clean
import ComponentPages.Proofs.Markup.Tree
import ComponentPages.Proofs.Outcome

/-!
What markup means, by substitution in trees. A placeholder means the value of its expression, a slot the fill it
is given. What a component stands for is left open; its fills have their meaning where its tag stands.
-/
namespace ComponentPages

/-- What a component's tag stands for, given its name, its attributes, the scope around it and its fills. -/
abbrev Expander := Text → List Mention → Scope → Bindings Tree → Option Tree

/-- What the parts of markup mean in a scope, with fills for the slots. -/
def Replacement.meaning (expand : Expander) (scope : Scope) (slots : Bindings Tree) : Replacement where
  placeholder inner := (Expression.evaluate inner scope).toOption.map fun value => .text value.render .done
  component name mentions _ fills := expand name mentions scope (Bindings.ofList fills.fills)
  slot name := some ((slots.get? name).getD .done)

def Tree.meaning (expand : Expander) (scope : Scope) (slots : Bindings Tree) (tree : Tree) : Option Tree :=
  tree.replace (.meaning expand scope slots)

/-! ### Nothing but text and elements is left -/

def Bindings.ArePlain (slots : Bindings Tree) : Prop := ∀ named ∈ slots, named.2.isSound .plain false = true

/-- What components stand for holds no markup to expand. -/
def Expander.Expands (expand : Expander) : Prop :=
  ∀ name mentions scope fills tree, (∀ mention ∈ mentions, mention.isSound = true) → isCleanScope scope = true →
    Bindings.ArePlain fills → expand name mentions scope fills = some tree → tree.isSound .plain false = true

namespace Tree

theorem isSound_fills {vocabulary : Vocabulary} {tree : Tree} (sound : tree.isSound vocabulary true = true) :
    ∀ named ∈ tree.fills, isSlotName named.1 = true ∧ named.2.isSound vocabulary false = true := by
  induction tree with
  | fill name body rest _ ih =>
    simp only [isSound, Bool.and_eq_true] at sound
    intro named member
    rcases List.mem_cons.1 member with rfl | later
    · exact sound.1
    · exact ih sound.2 named later
  | done => simp [fills]
  | text | placeholder | element | component | slot => cases sound

theorem arePlain_ofList_fills {tree : Tree} (sound : tree.isSound .plain true = true) :
    Bindings.ArePlain (Bindings.ofList tree.fills) :=
  @Bindings.forall_ofList Tree (fun filled => filled.isSound .plain false = true) tree.fills
    fun named member => (isSound_fills sound named member).2

theorem isSound_value {inner : Text} (parts : inner.all isExpressionPart = true) {scope : Scope}
    (clean : isCleanScope scope = true) {tree : Tree}
    (evaluated : ((Expression.evaluate inner scope).toOption.map fun value => text value.render done) = some tree)
    (vocabulary : Vocabulary) : tree.isSound vocabulary false = true := by
  obtain ⟨value, found, rfl⟩ := Option.map_eq_some_iff.1 evaluated
  have unquoted : ∀ c ∈ inner, isQuote c = false :=
    fun c member => isQuote_of_isExpressionPart (List.all_eq_true.1 parts c member)
  have valueClean := Expression.isClean_evaluate unquoted clean (eq_ok_of_toOption found)
  rw [isSound, Value.isTextPart_render valueClean]
  rfl

theorem isSound_getD {slots : Bindings Tree} (plain : slots.ArePlain) (name : Text) :
    ((slots.get? name).getD done).isSound .plain false = true := by
  cases bound : slots.get? name with
  | none => rfl
  | some filled => exact plain _ (Bindings.mem_of_get? bound)

theorem isSound_meaning {expand : Expander} (expands : expand.Expands) {scope : Scope}
    (clean : isCleanScope scope = true) {slots : Bindings Tree} (plain : slots.ArePlain) {vocabulary : Vocabulary}
    {inTag : Bool} {tree result : Tree} (sound : tree.isSound vocabulary inTag = true)
    (means : tree.meaning expand scope slots = some result) : result.isSound .plain inTag = true := by
  refine isSound_replace ?_ ?_ ?_ sound means
  · intro inner tree _ parts evaluated
    exact isSound_value (Bool.and_eq_true_iff.1 parts).2 clean evaluated .plain
  · intro name mentions closed fills tree _ tagged fillsSound expanded
    simp only [isComponentTag, Bool.and_eq_true, List.all_eq_true] at tagged
    exact expands name mentions scope _ tree tagged.1.2 clean (arePlain_ofList_fills fillsSound) expanded
  · intro name tree _ _ filled
    rw [← Option.some.inj filled]
    exact isSound_getD plain name

/-! ### Filling a template before its components are expanded -/

end Tree

/-- Fills take the place of slots, everything else stays. -/
def Replacement.slots (slots : Bindings Tree) : Replacement where
  placeholder inner := some (.placeholder inner .done)
  component name mentions closed fills := some (.component name mentions closed fills .done)
  slot name := some ((slots.get? name).getD .done)

/-- Values take the place of placeholders, everything else stays. -/
def Replacement.placeholders (scope : Scope) : Replacement where
  placeholder inner := (Expression.evaluate inner scope).toOption.map fun value => .text value.render .done
  component name mentions closed fills := some (.component name mentions closed fills .done)
  slot name := some (.slot name .done)

namespace Tree

theorem exists_replace_slots (slots : Bindings Tree) (tree : Tree) :
    ∃ result, tree.replace (.slots slots) = some result :=
  exists_replace (fun _ => ⟨_, rfl⟩) (fun _ _ _ _ => ⟨_, rfl⟩) (fun _ => ⟨_, rfl⟩) tree

theorem isSound_component {vocabulary : Vocabulary} (permitted : vocabulary.components = true) {name : Text}
    {mentions : List Mention} {closed : Bool} {fills : Tree} (tagged : isComponentTag name mentions closed fills = true)
    (sound : fills.isSound vocabulary true = true) :
    (component name mentions closed fills done).isSound vocabulary false = true := by
  rw [isSound, permitted, tagged, sound]
  rfl

theorem isSound_slots {slots : Bindings Tree} (plain : slots.ArePlain) {inTag : Bool} {tree result : Tree}
    (sound : tree.isSound .template inTag = true) (filled : tree.replace (.slots slots) = some result) :
    result.isSound .page inTag = true := by
  refine isSound_replace ?_ ?_ ?_ sound filled
  · intro inner tree _ parts replaced
    rw [← Option.some.inj replaced, isSound, parts]
    rfl
  · intro name mentions closed fills tree _ tagged fillsSound replaced
    rw [← Option.some.inj replaced]
    exact isSound_component rfl tagged fillsSound
  · intro name tree _ _ replaced
    rw [← Option.some.inj replaced]
    exact isSound_of_plain (isSound_getD plain name) .page

theorem isSound_placeholders {scope : Scope} (clean : isCleanScope scope = true) {inTag : Bool} {tree result : Tree}
    (sound : tree.isSound .page inTag = true) (filled : tree.replace (.placeholders scope) = some result) :
    result.isSound .page inTag = true := by
  refine isSound_replace ?_ ?_ ?_ sound filled
  · intro inner tree _ parts evaluated
    exact isSound_value (Bool.and_eq_true_iff.1 parts).2 clean evaluated .page
  · intro name mentions closed fills tree _ tagged fillsSound replaced
    rw [← Option.some.inj replaced]
    exact isSound_component rfl tagged fillsSound
  · intro name tree slotted
    cases slotted

/-- A filled template means what the template means with its fills. -/
theorem meaning_filled {slots : Bindings Tree} (plain : slots.ArePlain) (expand : Expander) (scope : Scope) (tree : Tree) :
    ((tree.replace (.slots slots)).bind (replace (.placeholders scope))).bind (meaning expand scope []) =
      tree.meaning expand scope slots := by
  have kept (new : Replacement) (name : Text) (mentions : List Mention) (closed : Bool) (fills : Tree) :
      (component name mentions closed fills done).replace new =
        (fills.replace new).bind (new.component name mentions closed) := by
    simp [replace, append_done]
  have filled (name : Text) (new : Replacement) :
      ((slots.get? name).getD done).replace new = some ((slots.get? name).getD done) :=
    replace_of_plain (isSound_getD plain name) new
  have valued (inner : Text) (new : Replacement) :
      ((Expression.evaluate inner scope).toOption.map fun value => text value.render done).bind (replace new) =
        (Expression.evaluate inner scope).toOption.map fun value => text value.render done := by
    cases Expression.evaluate inner scope <;> rfl
  let both : Replacement := { Replacement.placeholders scope with slot := (Replacement.slots slots).slot }
  have first := @replace_replace (.slots slots) (.placeholders scope) both
    (fun inner => by simp [Replacement.slots, both, Replacement.placeholders, replace, append_done])
    (fun name mentions closed fills => kept (.placeholders scope) name mentions closed fills)
    (fun name => filled name (.placeholders scope)) tree
  have second := @replace_replace both (.meaning expand scope []) (.meaning expand scope slots)
    (fun inner => valued inner (.meaning expand scope []))
    (fun name mentions closed fills => kept (.meaning expand scope []) name mentions closed fills)
    (fun name => filled name (.meaning expand scope [])) tree
  rw [first]
  exact second

end Tree

end ComponentPages
