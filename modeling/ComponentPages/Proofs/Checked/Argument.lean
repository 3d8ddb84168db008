import ComponentPages.Proofs.Checked.Conditional
import ComponentPages.Proofs.Pattern
import ComponentPages.Argument
import ComponentPages.Slot

/-!
Placeholders, slot fills, declared props and the arguments of a tag, read with checked operations. The offset of a
placeholder is used to look back through the text; the words of a declaration are taken apart as a pair.
-/
namespace ComponentPages

namespace Checked

open Guarded (embed check)

/-- Whether text at an offset is out of reach of placeholders. -/
def frozen (blocks : List Span) (html : Text) (offset : Nat) : Checked Bool :=
  if covered blocks offset then .ok true else insideTag isUpper html offset

/-- What a segment of a text becomes: a placeholder in reach gives the value of its expression. -/
def substituteSegment (html : Text) (scope : Scope) (offset : Nat) : Segment Text → Guarded (Except Failure) Text
  | .plain c => pure [c]
  | .hit source inner => do
    if ← check (frozen (Block.spans html) html offset) then pure source
    else if Placeholder.looksConditional inner then pure source
    else Value.render <$> evaluate inner scope

/-- Replaces every placeholder in reach by the value of its expression. -/
def substitute (html : Text) (scope : Scope) : Guarded (Except Failure) Text := do
  let parts ← (Pattern.located 0 (Pattern.segments Placeholder.pattern html)).mapM fun place =>
    substituteSegment html scope place.1 place.2
  pure parts.flatten

/-- The valued attributes of a head by name. -/
def attributeTable (head : Text) : Checked (Bindings Text) := do
  let found ← attributes head
  .ok (Bindings.ofList (found.filterMap fun attr => attr.text?.map (attr.name, ·)))

/-- The element that a fill is wrapped in. -/
def wrapFill (tag : Text) (usage : Slot.Usage) : Checked Text := do
  let found ← attributes usage.head
  let others := found.filter fun (attr : Attribute) => attr.name ≠ "name" ∧ attr.name ≠ "tag"
  let extras : Text := (others.map Attribute.raw).flatMap (' ' :: ·)
  .ok ("<" ++ tag ++ extras ++ ">" ++ usage.body ++ "</" ++ tag ++ ">")

/-- A fill and the name of its slot; a fill without a name is ignored. -/
def fill (usage : Slot.Usage) : Checked (Option (Text × Text)) := do
  let table ← attributeTable usage.head
  let name := (table.get? "name").getD []
  if name = [] then .ok none
  else
    match (table.get? "tag").getD [] with
    | [] => .ok (some (name, usage.body))
    | tag => (wrapFill tag usage).map fun markup => some (name, markup)

/-- The fills among the children of a component tag, by slot name. -/
def fills (children : Text) : Checked (Bindings Text) := do
  let found ← (Pattern.values Slot.usage children).mapM fill
  .ok (Bindings.ofList (found.filterMap id))

/-- Adds one declaration of the list, which must be two words. -/
def addListed (props : Props) (declaration : Text) : Guarded (Except Failure) Props := do
  let words := Text.words declaration
  if words = [] then pure props
  else if words.length ≠ 2 then embed (.error (.propShape (Text.trim declaration)))
  else
    let (name, typeName) ← check (pair words)
    if props.binds name then embed (.error (.propTwice name))
    else
      let type ← embed (Props.declare name typeName)
      pure (props.set name type)

/-- The props that a template declares, and the template without the declarations. -/
def readProps (template : Text) : Guarded (Except Failure) (Props × Text) := do
  let (declarations, body) := Props.split template
  let listed ← (Text.pieces ',' declarations).foldlM addListed []
  let props ← embed ((Pattern.values Props.propMarker body).foldlM
    (fun props (name, type) => Props.addMarked props name type) listed)
  let unmarked := Pattern.replace Props.propMarker (fun (name, _) => Props.placeholder name) body
  pure (props, Pattern.replace Props.drillMarker Props.placeholder unmarked)

/-- The value that an attribute passes, or nothing when the attribute is no argument. -/
def argumentValue (caller : Scope) (props : Props) (attr : Attribute) : Guarded (Except Failure) (Option Value) :=
  match attr.value with
  | none | some (.unquoted, _) => pure none
  | some (.braces, expression) => some <$> evaluate expression caller
  | some (.quoted _, text) =>
    match props.get? attr.name with
    | some .string | none => (fun text => some (.string text)) <$> substitute text caller
    | some type => embed (.error (.rawArgument attr.name type attr.raw))

/-- The argument that an attribute passes, or nothing. -/
def argument (caller : Scope) (props : Props) (strict : Bool) (attr : Attribute) :
    Guarded (Except Failure) (Option (Text × Value)) := do
  match ← argumentValue caller props attr with
  | none => pure none
  | some value =>
    embed (Argument.check props strict attr value)
    pure (some (attr.name, value))

/-- The scope of a component's template. -/
def resolve (head : Text) (caller : Scope) (props : Props) (strict : Bool) : Guarded (Except Failure) (Bindings Value) := do
  let found ← check (attributes head)
  let given ← found.mapM (argument caller props strict)
  embed (props.foldlM (Argument.fill strict) (Bindings.ofList (given.filterMap id)))

theorem frozen_eq {html : Text} {offset : Nat} (within : offset ≤ html.length) (blocks : List Span) :
    frozen blocks html offset = .ok (Placeholder.frozen blocks html offset) := by
  rw [frozen, Placeholder.frozen, insideTag_component within]
  cases covered blocks offset <;> rfl

theorem substitute_eq (html : Text) (scope : Scope) : substitute html scope = embed (Placeholder.substitute html scope) := by
  rw [substitute, Placeholder.substitute, Guarded.embed_bind, Guarded.embed_mapM]
  refine congrArg₂ _ (Guarded.mapM_congr fun place member => ?_) rfl
  obtain ⟨offset, segment⟩ := place
  cases segment with
  | plain c => rfl
  | hit source inner =>
    have bound := Pattern.le_of_mem_located member
    rw [Pattern.flatMap_source_segments, Nat.zero_add] at bound
    have within : offset ≤ html.length := Nat.le_trans (Nat.le_add_right _ _) bound
    dsimp only
    rw [substituteSegment, Guarded.check_ok (frozen_eq within _), pure_bind, evaluate_eq]
    cases Placeholder.frozen (Block.spans html) html offset with
    | true => rfl
    | false =>
      cases Placeholder.looksConditional inner with
      | true => rfl
      | false => exact (Guarded.embed_map _ _).symm

theorem attributeTable_eq (head : Text) : attributeTable head = .ok (Attribute.table head) := by
  rw [attributeTable, attributes_eq]
  rfl

theorem fill_eq (usage : Slot.Usage) :
    fill usage = .ok (if usage.name = [] then none else some (usage.name, usage.markup)) := by
  rw [fill, attributeTable_eq, ok_bind]
  change (if usage.name = [] then _ else _) = _
  by_cases nameless : usage.name = []
  · rw [if_pos nameless, if_pos nameless]
  · rw [if_neg nameless, if_neg nameless, Slot.Usage.markup]
    change (match usage.tag with | [] => _ | tag => _) = _
    cases usage.tag with
    | nil => rfl
    | cons c tag =>
      dsimp only
      rw [wrapFill, attributes_eq]
      rfl

theorem fills_eq (children : Text) : fills children = .ok (Slot.fills children) := by
  have each : (Pattern.values Slot.usage children).mapM fill =
      .ok ((Pattern.values Slot.usage children).map fun usage =>
        if usage.name = [] then none else some (usage.name, usage.markup)) :=
    mapM_eq fun usage _ => fill_eq usage
  rw [fills, each, ok_bind, Slot.fills]
  congr 2
  induction Pattern.values Slot.usage children with
  | nil => rfl
  | cons usage usages ih =>
    by_cases nameless : usage.name = []
    · simpa [nameless] using ih
    · simpa [nameless] using ih

theorem addListed_eq (props : Props) (declaration : Text) :
    addListed props declaration = embed (Props.addListed props declaration) := by
  rw [addListed, Props.addListed]
  match Text.words declaration with
  | [] => rfl
  | [_] => rfl
  | [name, typeName] =>
    rw [if_neg (List.cons_ne_nil _ _), if_neg (by simp)]
    dsimp only
    change (if props.binds name then _ else _) = _
    by_cases twice : props.binds name
    · rw [if_pos twice, if_pos twice]
    · rw [if_neg twice, if_neg twice]
      cases Props.declare name typeName <;> rfl
  | _ :: _ :: _ :: _ =>
    rw [if_neg (List.cons_ne_nil _ _), if_pos (by simp)]

theorem readProps_eq (template : Text) : readProps template = embed (Props.read template) := by
  have listing : addListed = fun props declaration => embed (Props.addListed props declaration) :=
    funext fun props => funext fun declaration => addListed_eq props declaration
  rw [readProps, Props.read, Guarded.embed_bind, Guarded.embed_foldlM, listing]
  refine bind_congr fun listed => ?_
  rw [Guarded.embed_bind]
  rfl

theorem argumentValue_eq (caller : Scope) (props : Props) (attr : Attribute) :
    argumentValue caller props attr = embed (Argument.value? caller props attr) := by
  obtain ⟨name, value, raw⟩ := attr
  rw [argumentValue, Argument.value?]
  rcases value with _ | ⟨_ | _ | _, text⟩
  · rfl
  · rfl
  · dsimp only
    rw [substitute_eq]
    rcases props.get? name with _ | _ | _ | _
    · exact (Guarded.embed_map _ _).symm
    · exact (Guarded.embed_map _ _).symm
    · rfl
    · rfl
  · dsimp only
    rw [evaluate_eq]
    exact (Guarded.embed_map _ _).symm

theorem argument_eq (caller : Scope) (props : Props) (strict : Bool) (attr : Attribute) :
    argument caller props strict attr = embed (Argument.ofAttribute caller props strict attr) := by
  rw [argument, Argument.ofAttribute, argumentValue_eq, Guarded.embed_bind]
  refine bind_congr fun value => ?_
  cases value with
  | none => rfl
  | some value =>
    dsimp only
    rw [Guarded.embed_bind]
    rfl

theorem resolve_eq (head : Text) (caller : Scope) (props : Props) (strict : Bool) :
    resolve head caller props strict = embed (Argument.resolve head caller props strict) := by
  rw [resolve, Argument.resolve, Guarded.check_ok (attributes_eq head), pure_bind, Guarded.embed_bind, Guarded.embed_mapM,
    Guarded.mapM_congr fun attr _ => argument_eq caller props strict attr]

end Checked

end ComponentPages
