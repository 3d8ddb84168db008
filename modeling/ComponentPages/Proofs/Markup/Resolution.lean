import ComponentPages.Proofs.Markup.Argument

/-!
Scopes that come back from reading a tag. Every declared prop has a value of its type, the one that the last argument
of its name passes or else the empty one, and nothing is bound that is neither declared nor passed.
-/
namespace ComponentPages

theorem both_of_rel {α β : Type} {holds : α → β → Prop} {first : Option α} {second : Option β}
    (related : Option.Rel holds first second) :
    (∃ a b, first = some a ∧ second = some b ∧ holds a b) ∨ first = none ∧ second = none := by
  cases related with
  | some held => exact .inl ⟨_, _, rfl, rfl, held⟩
  | none => exact .inr ⟨rfl, rfl⟩

theorem get?_withZeros (props : Props) (given : Bindings Value) (name : Text) :
    (withZeros props given).get? name = (given.get? name).or ((props.get? name).map Value.zero) := by
  induction props generalizing given with
  | nil => simp [withZeros, Bindings.get?]
  | cons prop props ih =>
    obtain ⟨other, type⟩ := prop
    have step : withZeros ((other, type) :: props) given =
        withZeros props (if given.binds other then given else given.set other (Value.zero type)) := rfl
    rw [step, ih, Bindings.get?_cons name other, Bindings.binds_eq_isSome]
    by_cases same : name = other
    · subst same
      rw [if_pos rfl]
      cases bound : given.get? name with
      | none => simp [Bindings.get?_set]
      | some value => simp [bound]
    · rw [if_neg same]
      split
      · rfl
      · rw [Bindings.get?_set, if_neg same]

theorem nodup_names_withZeros (props : Props) {given : Bindings Value} (distinct : given.names.Nodup) :
    (withZeros props given).names.Nodup := by
  induction props generalizing given with
  | nil => exact distinct
  | cons prop props ih =>
    apply ih
    dsimp only
    split
    · exact distinct
    · exact Bindings.nodup_names_set distinct

namespace Argument

/-- Whether an attribute is an argument, with a value in quotes or in braces. -/
def isArgument (attr : Attribute) : Bool :=
  match attr.value with
  | some (.quoted _, _) | some (.braces, _) => true
  | some (.unquoted, _) | none => false

/-- The argument that counts for a name, which is the last one. -/
def last? (name : Text) (attributes : List Attribute) : Option Attribute :=
  (attributes.filter fun attr => isArgument attr && attr.name = name).getLast?

/-- The value of an argument, in the scope in which its tag stands. -/
inductive Passes (caller : Scope) (attr : Attribute) : Value → Prop
  | expression {source : Text} {value : Value} (written : attr.value = some (.braces, source))
    (evaluated : Expression.evaluate source caller = .ok value) : Passes caller attr value
  | text {quote : Char} {text filled : Text} (written : attr.value = some (.quoted quote, text))
    (substituted : Placeholder.substitute text caller = .ok filled) : Passes caller attr (.string filled)

theorem last?_eq_find? (name : Text) (attributes : List Attribute) :
    last? name attributes = (attributes.filter isArgument).reverse.find? fun attr => attr.name = name := by
  rw [last?, List.getLast?_filter, ← List.filter_reverse, List.find?_filter]
  congr 1
  funext attr
  simp

theorem isSome_last?_iff {name : Text} {attributes : List Attribute} :
    (last? name attributes).isSome = true ↔ ∃ attr ∈ attributes, isArgument attr = true ∧ attr.name = name := by
  simp [last?]

theorem name_of_last? {name : Text} {attributes : List Attribute} {attr : Attribute}
    (found : last? name attributes = some attr) : attr.name = name := by
  have member := List.mem_of_getLast? found
  simp only [List.mem_filter, Bool.and_eq_true, decide_eq_true_eq] at member
  exact member.2.2

section Accepted

variable {caller : Scope} {props : Props} {strict : Bool}

/-- An argument passes a value that its name may have. -/
def Accepted (caller : Scope) (props : Props) (strict : Bool) (attr : Attribute) (value : Value) : Prop :=
  Passes caller attr value ∧ accepts props strict attr.name value = true

theorem passes_of_value? {attr : Attribute} {passed : Option Value} (read : value? caller props attr = .ok passed) :
    isArgument attr = false ∧ passed = none ∨
      isArgument attr = true ∧ ∃ value, passed = some value ∧ Passes caller attr value := by
  unfold value? at read
  split at read
  · next written =>
    cases read
    exact .inl ⟨by rw [isArgument, written], rfl⟩
  · next written =>
    cases read
    exact .inl ⟨by rw [isArgument, written], rfl⟩
  · next source written =>
    refine .inr ⟨by rw [isArgument, written], ?_⟩
    obtain ⟨value, evaluated, rfl⟩ := map_eq_ok_iff.1 read
    exact ⟨value, rfl, .expression written evaluated⟩
  · next quote text written =>
    refine .inr ⟨by rw [isArgument, written], ?_⟩
    have filled : (Placeholder.substitute text caller).map (fun text => some (Value.string text)) = .ok passed := by
      dsimp only at read
      split at read
      · exact read
      · exact read
      · cases read
    obtain ⟨result, substituted, rfl⟩ := map_eq_ok_iff.1 filled
    exact ⟨.string result, rfl, .text written substituted⟩

theorem Accepted.value? {attr : Attribute} {value : Value} (accepted : Accepted caller props strict attr value) :
    Argument.value? caller props attr = .ok (some value) := by
  obtain ⟨passes, fits⟩ := accepted
  cases passes with
  | expression written evaluated =>
    rw [Argument.value?, written]
    dsimp only
    rw [evaluated]
    rfl
  | text written substituted =>
    -- a declared prop of another type would refuse the string
    have open_ : props.get? attr.name = none ∨ props.get? attr.name = some .string := by
      rw [accepts] at fits
      cases declared : props.get? attr.name with
      | none => exact .inl rfl
      | some type =>
        rw [declared] at fits
        exact .inr (congrArg some (of_decide_eq_true fits).symm)
    rw [Argument.value?, written]
    dsimp only
    rw [substituted]
    rcases open_ with undeclared | declared
    · rw [undeclared]
      rfl
    · rw [declared]
      rfl

theorem value?_of_not_isArgument {attr : Attribute} (other : isArgument attr = false) (caller : Scope) (props : Props) :
    value? caller props attr = .ok none := by
  rw [isArgument] at other
  split at other
  · cases other
  · cases other
  · next written => rw [value?, written]
  · next written => rw [value?, written]

/-- An attribute is read if it is no argument or passes an accepted value. -/
theorem ofAttribute_eq_ok_iff {attr : Attribute} {given : Option (Text × Value)} :
    ofAttribute caller props strict attr = .ok given ↔
      isArgument attr = false ∧ given = none ∨
        isArgument attr = true ∧ ∃ value, given = some (attr.name, value) ∧ Accepted caller props strict attr value := by
  constructor
  · intro read
    cases passed : value? caller props attr with
    | error failure =>
      rw [ofAttribute, passed] at read
      cases read
    | ok value? =>
      rcases passes_of_value? passed with ⟨other, rfl⟩ | ⟨argument, value, rfl, passes⟩
      · rw [ofAttribute, passed] at read
        cases read
        exact .inl ⟨other, rfl⟩
      · have outcome := ofAttribute_of_value? passed strict
        rw [read] at outcome
        split at outcome
        · next fits => exact .inr ⟨argument, value, Option.some.inj outcome, passes, fits⟩
        · cases outcome
  · rintro (⟨other, rfl⟩ | ⟨-, value, rfl, accepted⟩)
    · rw [ofAttribute, value?_of_not_isArgument other]
      rfl
    · apply eq_ok_of_toOption
      rw [ofAttribute_of_value? accepted.value? strict, if_pos accepted.2]
      rfl

/-- The arguments of a tag that is read make pairs, one for one. -/
theorem forall₂_arguments {attributes : List Attribute} {given : List (Option (Text × Value))}
    (read : List.Forall₂ (fun attr passed => ofAttribute caller props strict attr = .ok passed) attributes given) :
    List.Forall₂ (fun attr pair => pair.1 = attr.name ∧ Accepted caller props strict attr pair.2)
      (attributes.filter isArgument) (given.filterMap id) := by
  induction read with
  | nil => exact .nil
  | cons here later ih =>
    rcases ofAttribute_eq_ok_iff.1 here with ⟨other, rfl⟩ | ⟨argument, value, rfl, accepted⟩
    · rw [List.filter_cons_of_neg (by simp [other]), List.filterMap_cons_none rfl]
      exact ih
    · rw [List.filter_cons_of_pos argument, List.filterMap_cons_some (f := id) rfl]
      exact .cons ⟨rfl, accepted⟩ ih

theorem rel_lookup {holds : Attribute → Value → Prop} {attributes : List Attribute} {pairs : List (Text × Value)}
    (related : List.Forall₂ (fun attr pair => pair.1 = attr.name ∧ holds attr pair.2) attributes pairs) (name : Text) :
    Option.Rel holds (attributes.find? fun attr => attr.name = name) (pairs.lookup name) := by
  induction related with
  | nil => exact .none
  | @cons attr pair attributes pairs here later ih =>
    obtain ⟨other, value⟩ := pair
    obtain ⟨rfl, held⟩ := here
    rw [List.find?_cons, List.lookup_cons]
    by_cases same : attr.name = name
    · rw [decide_eq_true same, beq_iff_eq.2 same.symm]
      exact .some held
    · rw [decide_eq_false same, beq_false_of_ne (Ne.symm same)]
      exact ih

/-- A name is bound by the last argument of its name. -/
theorem rel_last? {attributes : List Attribute} {given : List (Option (Text × Value))}
    (read : attributes.mapM (ofAttribute caller props strict) = .ok given) (name : Text) :
    Option.Rel (Accepted caller props strict) (last? name attributes)
      ((Bindings.ofList (given.filterMap id)).get? name) := by
  rw [last?_eq_find?, Bindings.get?_ofList]
  exact rel_lookup (List.forall₂_reverse_iff.2 (forall₂_arguments (mapM_eq_ok_iff.1 read))) name

theorem foldlM_fill_eq_ok_iff {given scope : Bindings Value} :
    props.foldlM (fill strict) given = .ok scope ↔
      (strict = true → ∀ name ∈ props.names, (given.get? name).isSome = true) ∧ scope = withZeros props given := by
  have filled : (props.foldlM (fill strict) given).toOption =
      if strict && !props.all fun prop => given.binds prop.1 then none else some (withZeros props given) :=
    foldlM_fill strict props given
  have complete : (props.all fun prop => given.binds prop.1) = true ↔
      ∀ name ∈ props.names, (given.get? name).isSome = true := by
    simp [Bindings.binds_eq_isSome, Bindings.names, List.all_eq_true]
  rw [← complete]
  constructor
  · intro resolved
    rw [resolved] at filled
    split at filled
    · cases filled
    · next reached => exact ⟨by simpa using reached, Option.some.inj filled⟩
  · rintro ⟨reached, rfl⟩
    exact eq_ok_of_toOption (by rw [filled, if_neg (by simpa using reached)])

theorem resolve_eq_ok_iff {head : Text} {scope : Bindings Value} :
    resolve head caller props strict = .ok scope ↔
      ∃ given, (Attribute.tokenize head).mapM (ofAttribute caller props strict) = .ok given ∧
        (strict = true → ∀ name ∈ props.names, (last? name (Attribute.tokenize head)).isSome = true) ∧
        scope = withZeros props (Bindings.ofList (given.filterMap id)) := by
  rw [resolve, bind_eq_ok_iff]
  refine exists_congr fun given => and_congr_right fun read => ?_
  have bound (name : Text) : (last? name (Attribute.tokenize head)).isSome =
      ((Bindings.ofList (given.filterMap id)).get? name).isSome := by
    rcases both_of_rel (rel_last? read name) with ⟨attr, value, found, bound, -⟩ | ⟨absent, unbound⟩
    · rw [found, bound]
      rfl
    · rw [absent, unbound]
      rfl
  simp only [bound]
  exact foldlM_fill_eq_ok_iff

/-- A tag is read exactly when all of its arguments are accepted and, if nothing may be left out, give every prop. -/
theorem exists_resolve_iff {head : Text} :
    (∃ scope, resolve head caller props strict = .ok scope) ↔
      (∀ attr ∈ Attribute.tokenize head, isArgument attr = true → ∃ value, Accepted caller props strict attr value) ∧
        (strict = true → ∀ name ∈ props.names, (last? name (Attribute.tokenize head)).isSome = true) := by
  have each (attr : Attribute) : (∃ given, ofAttribute caller props strict attr = .ok given) ↔
      (isArgument attr = true → ∃ value, Accepted caller props strict attr value) := by
    simp only [ofAttribute_eq_ok_iff]
    cases isArgument attr <;> simp
  simp only [resolve_eq_ok_iff, ← each, ← exists_mapM_iff]
  constructor
  · rintro ⟨scope, given, read, complete, -⟩
    exact ⟨⟨given, read⟩, complete⟩
  · rintro ⟨⟨given, read⟩, complete⟩
    exact ⟨_, given, read, complete, rfl⟩

section Resolved

variable {head : Text} {scope : Bindings Value} (resolved : resolve head caller props strict = .ok scope)
include resolved

/-- A name has the value of its last argument, or the empty value of its type. -/
theorem get?_of_resolve (name : Text) :
    (∃ attr value, last? name (Attribute.tokenize head) = some attr ∧ Passes caller attr value ∧
      accepts props strict name value = true ∧ scope.get? name = some value) ∨
    last? name (Attribute.tokenize head) = none ∧ scope.get? name = (props.get? name).map Value.zero := by
  obtain ⟨given, read, -, rfl⟩ := resolve_eq_ok_iff.1 resolved
  rw [get?_withZeros]
  rcases both_of_rel (rel_last? read name) with ⟨attr, value, found, bound, passes, fits⟩ | ⟨absent, unbound⟩
  · rw [name_of_last? found] at fits
    rw [bound]
    exact .inl ⟨attr, value, found, passes, fits, rfl⟩
  · rw [unbound]
    exact .inr ⟨absent, rfl⟩

theorem nodup_names_resolve : scope.names.Nodup := by
  obtain ⟨given, -, -, rfl⟩ := resolve_eq_ok_iff.1 resolved
  exact nodup_names_withZeros props (Bindings.nodup_names_ofList _)

theorem mem_names_resolve (name : Text) :
    name ∈ scope.names ↔ name ∈ props.names ∨ ∃ attr ∈ Attribute.tokenize head, isArgument attr = true ∧ attr.name = name := by
  rw [Bindings.mem_names_iff, Bindings.mem_names_iff, ← isSome_last?_iff]
  rcases get?_of_resolve resolved name with ⟨attr, value, found, -, -, bound⟩ | ⟨absent, zero⟩
  · simp [found, bound]
  · simp [absent, zero]

/-- The scope that a tag gives to the template of its component. -/
theorem resolve_typed :
    scope.names.Nodup ∧
      (∀ name type, props.get? name = some type → ∃ value, scope.get? name = some value ∧ value.type = type) ∧
      (strict = true → ∀ name, name ∈ scope.names ↔ name ∈ props.names) ∧
      (strict = false → ∀ name, name ∈ scope.names ↔
        name ∈ props.names ∨ ∃ attr ∈ Attribute.tokenize head, isArgument attr = true ∧ attr.name = name) ∧
      (∀ name attr, last? name (Attribute.tokenize head) = some attr →
        ∃ value, Passes caller attr value ∧ scope.get? name = some value) ∧
      (∀ name type, props.get? name = some type → last? name (Attribute.tokenize head) = none →
        scope.get? name = some (.zero type)) ∧
      ∀ attr ∈ Attribute.tokenize head, ∀ quote text type, attr.value = some (.quoted quote, text) →
        props.get? attr.name = some type → type = .string := by
  have arguments := (exists_resolve_iff.1 ⟨scope, resolved⟩).1
  refine ⟨nodup_names_resolve resolved, ?typed, ?declared, fun _ => mem_names_resolve resolved, ?last, ?zero, ?quoted⟩
  case typed =>
    intro name type declared
    rcases get?_of_resolve resolved name with ⟨attr, value, -, -, fits, bound⟩ | ⟨-, zero⟩
    · rw [accepts, declared] at fits
      exact ⟨value, bound, of_decide_eq_true fits⟩
    · rw [declared] at zero
      exact ⟨_, zero, by cases type <;> rfl⟩
  case declared =>
    intro strictly name
    rw [Bindings.mem_names_iff, Bindings.mem_names_iff]
    rcases get?_of_resolve resolved name with ⟨attr, value, -, -, fits, bound⟩ | ⟨-, zero⟩
    · rw [accepts] at fits
      cases declared : props.get? name with
      | none => simp [declared, strictly] at fits
      | some type => simp [bound]
    · simp [zero]
  case last =>
    intro name attr found
    rcases get?_of_resolve resolved name with ⟨other, value, same, passes, -, bound⟩ | ⟨absent, -⟩
    · rw [found] at same
      rw [Option.some.inj same]
      exact ⟨value, passes, bound⟩
    · rw [found] at absent
      cases absent
  case zero =>
    intro name type declared absent
    rcases get?_of_resolve resolved name with ⟨attr, value, found, -⟩ | ⟨-, zero⟩
    · rw [absent] at found
      cases found
    · rw [zero, declared]
      rfl
  case quoted =>
    intro attr member quote text type written declared
    obtain ⟨value, passes, fits⟩ := arguments attr member (by rw [isArgument, written])
    rw [accepts, declared] at fits
    cases passes with
    | expression braces => rw [written] at braces; cases braces
    | text => exact (of_decide_eq_true fits).symm

end Resolved

end Accepted

/-- An argument that is given twice, one that is not declared, and a prop that only a bare word names. -/
theorem resolve_typed_repeated :
    ∃ scope : Bindings Value,
      resolve "a=\"x\" n=\x7b1 + 2\x7d a='\x7bb\x7d' z=\"w\" t" [("b".toList, .string "y")]
        [("a".toList, .string), ("n".toList, .int), ("t".toList, .boolean)] false = .ok scope ∧
      (∃ value, scope.get? "n" = some value ∧ value.type = .int) ∧
      (∃ value, Passes [("b".toList, .string "y")] ⟨"a", some (.quoted '\'', "\x7bb\x7d"), "a='\x7bb\x7d'"⟩ value ∧
        scope.get? "a" = some value) ∧
      "z".toList ∈ scope.names ∧ scope.get? "t" = some (.boolean false) := by
  have resolved : resolve "a=\"x\" n=\x7b1 + 2\x7d a='\x7bb\x7d' z=\"w\" t" [("b".toList, .string "y")]
      [("a".toList, .string), ("n".toList, .int), ("t".toList, .boolean)] false =
      .ok [("a".toList, .string "y"), ("n".toList, .int 3), ("z".toList, .string "w"), ("t".toList, .boolean false)] :=
    eq_ok_of_toOption (by decide +kernel)
  obtain ⟨-, typed, -, named, last, zero, -⟩ := resolve_typed resolved
  exact ⟨_, resolved, typed "n" .int (by decide +kernel), last "a" _ (by decide +kernel),
    (named rfl "z").2 (.inr ⟨⟨"z", some (.quoted '"', "w"), "z=\"w\""⟩, by decide +kernel, by decide, rfl⟩),
    zero "t" .boolean (by decide +kernel) (by decide +kernel)⟩

end Argument

end ComponentPages
