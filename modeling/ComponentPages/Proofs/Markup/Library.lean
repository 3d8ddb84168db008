import ComponentPages.Proofs.Markup.Meaning

/-!
Components as they are written, and what their tags stand for: the component's template in a scope that holds the
arguments of the tag alone, with the fills of the tag in place of the template's slots.
-/
namespace ComponentPages

/-- The value that an attribute of a component's tag passes. -/
def Written.meaning (caller : Scope) : Written → Option Value
  | .constant _ text => some (.string text)
  | .expression text => (Expression.evaluate text caller).toOption

/-- Whether a prop takes a value: one of its type, or any when it is not declared and nothing is strict. -/
def accepts (props : Props) (strict : Bool) (name : Text) (value : Value) : Bool :=
  match props.get? name with
  | some type => value.type = type
  | none => !strict

def Mention.argument? (props : Props) (strict : Bool) (caller : Scope) (mention : Mention) : Option (Text × Value) :=
  (mention.written.meaning caller).bind fun value =>
    if accepts props strict mention.name value then some (mention.name, value) else none

/-- Adds the zero value of every prop that has none. -/
def withZeros (props : Props) (given : Bindings Value) : Bindings Value :=
  props.foldl (fun given (name, type) => if given.binds name then given else given.set name (Value.zero type)) given

/-- The scope of a template with these props: the arguments of a tag, and a zero value for every other prop unless
that is an error. -/
def Props.arguments? (props : Props) (strict : Bool) (caller : Scope) (mentions : List Mention) :
    Option (Bindings Value) :=
  (mentions.mapM (Mention.argument? props strict caller)).bind fun given =>
    let given := Bindings.ofList given
    if strict && !props.all fun (name, _) => given.binds name then none
    else some (withZeros props given)

/-- A component as it is written: one root element whose first attribute declares the props. -/
structure Definition where
  name : Text
  quote : Char
  declaration : Text
  props : Props
  root : Text
  mentions : List Mention
  body : Tree
deriving DecidableEq

namespace Definition

def source (definition : Definition) : Text :=
  (Tree.element definition.root
    (⟨"props", .constant definition.quote definition.declaration⟩ :: definition.mentions) definition.body .done).print

/-- The root element without the declaration; a stylesheet finds it by one more attribute. -/
def template (definition : Definition) (addScope : Bool) : Tree :=
  .element definition.root
    (if addScope then ⟨Component.scopeIdFor definition.name, .constant '"' []⟩ :: definition.mentions
      else definition.mentions)
    definition.body .done

def isSound (definition : Definition) : Bool :=
  (isPascalCase definition.name && !namesBlock definition.name) &&
    (isQuote definition.quote && definition.declaration.all isConstantPart) &&
    ((Text.pieces ',' definition.declaration).foldlM Props.addListed []).toOption == some definition.props &&
    (isElementName definition.root && !namesBlock definition.root && definition.root != "slot" &&
      !RootElement.voidNames.contains definition.root) &&
    (definition.mentions.all Mention.isSound && definition.mentions.all Mention.isStatic) &&
    definition.body.isSound .template false

/-- The scope of the template: the arguments of a tag, and a zero value for every other prop unless that is an
error. -/
def arguments? (definition : Definition) (strict : Bool) (caller : Scope) (mentions : List Mention) :
    Option (Bindings Value) :=
  (mentions.mapM (Mention.argument? definition.props strict caller)).bind fun given =>
    let given := Bindings.ofList given
    if strict && !definition.props.all fun (name, _) => given.binds name then none
    else some (withZeros definition.props given)

end Definition

/-- Components under distinct names. -/
structure Library where
  definitions : List Definition
  sound : ∀ definition ∈ definitions, definition.isSound = true
  distinct : (definitions.map Definition.name).Nodup

namespace Library

def find? (library : Library) (name : Text) : Option Definition :=
  library.definitions.find? fun definition => definition.name = name

/-- What components stand for when at most so many are nested. -/
def expand (library : Library) (strict addScope : Bool) : Nat → Expander
  | 0 => fun _ _ _ _ => none
  | depth + 1 => fun name mentions caller fills => do
    let definition ← library.find? name
    let arguments ← definition.arguments? strict caller mentions
    (definition.template addScope).meaning (library.expand strict addScope depth) arguments fills

/-- What a page means. -/
def meaning (library : Library) (strict addScope : Bool) (depth : Nat) (scope : Scope) (page : Tree) : Option Tree :=
  page.meaning (library.expand strict addScope depth) scope []

end Library

theorem Mention.isClean_argument? {mention : Mention} (sound : mention.isSound = true) {caller : Scope}
    (clean : isCleanScope caller = true) {props : Props} {strict : Bool} {argument : Text × Value}
    (passes : mention.argument? props strict caller = some argument) : argument.2.isClean = true := by
  obtain ⟨value, means, taken⟩ := Option.bind_eq_some_iff.1 passes
  split at taken
  · cases taken
    simp only [isSound, Bool.and_eq_true] at sound
    have valued := sound.2
    cases form : mention.written with
    | constant quote text =>
      rw [form] at means valued
      simp only [Written.isSound, Bool.and_eq_true, List.all_eq_true] at valued
      cases means
      exact List.all_eq_true.2 fun c member => isTextPart_of_isConstantPart (valued.2 c member)
    | expression text =>
      rw [form] at means valued
      simp only [Written.isSound, List.all_eq_true] at valued
      have unquoted : ∀ c ∈ text, isQuote c = false := fun c member => isQuote_of_isExpressionPart (valued c member)
      exact Expression.isClean_evaluate unquoted clean (eq_ok_of_toOption means)
  · cases taken

theorem isCleanScope_iff {scope : Scope} :
    isCleanScope scope = true ↔ ∀ pair ∈ scope, pair.2.isClean = true := by
  simp [isCleanScope, List.all_eq_true]

theorem isClean_withZeros (props : Props) {given : Bindings Value} (clean : isCleanScope given = true) :
    isCleanScope (withZeros props given) = true := by
  induction props generalizing given with
  | nil => exact clean
  | cons prop props ih =>
    obtain ⟨name, type⟩ := prop
    apply ih
    dsimp only
    split
    · exact clean
    · exact isCleanScope_iff.2 (@Bindings.forall_set Value (fun value => value.isClean = true) name (Value.zero type)
        given (Value.isClean_zero type) (isCleanScope_iff.1 clean))

theorem Props.isClean_arguments? {props : Props} {strict : Bool} {caller : Scope} {mentions : List Mention}
    (sound : ∀ mention ∈ mentions, mention.isSound = true) (clean : isCleanScope caller = true)
    {arguments : Bindings Value} (passed : props.arguments? strict caller mentions = some arguments) :
    isCleanScope arguments = true := by
  obtain ⟨given, mapped, filled⟩ := Option.bind_eq_some_iff.1 passed
  dsimp only at filled
  split at filled
  · cases filled
  · rw [← Option.some.inj filled]
    refine isClean_withZeros props (isCleanScope_iff.2 ?_)
    refine @Bindings.forall_ofList Value (fun value => value.isClean = true) given fun pair member => ?_
    obtain ⟨mention, listed, passes⟩ := exists_of_mem_mapM mapped member
    exact mention.isClean_argument? (sound mention listed) clean passes

namespace Definition

theorem isSound_scopeMention {name : Text} (pascal : isPascalCase name = true) :
    (⟨Component.scopeIdFor name, .constant '"' []⟩ : Mention).isSound = true ∧
      (⟨Component.scopeIdFor name, .constant '"' []⟩ : Mention).isStatic = true := by
  have parts : ∀ c ∈ name, isTagNamePart c = true := by
    cases name with
    | nil => cases pascal
    | cons first name =>
      simp only [isPascalCase, Bool.and_eq_true, List.all_eq_true] at pascal
      intro c member
      rcases List.mem_cons.1 member with rfl | later
      · simp [isTagNamePart, Char.isAlphanum, Char.isAlpha, pascal.1]
      · simp [isTagNamePart, pascal.2 c later]
  have lowered : Component.scopeIdFor name = "data-" ++ name.map Char.toLower := by
    rw [Component.scopeIdFor, Text.lower_of_isTagNamePart parts]
  have scopeParts : (Component.scopeIdFor name).all isMentionPart = true := by
    rw [lowered, List.all_append, List.all_map]
    have rest : name.all (isMentionPart ∘ Char.toLower) = true :=
      List.all_eq_true.2 fun c member => isMentionPart_of_isTagNamePart (isTagNamePart_toLower (parts c member))
    rw [rest]
    rfl
  constructor
  · rw [Mention.isSound, scopeParts, lowered]
    rfl
  · rw [Mention.isStatic, lowered]
    rfl

theorem isSound_template {definition : Definition} (sound : definition.isSound = true) (addScope : Bool) :
    (definition.template addScope).isSound .template false = true := by
  simp only [isSound, Bool.and_eq_true] at sound
  obtain ⟨⟨⟨⟨⟨⟨pascal, -⟩, -⟩, -⟩, root⟩, mentions⟩, body⟩ := sound
  have attributes : ((if addScope then ⟨Component.scopeIdFor definition.name, .constant '"' []⟩ :: definition.mentions
      else definition.mentions).all Mention.isSound &&
      (if addScope then ⟨Component.scopeIdFor definition.name, .constant '"' []⟩ :: definition.mentions
      else definition.mentions).all Mention.isStatic) = true := by
    obtain ⟨scopeSound, scopeStatic⟩ := isSound_scopeMention pascal
    cases addScope with
    | true => simp [scopeSound, scopeStatic, mentions]
    | false => simp [mentions]
  simp only [template, Tree.isSound, attributes, body, Bool.and_true, Bool.and_eq_true]
  exact root.1

end Definition

namespace Library

theorem isSound_of_find? {library : Library} {name : Text} {definition : Definition}
    (found : library.find? name = some definition) : definition.isSound = true :=
  library.sound definition (List.mem_of_find?_eq_some found)

end Library

end ComponentPages
