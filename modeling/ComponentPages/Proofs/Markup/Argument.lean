import ComponentPages.Proofs.Markup.Library

/-!
Arguments read from a printed tag are those that its attributes pass.
-/
namespace ComponentPages

namespace Argument

theorem substitute_constant {text : Text} (parts : ∀ c ∈ text, isConstantPart c = true) (scope : Scope) :
    Placeholder.substitute text scope = .ok text := by
  have sound : ∀ piece ∈ [Piece.text text], piece.isSound = true := by
    intro piece member
    rw [List.mem_singleton.1 member, Piece.isSound, List.all_eq_true]
    exact fun c inText => isTextPart_of_isConstantPart (parts c inText)
  have filled := Placeholder.substitute_printPieces sound scope
  simpa [printPieces, Piece.print, Piece.fill, List.mapM_cons, Except.map] using filled

theorem toOption_check (props : Props) (strict : Bool) (attr : Attribute) (value : Value) :
    (check props strict attr value).toOption = if accepts props strict attr.name value then some () else none := by
  unfold check accepts
  cases props.get? attr.name with
  | none => cases strict <;> rfl
  | some type =>
    dsimp only
    by_cases same : value.type = type
    · rw [if_pos same, if_pos (decide_eq_true same)]
      rfl
    · rw [if_neg same, if_neg (by simp [same])]
      rfl

theorem ofAttribute_of_value? {attr : Attribute} {caller : Scope} {props : Props} {value : Value}
    (read : value? caller props attr = .ok (some value)) (strict : Bool) :
    (ofAttribute caller props strict attr).toOption =
      (if accepts props strict attr.name value then some (attr.name, value) else none).map some := by
  have checked := toOption_check props strict attr value
  rw [ofAttribute, read]
  change (check props strict attr value >>= fun _ => .ok (some (attr.name, value))).toOption = _
  rw [toOption_bind, checked]
  split <;> rfl

theorem value?_constant {attr : Attribute} {quote : Char} {text : Text} (valued : attr.value = some (.quoted quote, text))
    (parts : ∀ c ∈ text, isConstantPart c = true) (caller : Scope) (props : Props) :
    value? caller props attr =
      match props.get? attr.name with
      | some .string | none => .ok (some (.string text))
      | some type => .error (.rawArgument attr.name type attr.raw) := by
  rw [value?, valued]
  dsimp only
  rw [substitute_constant parts caller]
  rfl

theorem ofAttribute_scanned {mention : Mention} (sound : mention.isSound = true) (caller : Scope) (props : Props)
    (strict : Bool) :
    (ofAttribute caller props strict mention.scanned).toOption = (mention.argument? props strict caller).map some := by
  simp only [Mention.isSound, Bool.and_eq_true] at sound
  have valued := sound.2
  rw [Mention.argument?]
  cases form : mention.written with
  | constant quote text =>
    rw [form] at valued
    simp only [Written.isSound, Bool.and_eq_true, List.all_eq_true] at valued
    have scanned : mention.scanned.value = some (.quoted quote, text) := by rw [Mention.scanned, form]; rfl
    have read := value?_constant scanned valued.2 caller props
    rw [show mention.scanned.name = mention.name from rfl] at read
    rw [Written.meaning, Option.bind_some]
    cases declared : props.get? mention.name with
    | none =>
      rw [declared] at read
      exact ofAttribute_of_value? read strict
    | some type =>
      rw [declared] at read
      cases type with
      | string => exact ofAttribute_of_value? read strict
      | int | boolean =>
        rw [ofAttribute, read, if_neg]
        · rfl
        · rw [accepts, declared]
          exact Bool.false_ne_true
  | expression text =>
    have scanned : mention.scanned.value = some (.braces, text) := by rw [Mention.scanned, form]; rfl
    have read : value? caller props mention.scanned = (Expression.evaluate text caller).map some := by
      rw [value?, scanned]
    rw [Written.meaning]
    cases evaluated : Expression.evaluate text caller with
    | error failure =>
      rw [evaluated] at read
      rw [ofAttribute, read]
      rfl
    | ok value =>
      rw [evaluated] at read
      exact ofAttribute_of_value? read strict

theorem foldlM_fill (strict : Bool) (props : Props) (given : Bindings Value) :
    (props.foldlM (fill strict) given).toOption =
      if strict && !props.all fun (name, _) => given.binds name then none else some (withZeros props given) := by
  induction props generalizing given with
  | nil => cases strict <;> rfl
  | cons prop props ih =>
    obtain ⟨name, type⟩ := prop
    have zeros : withZeros ((name, type) :: props) given =
        withZeros props (if given.binds name then given else given.set name (Value.zero type)) := rfl
    have every : (((name, type) :: props : Props).all fun (name, _) => given.binds name) =
        (given.binds name && props.all fun (name, _) => given.binds name) := rfl
    rw [List.foldlM_cons, toOption_bind, zeros, every, fill]
    dsimp only
    by_cases bound : given.binds name = true
    · rw [if_pos bound, if_pos bound, bound, Bool.true_and]
      exact ih given
    · rw [if_neg bound, if_neg bound]
      cases strict with
      | true => simp [bound, Except.toOption]
      | false => exact ih (given.set name (Value.zero type))

/-- The scope of a component's template is what the attributes of its tag pass. -/
theorem resolve_printed {mentions : List Mention} (sound : ∀ mention ∈ mentions, mention.isSound = true)
    (caller : Scope) (props : Props) (strict : Bool) :
    (resolve (Text.trim (mentions.flatMap Mention.print)) caller props strict).toOption =
      props.arguments? strict caller mentions := by
  have given : (mentions.map Mention.scanned).mapM
      (fun attr => (ofAttribute caller props strict attr).toOption) =
      (mentions.mapM (Mention.argument? props strict caller)).map (List.map some) := by
    induction mentions with
    | nil => rfl
    | cons mention mentions ih =>
      rw [List.map_cons, List.mapM_cons, List.mapM_cons, ofAttribute_scanned (sound mention List.mem_cons_self),
        ih fun other member => sound other (List.mem_cons_of_mem mention member)]
      cases mention.argument? props strict caller with
      | none => rfl
      | some first => cases mentions.mapM (Mention.argument? props strict caller) <;> rfl
  rw [resolve, Attribute.tokenize_trim sound, toOption_bind, toOption_mapM, given, Props.arguments?]
  cases mentions.mapM (Mention.argument? props strict caller) with
  | none => rfl
  | some arguments =>
    have kept : (arguments.map some).filterMap id = arguments := by simp [List.filterMap_map]
    rw [Option.map_some, Option.bind_some, Option.bind_some, kept]
    exact foldlM_fill strict props _

end Argument

end ComponentPages
