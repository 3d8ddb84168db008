import ComponentPages.Proofs.Checked.Script

/-!
The lowering of a script, turn by turn. A turn of the loop lowers the lexeme at its position, with the handler or the
value that stands in it, and the loop goes on behind. Turns and rounds are written over the calls that they make, so that
the calls can be told from what is in their place. A call descends: what stands in a lexeme is shorter than the source,
and the loop moves on in the source that it has.
-/
namespace ComponentPages

theorem Lowering.run_needRuntime_bind {α : Type} (next : Lowering α) (found : Declarations) :
    (Script.needRuntime >>= fun _ => next).run.run found = next.run.run { found with usesRuntime := true } := by
  rw [run_bind]
  rfl

namespace Script

/-- A call of the lowering: a place in a source, the character before it and the number of open braces. -/
structure Call where
  nested : Bool
  before : Option Char
  braces : Int
  source : Text
  position : Nat
deriving DecidableEq

namespace Call

/-- The call that lowers a handler or a value. -/
def inner (source : Text) : Call := ⟨true, none, 0, source, 0⟩

def left (call : Call) : Text := call.source.drop call.position

/-- The call that goes on where a rest of the source starts. -/
def onward (call : Call) (before : Option Char) (braces : Int) (rest : Text) : Call :=
  { call with before, braces, position := call.source.length - rest.length }

/-- The lexeme at the place, and what is left behind it. -/
def lexeme? (call : Call) : Option (Lexeme × Text) :=
  match call.left with
  | [] => none
  | c :: tail => some (lexeme call.before c tail)

/-- Whether a write at the place declares its signal. -/
def isTop (call : Call) : Bool := !call.nested && call.braces == 0

end Call

/-- The lowering as a function of the call. -/
def answer (scope : Scope) (call : Call) : Lowering Text :=
  lowerFrom scope call.nested call.before call.braces call.left

section Rounds

variable (lower : Call → Lowering Text) (scope : Scope) (call : Call)

/-- The value of a write, copied from the scope or lowered. -/
def turnValue (operator : Option Char) (raw : Text) : Lowering Text :=
  match seed? scope call.isTop operator raw with
  | some literal => pure literal
  | none => lower (.inner raw)

/-- The script for the lexeme at the place, and the call that goes on behind it. -/
def turn (found : Lexeme) (rest : Text) : Lowering (Text × Call) :=
  match found with
  | .verbatim text => pure (text, call.onward text.getLast? call.braces rest)
  | .binding selector every event =>
    match close? '(' ')' .code 1 rest with
    | none => throw (.unclosedBinding event (call.left.take 60))
    | some (inside, after) => do
      let handler ← lower (.inner inside)
      let written := bindingCall selector every (Text.lower event) (Text.trim handler)
      pure (written, call.onward (afterBinding after).1 call.braces (afterBinding after).2)
  | .increment name up => do
    needRuntime
    pure (incrementCall name up, call.onward (some (if up then '+' else '-')) call.braces rest)
  | .write name operator =>
    let (value, after) := splitValue .code 0 rest
    if Text.trim value = [] then
      throw (.missingSignalValue name (call.left.take (call.left.length - after.length)))
    else do
      needRuntime
      let lowered ← turnValue lower scope call operator (Text.trim value)
      let written ← writeSignal call.isTop name (operated name operator lowered)
      pure (written, call.onward value.getLast? call.braces after)
  | .read name => do
    needRuntime
    pure (getCall name, call.onward name.getLast? call.braces rest)
  | .selector selector every =>
    pure (queryCall selector every, call.onward (if every then some '*' else selector.getLast?) call.braces rest)
  | .other d =>
    let braces := if d = '\x7b' then call.braces + 1 else if d = '\x7d' then call.braces - 1 else call.braces
    pure ([d], call.onward (some d) braces rest)

/-- One round of lowering: a turn, and what comes behind it. -/
def round : Lowering Text :=
  match call.lexeme? with
  | none => pure []
  | some (found, rest) => do
    let (script, next) ← turn lower scope call found rest
    pure (script ++ (← lower next))

end Rounds

/-- The lowering with something unknown in place of the calls that are nested deeper than the depth. -/
def unfold (unknown : Call → Lowering Text) (scope : Scope) : Nat → Call → Lowering Text
  | 0, call => unknown call
  | depth + 1, call => round (unfold unknown scope depth) scope call

section Turns

variable {call : Call} {found : Lexeme} {rest : Text}

theorem suffix_of_lexeme? (stands : call.lexeme? = some (found, rest)) :
    rest.length < call.left.length ∧ rest <:+ call.left := by
  unfold Call.lexeme? at stands
  cases left : call.left with
  | nil =>
    rw [left] at stands
    cases stands
  | cons c tail =>
    rw [left] at stands
    have taken := Option.some.inj stands
    have bound := length_lexeme_le call.before c tail
    rw [taken] at bound
    exact ⟨Nat.lt_succ_of_le bound, suffix_of_lexeme taken⟩

theorem answer_onward (left : rest <:+ call.left) (scope : Scope) (before : Option Char) (braces : Int) :
    answer scope (call.onward before braces rest) = lowerFrom scope call.nested before braces rest := by
  have place : (call.onward before braces rest).left = rest := Text.drop_of_suffix left
  rw [answer, place]
  rfl

theorem suffix_afterBinding (text : Text) : (afterBinding text).2 <:+ text := by
  obtain ⟨taken, whole, -⟩ := exists_afterBinding text
  exact ⟨taken, whole.symm⟩

theorem suffix_behind {inside after : Text} (closed : close? '(' ')' .code 1 rest = some (inside, after)) :
    (afterBinding after).2 <:+ rest :=
  (suffix_afterBinding after).trans (suffix_of_close? closed)

theorem answer_eq_round (scope : Scope) (call : Call) : answer scope call = round (answer scope) scope call := by
  unfold round Call.lexeme?
  cases stands : call.left with
  | nil => rw [answer, stands, lowerFrom]
  | cons c tail =>
    dsimp only
    rcases taken : lexeme call.before c tail with ⟨found, rest⟩
    have left : rest <:+ call.left := stands ▸ suffix_of_lexeme taken
    rw [answer, stands, lowerFrom_cons taken]
    dsimp only
    rw [turn.eq_def]
    cases found with
    | verbatim text =>
      dsimp only
      rw [pure_bind, answer_onward left]
    | binding selector every event =>
      dsimp only
      cases closed : close? '(' ')' .code 1 rest with
      | none =>
        rw [stands]
        rfl
      | some parts =>
        dsimp only
        rw [bind_assoc]
        refine bind_congr fun handler => ?_
        rw [pure_bind, answer_onward ((suffix_behind closed).trans left)]
    | increment name up =>
      dsimp only
      rw [bind_assoc]
      refine bind_congr fun _ => ?_
      rw [pure_bind, answer_onward left]
    | write name operator =>
      have behind : (splitValue .code 0 rest).2 <:+ call.left := .trans ⟨_, splitValue_append .code 0 rest⟩ left
      dsimp only
      by_cases missing : Text.trim (splitValue .code 0 rest).1 = []
      · rw [if_pos missing, if_pos missing, stands]
        rfl
      · rw [if_neg missing, if_neg missing, bind_assoc]
        refine bind_congr fun _ => ?_
        rw [bind_assoc, turnValue]
        change _ = (match seed? scope (!call.nested && call.braces == 0) operator _ with
          | some literal => pure literal
          | none => _) >>= _
        cases seed? scope (!call.nested && call.braces == 0) operator (Text.trim (splitValue .code 0 rest).1) with
        | some literal =>
          dsimp only
          refine bind_congr fun value => ?_
          rw [bind_assoc]
          refine bind_congr fun written => ?_
          rw [pure_bind, answer_onward behind]
        | none =>
          dsimp only
          refine bind_congr fun value => ?_
          rw [bind_assoc]
          refine bind_congr fun written => ?_
          rw [pure_bind, answer_onward behind]
    | read name =>
      dsimp only
      rw [bind_assoc]
      refine bind_congr fun _ => ?_
      rw [pure_bind, answer_onward left]
    | selector selector every =>
      dsimp only
      rw [pure_bind, answer_onward left]
    | other d =>
      dsimp only
      rw [pure_bind, answer_onward left]
      rfl

/-- Wherever a turn goes on, it is with a rest of the source that is shorter than what was left. -/
theorem turn_returns (lower : Call → Lowering Text) (scope : Scope) (stands : call.lexeme? = some (found, rest)) :
    (turn lower scope call found rest).Returns fun (_, next) => ∃ before braces after,
      after.length < call.left.length ∧ after <:+ call.left ∧ next = call.onward before braces after := by
  obtain ⟨shorter, left⟩ := suffix_of_lexeme? stands
  unfold turn
  cases found with
  | verbatim text => exact .pure ⟨_, _, rest, shorter, left, rfl⟩
  | binding selector every event =>
    dsimp only
    split
    · exact .throw _ _
    · next inside after closed =>
      have behind := suffix_behind closed
      exact (Lowering.Returns.any _).bind fun _ _ =>
        .pure ⟨_, _, _, Nat.lt_of_le_of_lt behind.length_le shorter, behind.trans left, rfl⟩
  | increment name up => exact (Lowering.Returns.any _).bind fun _ _ => .pure ⟨_, _, rest, shorter, left, rfl⟩
  | write name operator =>
    have behind : (splitValue .code 0 rest).2 <:+ rest := ⟨_, splitValue_append .code 0 rest⟩
    dsimp only
    split
    · exact .throw _ _
    · exact (Lowering.Returns.any _).bind fun _ _ => (Lowering.Returns.any _).bind fun _ _ =>
        (Lowering.Returns.any _).bind fun _ _ =>
          .pure ⟨_, _, _, Nat.lt_of_le_of_lt behind.length_le shorter, behind.trans left, rfl⟩
  | read name => exact (Lowering.Returns.any _).bind fun _ _ => .pure ⟨_, _, rest, shorter, left, rfl⟩
  | selector selector every => exact .pure ⟨_, _, rest, shorter, left, rfl⟩
  | other d => exact .pure ⟨_, _, rest, shorter, left, rfl⟩

end Turns

inductive CallKind where
  | inside | rest

/-- The calls that a call makes in a state, with the state that each of them starts in: for the handler of a binding,
for the value of a write, and for what is left behind a turn. -/
inductive Calls (scope : Scope) : CallKind → Call × Declarations → Call × Declarations → Prop
  | handler {call : Call} {state : Declarations} {selector event rest inside after : Text} {every : Bool}
    (stands : call.lexeme? = some (.binding selector every event, rest))
    (closed : close? '(' ')' .code 1 rest = some (inside, after)) :
    Calls scope .inside (.inner inside, state) (call, state)
  | value {call : Call} {state : Declarations} {name rest : Text} {operator : Option Char}
    (stands : call.lexeme? = some (.write name operator, rest)) (given : Text.trim (splitValue .code 0 rest).1 ≠ [])
    (unseeded : seed? scope call.isTop operator (Text.trim (splitValue .code 0 rest).1) = none) :
    Calls scope .inside (.inner (Text.trim (splitValue .code 0 rest).1), { state with usesRuntime := true })
      (call, state)
  | rest {call next : Call} {state later : Declarations} {found : Lexeme} {rest script : Text}
    (stands : call.lexeme? = some (found, rest))
    (turned : (turn (answer scope) scope call found rest).run.run state = (.ok (script, next), later)) :
    Calls scope .rest (next, later) (call, state)

/-- How a call is smaller than the one that makes it. -/
def CallKind.Descends (callee caller : Call) : CallKind → Prop
  | .inside => callee.nested = true ∧ callee.position = 0 ∧ callee.source.length < caller.source.length
  | .rest =>
    callee.nested = caller.nested ∧ callee.source = caller.source ∧ caller.position < callee.position ∧
      callee.position ≤ callee.source.length

section Descent

variable {scope : Scope} {kind : CallKind} {callee caller : Call} {start state : Declarations}

theorem length_left_le (call : Call) : call.left.length ≤ call.source.length := by
  rw [Call.left, List.length_drop]
  exact Nat.sub_le _ _

/-- What a call has left is shorter than what its caller has left. -/
theorem Calls.length_left (calls : Calls scope kind (callee, start) (caller, state)) :
    callee.left.length < caller.left.length := by
  cases calls with
  | @handler _ _ _ _ _ inside after _ stands closed =>
    have shorter := (suffix_of_lexeme? stands).1
    have parts := length_of_close? closed
    have whole := length_left_le (.inner inside)
    exact Nat.lt_of_le_of_lt whole (by dsimp only [Call.inner]; omega)
  | @value _ _ _ rest _ stands given unseeded =>
    have shorter := (suffix_of_lexeme? stands).1
    have sizes := length_splitValue .code 0 rest
    have trimmed := Text.length_trim_le (splitValue .code 0 rest).1
    have whole := length_left_le (.inner (Text.trim (splitValue .code 0 rest).1))
    exact Nat.lt_of_le_of_lt whole (by dsimp only [Call.inner]; omega)
  | rest stands turned =>
    obtain ⟨before, braces, after, shorter, left, rfl⟩ := turn_returns _ _ stands _ _ (by rw [turned])
    rwa [show (caller.onward before braces after).left = after from Text.drop_of_suffix left]

theorem Calls.descends (calls : Calls scope kind (callee, start) (caller, state)) : kind.Descends callee caller := by
  have shorter := calls.length_left
  have within := length_left_le caller
  cases calls with
  | handler stands closed => exact ⟨rfl, rfl, Nat.lt_of_lt_of_le shorter within⟩
  | value stands given unseeded => exact ⟨rfl, rfl, Nat.lt_of_lt_of_le shorter within⟩
  | rest stands turned =>
    obtain ⟨before, braces, after, less, left, rfl⟩ := turn_returns _ _ stands _ _ (by rw [turned])
    have size : caller.left.length = caller.source.length - caller.position := List.length_drop
    refine ⟨rfl, rfl, ?_, Nat.sub_le _ _⟩
    dsimp only [Call.onward]
    omega

/-- A round is told by its calls, each in the state that it starts in: what is in place of the lowering elsewhere is of
no consequence. -/
theorem run_round_congr {call : Call} {lower : Call → Lowering Text}
    (same : ∀ kind callee start, Calls scope kind (callee, start) (call, state) →
      (lower callee).run.run start = (answer scope callee).run.run start) :
    (round lower scope call).run.run state = (round (answer scope) scope call).run.run state := by
  unfold round
  cases stands : call.lexeme? with
  | none => rfl
  | some pair =>
    obtain ⟨found, rest⟩ := pair
    have turns : (turn lower scope call found rest).run.run state =
        (turn (answer scope) scope call found rest).run.run state := by
      unfold turn
      cases found with
      | binding selector every event =>
        dsimp only
        cases closed : close? '(' ')' .code 1 rest with
        | none => rfl
        | some parts =>
          dsimp only
          rw [Lowering.run_bind, Lowering.run_bind, same _ _ _ (.handler stands closed)]
      | write name operator =>
        dsimp only
        by_cases missing : Text.trim (splitValue .code 0 rest).1 = []
        · rw [if_pos missing, if_pos missing]
        · rw [if_neg missing, if_neg missing, Lowering.run_needRuntime_bind, Lowering.run_needRuntime_bind,
            Lowering.run_bind, Lowering.run_bind]
          unfold turnValue
          cases unseeded : seed? scope call.isTop operator (Text.trim (splitValue .code 0 rest).1) with
          | some literal => rfl
          | none =>
            dsimp only
            rw [same _ _ _ (.value stands missing unseeded)]
      | _ => rfl
    dsimp only
    rw [Lowering.run_bind, Lowering.run_bind, turns]
    cases turned : (turn (answer scope) scope call found rest).run.run state with
    | mk outcome later =>
      cases outcome with
      | error failure => rfl
      | ok result =>
        dsimp only
        rw [Lowering.run_bind, Lowering.run_bind, same _ _ _ (.rest stands turned)]

/-- A lowering is unfolded by more rounds in a row than there are characters left. -/
theorem unfold_eq {depth : Nat} {call : Call} (deep : call.left.length < depth) (unknown : Call → Lowering Text) :
    unfold unknown scope depth call = answer scope call := by
  induction depth generalizing call with
  | zero => exact absurd deep (Nat.not_lt_zero _)
  | succ depth ih =>
    rw [unfold, answer_eq_round]
    apply ExceptT.ext
    funext state
    refine run_round_congr fun kind callee start calls => ?_
    rw [ih (Nat.lt_of_lt_of_le calls.length_left (Nat.le_of_lt_succ deep))]

end Descent

end Script

/-- Whatever was found before, the lowering fails with one kind of failure only. -/
def Lowering.FailsAs {α : Type} (kind : FailureKind) (lowering : Lowering α) : Prop :=
  ∀ found failure, (lowering.run.run found).1 = .error failure → failure.kind = kind

namespace Lowering.FailsAs

variable {α β : Type} {kind : FailureKind}

theorem pure (value : α) : FailsAs kind (Pure.pure value) := by
  rintro found failure ⟨⟩

theorem throw {failure : Failure} (known : failure.kind = kind) : FailsAs kind (throw failure : Lowering α) := by
  rintro found failure ⟨⟩
  exact known

theorem bind {first : Lowering α} (fails : FailsAs kind first) {second : α → Lowering β}
    (next : ∀ value, FailsAs kind (second value)) : FailsAs kind (first >>= second) := by
  intro found failure ends
  rw [run_bind] at ends
  cases ran : first.run.run found with
  | mk outcome later =>
    rw [ran] at ends
    cases outcome with
    | error failed =>
      cases ends
      exact fails found _ (by rw [ran])
    | ok value => exact next value later failure ends

end Lowering.FailsAs

namespace Script

open Lowering (FailsAs)

theorem failsAs_needRuntime : FailsAs .scriptSyntax needRuntime := by
  rintro found failure ⟨⟩

theorem failsAs_writeSignal (topLevel : Bool) (name value : Text) :
    FailsAs .scriptSyntax (writeSignal topLevel name value) := by
  rintro found failure ends
  cases topLevel <;> cases ends

theorem failsAs_lowerFrom (scope : Scope) (nested : Bool) (before : Option Char) (braces : Int) (source : Text) :
    FailsAs .scriptSyntax (lowerFrom scope nested before braces source) := by
  fun_induction lowerFrom scope nested before braces source with
  | case1 => exact .pure []
  | case2 nested before braces c tail rest text taken _ shorter ih => exact ih.bind fun _ => .pure _
  | case3 => exact .throw rfl
  | case4 nested before braces c tail rest selector every event taken inside after closed parts remainder _ shorter
      handler others => exact handler.bind fun _ => others.bind fun _ => .pure _
  | case5 nested before braces c tail rest name up taken _ shorter ih =>
    exact failsAs_needRuntime.bind fun _ => ih.bind fun _ => .pure _
  | case6 => exact .throw rfl
  | case7 nested before braces c tail rest name operator taken sizes trimmed parts raw topLevel some _ shorter others
      value =>
    refine failsAs_needRuntime.bind fun _ => ?_
    split
    · exact (FailsAs.pure _).bind fun _ => (failsAs_writeSignal _ _ _).bind fun _ => others.bind fun _ => .pure _
    · exact value.bind fun _ => (failsAs_writeSignal _ _ _).bind fun _ => others.bind fun _ => .pure _
  | case8 nested before braces c tail rest name taken _ shorter ih =>
    exact failsAs_needRuntime.bind fun _ => ih.bind fun _ => .pure _
  | case9 nested before braces c tail rest selector every taken last _ shorter ih => exact ih.bind fun _ => .pure _
  | case10 nested before braces c tail rest d taken outer _ shorter ih => exact ih.bind fun _ => .pure _

/-- What a translator is asked for: to lower a script, or the body of a handler. -/
inductive Request where
  | script (nested : Bool) (source : Text)
  | handler (body : Text)
deriving DecidableEq

namespace Request

def lowering (scope : Scope) : Request → Lowering Text
  | .script nested source => lower scope nested source
  | .handler body => lowerHandler scope body

def call : Request → Call
  | .script nested source => ⟨nested, none, 0, source, 0⟩
  | .handler body => .inner (Text.trim body)

/-- A request makes one call, and nothing can fail or be found after it. -/
theorem lowering_eq (scope : Scope) (request : Request) :
    ∃ finish : Text → Text, request.lowering scope = finish <$> answer scope request.call := by
  cases request with
  | script nested source => exact ⟨id, (id_map _).symm⟩
  | handler body =>
    refine ⟨fun lowered => if isFunction (Text.trim body) then lowered else
      "function(event) \x7b " ++ lowered ++ " \x7d", ?_⟩
    rw [map_eq_pure_bind]
    refine bind_congr fun lowered => ?_
    split <;> rfl

theorem failsAs_lowering (scope : Scope) (request : Request) : FailsAs .scriptSyntax (request.lowering scope) := by
  obtain ⟨finish, whole⟩ := request.lowering_eq scope
  rw [whole, map_eq_pure_bind]
  exact (failsAs_lowerFrom scope _ _ _ _).bind fun _ => .pure _

end Request

/-- Lowering ends on every source. The calls descend: a turn of the loop moves the position on, and what stands in a
lexeme is shorter than the source. A round makes no other calls, so that unfolding it as often as there are characters
left comes to the lowering, whatever is in place of the calls beyond. On indices into the source no operation of the
loop is undefined and no turn stays where it is. What a request comes to is a script or a syntax failure. -/
theorem lowering_finishes (scope : Scope) :
    (∀ kind callee caller start state, Calls scope kind (callee, start) (caller, state) →
      kind.Descends callee caller ∧ callee.left.length < caller.left.length) ∧
    (∀ call state lower, (∀ kind callee start, Calls scope kind (callee, start) (call, state) →
        (lower callee).run.run start = (answer scope callee).run.run start) →
      (round lower scope call).run.run state = (answer scope call).run.run state) ∧
    (∀ call depth unknown, call.left.length < depth → unfold unknown scope depth call = answer scope call) ∧
    (∀ call : Call, Checked.lowerAt scope call.nested call.source call.before call.braces call.position =
      Guarded.embed (answer scope call)) ∧
    (∀ body, Checked.lowerHandler scope body = Guarded.embed (lowerHandler scope body)) ∧
    ∀ request : Request,
      (∃ finish : Text → Text, request.lowering scope = finish <$> answer scope request.call) ∧
      ∀ found, (∃ script, ((request.lowering scope).run.run found).1 = .ok script) ∨
        ∃ failure, ((request.lowering scope).run.run found).1 = .error failure ∧ failure.kind = .scriptSyntax := by
  refine ⟨?_, ?_, ?_, ?_, Checked.lowerHandler_eq scope, ?_⟩
  · intro kind callee caller start state calls
    exact ⟨calls.descends, calls.length_left⟩
  · intro call state lower same
    rw [run_round_congr same, ← answer_eq_round]
  · intro call depth unknown deep
    exact unfold_eq deep unknown
  · intro call
    exact Checked.lowerAt_eq scope call.nested call.source call.before call.braces call.position
  · intro request
    refine ⟨request.lowering_eq scope, fun found => ?_⟩
    cases ended : ((request.lowering scope).run.run found).1 with
    | error failure => exact .inr ⟨failure, rfl, request.failsAs_lowering scope found failure ended⟩
    | ok script => exact .inl ⟨script, rfl⟩

end Script

end ComponentPages
