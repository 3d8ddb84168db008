import ComponentPages.Proofs.Text
import ComponentPages.Script.Lowering

/-!
What lowered script does to the signals of a page. The runtime keeps a value for each signal; a declaring call
stores its value only for a signal that has none, and a setting call always stores it.
-/
namespace ComponentPages

/-- The signals that have a value. -/
abbrev SignalStore := Text → Option Text

/-- A call of the runtime that gives a signal a value. -/
structure RuntimeCall where
  declares : Bool
  name : Text
  value : Text
deriving DecidableEq

namespace RuntimeCall

def function (call : RuntimeCall) : Text := if call.declares then "signal" else "set"

def print (call : RuntimeCall) : Text := Script.call call.function call.name (some call.value)

/-- What one call does to the store. -/
def step (store : SignalStore) (call : RuntimeCall) : SignalStore :=
  if call.declares && (store call.name).isSome then store
  else Function.update store call.name (some call.value)

def run (store : SignalStore) (calls : List RuntimeCall) : SignalStore := calls.foldl step store

/-- Which call a text begins with, and what follows the quote in front of the name. -/
def opening? (text : Text) : Option (Bool × Text) :=
  ((Text.after? "gtml.signal('" text).map (true, ·)).or ((Text.after? "gtml.set('" text).map (false, ·))

/-- Reads a call whose value holds no parenthesis. -/
def read? : Pattern RuntimeCall := fun text => do
  let (declares, quoted) ← opening? text
  let (name, afterName) ← Text.cut? '\'' quoted
  let argument ← Text.after? ", " afterName
  let (value, rest) ← Text.cut? ')' argument
  some (⟨declares, name, value⟩, rest)

theorem length_of_opening? {text quoted : Text} {declares : Bool} (found : opening? text = some (declares, quoted)) :
    quoted.length ≤ text.length := by
  unfold opening? at found
  rcases Option.or_eq_some_iff.1 found with declared | ⟨-, set⟩
  · obtain ⟨rest, begins, same⟩ := Option.map_eq_some_iff.1 declared
    cases same
    have size := Text.length_of_after? begins
    omega
  · obtain ⟨rest, begins, same⟩ := Option.map_eq_some_iff.1 set
    cases same
    have size := Text.length_of_after? begins
    omega

theorem read?_advances : Pattern.Advances read? := by
  intro text call rest found
  simp only [read?, bind, Option.bind_eq_some_iff, Prod.exists, Option.some.injEq, Prod.mk.injEq] at found
  obtain ⟨declares, quoted, opened, name, afterName, named, argument, separated, value, remainder, valued, -, rfl⟩ :=
    found
  have first := length_of_opening? opened
  have second := Text.length_of_cut? named
  have third := Text.length_of_after? separated
  have fourth := Text.length_of_cut? valued
  omega

/-- The pieces of a text that consists of pieces and, between them, characters that are passed over. -/
def readEach? {α : Type} (read : Pattern α) (passed : Char → Bool) (text : Text) : Option (List α) :=
  match text with
  | [] => some []
  | c :: rest =>
    if passed c then readEach? read passed rest
    else
      match read (c :: rest) with
      | none => none
      | some (piece, later) =>
        if later.length < rest.length + 1 then (readEach? read passed later).map (piece :: ·) else none
termination_by text.length

/-- The calls of a script that consists of calls, semicolons and white space. -/
def readAll? (script : Text) : Option (List RuntimeCall) := readEach? read? (fun c => isBlank c || c == ';') script

/-- A call between white space and a semicolon. -/
def printStatement (lead : Text) (call : RuntimeCall) : Text := lead ++ call.print ++ [';']

theorem readAll?_space {space : Text} (blank : IsSpace space) (rest : Text) :
    readAll? (space ++ rest) = readAll? rest := by
  induction space with
  | nil => rfl
  | cons c space ih =>
    have here := blank c List.mem_cons_self
    rw [List.cons_append, readAll?, readEach?, here, Bool.true_or, if_pos rfl, ← readAll?,
      ih fun d member => blank d (List.mem_cons_of_mem c member)]

theorem print_append (call : RuntimeCall) (rest : Text) : call.print ++ rest =
    ("gtml." ++ call.function ++ "('" : Text) ++ (call.name ++ ("'" ++ (", " ++ (call.value ++ (")" ++ rest))))) := by
  unfold print Script.call
  dsimp only
  rw [List.append_assoc, List.append_assoc, List.append_assoc, List.append_assoc, List.append_assoc (", " : Text)]

theorem opening?_call (call : RuntimeCall) (rest : Text) :
    opening? (("gtml." ++ call.function ++ "('" : Text) ++ rest) = some (call.declares, rest) := by
  cases kind : call.declares with
  | true =>
    have front : Text.after? "gtml.signal('" (("gtml." ++ "signal" ++ "('" : Text) ++ rest) = some rest :=
      Text.after?_append "gtml.signal('" rest
    rw [opening?, function, if_pos kind, front]
    rfl
  | false =>
    have other : Text.after? "gtml.signal('" (("gtml." ++ "set" ++ "('" : Text) ++ rest) = none := rfl
    have front : Text.after? "gtml.set('" (("gtml." ++ "set" ++ "('" : Text) ++ rest) = some rest :=
      Text.after?_append "gtml.set('" rest
    rw [opening?, function, if_neg (by simp [kind]), other, front]
    rfl

theorem read?_print {call : RuntimeCall} (named : ∀ c ∈ call.name, c ≠ '\'') (valued : ∀ c ∈ call.value, c ≠ ')')
    (rest : Text) : read? (call.print ++ rest) = some (call, rest) := by
  have name : Text.cut? '\'' (call.name ++ ("'" ++ (", " ++ (call.value ++ (")" ++ rest))))) =
      some (call.name, ", " ++ (call.value ++ (")" ++ rest))) :=
    Text.cut?_append named _
  have argument : Text.after? ", " (", " ++ (call.value ++ (")" ++ rest))) = some (call.value ++ (")" ++ rest)) :=
    Text.after?_append ", " _
  have value : Text.cut? ')' (call.value ++ (")" ++ rest)) = some (call.value, rest) := Text.cut?_append valued rest
  rw [read?, print_append, opening?_call]
  simp only [Option.bind_eq_bind, Option.bind_some, name, argument, value]

theorem print_begins (call : RuntimeCall) : ∃ tail, call.print = 'g' :: tail := ⟨_, rfl⟩

theorem readAll?_statement {lead : Text} (blank : IsSpace lead) {call : RuntimeCall} (named : ∀ c ∈ call.name, c ≠ '\'')
    (valued : ∀ c ∈ call.value, c ≠ ')') (rest : Text) :
    readAll? (printStatement lead call ++ rest) = (readAll? rest).map (call :: ·) := by
  obtain ⟨tail, begins⟩ := print_begins call
  have here : read? ('g' :: (tail ++ ';' :: rest)) = some (call, ';' :: rest) := by
    rw [← List.cons_append, ← begins]
    exact read?_print named valued (';' :: rest)
  have shorter : (';' :: rest).length < (tail ++ ';' :: rest).length + 1 := read?_advances _ _ _ here
  have whole : printStatement lead call ++ rest = lead ++ 'g' :: (tail ++ ';' :: rest) := by
    rw [printStatement, begins]
    simp
  have solid : ¬(isBlank 'g' || 'g' == ';') = true := by decide
  rw [whole, readAll?_space blank, readAll?, readEach?, if_neg solid, here]
  dsimp only
  rw [if_pos shorter, readEach?]
  rfl

/-- A declaring call gives its signal a value if there is none. -/
theorem step_of_declares {call : RuntimeCall} (declares : call.declares = true) (store : SignalStore) (name : Text) :
    step store call name = (store name).or (if call.name = name then some call.value else none) := by
  unfold step
  rw [declares, Bool.true_and]
  by_cases same : call.name = name
  · subst same
    cases held : store call.name with
    | none => simp
    | some value => simp [held]
  · have other : Function.update store call.name (some call.value) name = store name :=
      Function.update_of_ne (Ne.symm same) _ _
    rw [if_neg same, Option.or_none]
    split
    · rfl
    · exact other

/-- Of several declarations of a signal the first one counts. -/
theorem run_of_declares {calls : List RuntimeCall} (declare : ∀ call ∈ calls, call.declares = true)
    (store : SignalStore) (name : Text) :
    run store calls name = (store name).or ((calls.find? fun call => call.name = name).map RuntimeCall.value) := by
  induction calls generalizing store with
  | nil => exact Option.or_none.symm
  | cons call calls ih =>
    have first := step_of_declares (declare call List.mem_cons_self) store name
    have later := ih (fun other member => declare other (List.mem_cons_of_mem call member)) (step store call)
    rw [run, List.foldl_cons, ← run, later, first, Option.or_assoc]
    congr 1
    by_cases same : call.name = name
    · simp [same]
    · simp [same]

end RuntimeCall

end ComponentPages
