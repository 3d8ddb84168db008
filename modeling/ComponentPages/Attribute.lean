import ComponentPages.Bindings
import ComponentPages.Text.Nesting

/-!
Attributes of a tag head. Scanning keeps the spelling of every attribute, so that a head can be written again
without those that were consumed. A name whose value is missing at the end of the head yields no attribute.
-/
namespace ComponentPages

/-- How an attribute's value is set off. -/
inductive Quoting where
  | unquoted
  | quoted (quote : Char)
  | braces
deriving DecidableEq

structure Attribute where
  name : Text
  value : Option (Quoting × Text)
  raw : Text
deriving DecidableEq

namespace Attribute

/-- The text of the value, for an attribute that has one. -/
def text? (attr : Attribute) : Option Text := attr.value.map Prod.snd

def isNamePart (c : Char) : Bool := !isBlank c && c != '=' && c != '/' && c != '>'

/-- Reads a value from its first character on, and gives what follows. An unclosed value runs to the end. -/
def readValue (first : Char) (rest : Text) : (Quoting × Text) × Text :=
  if first = '\x7b' then
    match Nesting.close? '\x7b' '\x7d' ⟨none, 1⟩ rest with
    | some (inside, after) => ((.braces, inside), after)
    | none => ((.braces, rest), [])
  else if isQuote first then
    match Text.cut? first rest with
    | some (inside, after) => ((.quoted first, inside), after)
    | none => ((.quoted first, rest), [])
  else ((.unquoted, first :: rest.takeWhile (!isBlank ·)), rest.dropWhile (!isBlank ·))

/-- What stands at the front of a head. -/
inductive Step where
  | finished
  | valueless (name : Text)
  | skipped (rest : Text)
  | found (attr : Attribute) (rest : Text)

/-- Reads one attribute. White space is passed over, and so is a character that can start no name. -/
def step (head : Text) : Step :=
  match Text.trimLeft head with
  | [] => .finished
  | c :: tail =>
    if isNamePart c then
      let name := c :: tail.takeWhile isNamePart
      let afterName := tail.dropWhile isNamePart
      match Text.trimLeft afterName with
      | '=' :: afterEquals =>
        match Text.trimLeft afterEquals with
        | [] => .valueless name
        | first :: rest =>
          let (value, remainder) := readValue first rest
          .found ⟨name, some value, (c :: tail).take (tail.length + 1 - remainder.length)⟩ remainder
      | _ => .found ⟨name, none, name⟩ afterName
    else .skipped tail

theorem length_readValue_le (first : Char) (rest : Text) : (readValue first rest).2.length ≤ rest.length := by
  unfold readValue
  split
  · split
    · next closed => simp [Nesting.eq_of_close? closed]; omega
    · simp
  · split
    · split
      · next found =>
        have size := Text.length_of_cut? found
        dsimp only
        omega
      · simp
    · exact Text.length_dropWhile_le _ rest

theorem length_of_step_skipped {head rest : Text} (skips : step head = .skipped rest) :
    rest.length < head.length := by
  have blank := Text.length_dropWhile_le isBlank head
  unfold step at skips
  split at skips
  · simp at skips
  · next c tail start =>
    have size := congrArg List.length start
    simp only [Text.trimLeft, List.length_cons] at size
    dsimp only at skips
    split at skips
    · split at skips
      · split at skips <;> simp at skips
      · simp at skips
    · simp only [Step.skipped.injEq] at skips
      rw [← skips]
      omega

theorem length_of_step_found {head rest : Text} {attr : Attribute}
    (finds : step head = .found attr rest) : rest.length < head.length := by
  have blank := Text.length_dropWhile_le isBlank head
  unfold step at finds
  split at finds
  · simp at finds
  · next c tail start =>
    have size := congrArg List.length start
    simp only [Text.trimLeft, List.length_cons] at size
    have named := Text.length_dropWhile_le isNamePart tail
    dsimp only at finds
    split at finds
    · split at finds
      · next afterEquals equals =>
        have equalsSize := congrArg List.length equals
        have equalsBlank := Text.length_dropWhile_le isBlank (tail.dropWhile isNamePart)
        simp only [Text.trimLeft, List.length_cons] at equalsSize
        split at finds
        · simp at finds
        · next first value begins =>
          have valueSize := congrArg List.length begins
          have valueBlank := Text.length_dropWhile_le isBlank afterEquals
          have valueRest := length_readValue_le first value
          simp only [Text.trimLeft, List.length_cons] at valueSize
          simp only [Step.found.injEq] at finds
          rw [← finds.2]
          omega
      · simp only [Step.found.injEq] at finds
        rw [← finds.2]
        omega
    · simp at finds

/-- The attributes of a head in order, and the name at its end that lacks a value. -/
def scan (head : Text) : List Attribute × Option Text :=
  match _step : step head with
  | .finished => ([], none)
  | .valueless name => ([], some name)
  | .skipped rest => scan rest
  | .found attr rest =>
    let (attributes, valueless) := scan rest
    (attr :: attributes, valueless)
termination_by head.length
decreasing_by
  · exact length_of_step_skipped _step
  · exact length_of_step_found _step

def tokenize (head : Text) : List Attribute := (scan head).1

/-- The name at the end of a head that lacks a value. -/
def valueless? (head : Text) : Option Text := (scan head).2

/-- The valued attributes by name, the last value of a name counting. -/
def table (head : Text) : Bindings Text :=
  Bindings.ofList ((tokenize head).filterMap fun attr => attr.text?.map (attr.name, ·))

/-- The first attribute of a name. -/
def find? (name : Text) (attributes : List Attribute) : Option Attribute :=
  List.find? (fun attr => attr.name = name) attributes

end Attribute

end ComponentPages
