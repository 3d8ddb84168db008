import ComponentPages.Text.Basic

/-!
Patterns read a piece off the front of a text. A text falls into segments: single characters where the
pattern does not match, and hits where it does, the leftmost first. Searching, collecting and replacing all go
through the segments, which cover the text without overlap: joined again they are the text.
-/
namespace ComponentPages

/-- Reads a value off the front of a text and gives what follows it. -/
abbrev Pattern (α : Type) := Text → Option (α × Text)

inductive Segment (α : Type) where
  | plain (c : Char)
  | hit (source : Text) (value : α)

namespace Segment

variable {α : Type}

/-- The characters that the segment covers. -/
def source : Segment α → Text
  | .plain c => [c]
  | .hit source _ => source

def value? : Segment α → Option α
  | .plain _ => none
  | .hit _ value => some value

/-- The segment with a hit written anew. -/
def write (render : α → Text) : Segment α → Text
  | .plain c => [c]
  | .hit _ value => render value

end Segment

namespace Pattern

variable {α : Type}

/-- A nonempty run of characters of a class. -/
def run (class_ : Char → Bool) : Pattern Text := fun text =>
  match text.takeWhile class_ with
  | [] => none
  | found => some (found, text.dropWhile class_)

/-- An ASCII identifier. -/
def identifier : Pattern Text := fun
  | [] => none
  | c :: rest =>
    if isIdentifierStart c then some (c :: rest.takeWhile isIdentifierPart, rest.dropWhile isIdentifierPart)
    else none

/-- The segments of a text. A pattern that takes nothing counts as no match. -/
def segments (read : Pattern α) (text : Text) : List (Segment α) :=
  match text with
  | [] => []
  | c :: tail =>
    match read (c :: tail) with
    | some (value, rest) =>
      let taken := tail.length + 1 - rest.length
      if 0 < taken then .hit ((c :: tail).take taken) value :: segments read ((c :: tail).drop taken)
      else .plain c :: segments read tail
    | none => .plain c :: segments read tail
termination_by text.length

/-- The segments cover the text. -/
theorem flatMap_source_segments (read : Pattern α) (text : Text) :
    (segments read text).flatMap Segment.source = text := by
  fun_induction segments read text with
  | case1 => rfl
  | case2 c tail value rest found taken positive ih =>
    simp only [List.flatMap_cons, ih, Segment.source, List.take_append_drop]
  | case3 c tail value rest found taken nothing ih =>
    simp only [List.flatMap_cons, ih, Segment.source, List.singleton_append]
  | case4 c tail none ih =>
    simp only [List.flatMap_cons, ih, Segment.source, List.singleton_append]

/-- Segments with the offset at which each begins. -/
def located (offset : Nat) : List (Segment α) → List (Nat × Segment α)
  | [] => []
  | segment :: rest => (offset, segment) :: located (offset + segment.source.length) rest

/-- The values of all hits, from the left. -/
def values (read : Pattern α) (text : Text) : List α := (segments read text).filterMap Segment.value?

/-- Every hit replaced, everything else kept. -/
def replace (read : Pattern α) (write : α → Text) (text : Text) : Text :=
  (segments read text).flatMap (Segment.write write)

/-- The text without the hits. -/
def erase (read : Pattern α) (text : Text) : Text := replace read (fun _ => []) text

theorem length_erase_le (read : Pattern α) (text : Text) : (erase read text).length ≤ text.length := by
  have whole := congrArg List.length (flatMap_source_segments read text)
  have shorter : ∀ pieces : List (Segment α),
      (pieces.flatMap (Segment.write fun _ => [])).length ≤ (pieces.flatMap Segment.source).length := by
    intro pieces
    induction pieces with
    | nil => simp
    | cons piece pieces ih =>
      cases piece <;>
        simp only [List.flatMap_cons, List.length_append, Segment.write, Segment.source, List.length_nil] <;> omega
  have := shorter (segments read text)
  unfold erase replace
  omega

/-- The leftmost hit, with the text before it and the text after it. -/
def seek? (read : Pattern α) : Text → Option (Text × α × Text)
  | [] => none
  | c :: tail =>
    match read (c :: tail) with
    | some (value, rest) => some ([], value, rest)
    | none => (seek? read tail).map fun (before, value, rest) => (c :: before, value, rest)

/-- Whether a pattern always takes at least one character. -/
def Advances (read : Pattern α) : Prop :=
  ∀ text value rest, read text = some (value, rest) → rest.length < text.length

theorem run_advances (class_ : Char → Bool) : Advances (run class_) := by
  intro text value rest found
  have whole := congrArg List.length (List.takeWhile_append_dropWhile (p := class_) (l := text))
  unfold run at found
  split at found
  · simp at found
  · next empty =>
    simp only [Option.some.injEq, Prod.mk.injEq] at found
    have nonempty : 0 < (text.takeWhile class_).length := List.length_pos_iff.2 empty
    simp only [List.length_append] at whole
    rw [← found.2]
    omega

theorem identifier_advances : Advances identifier := by
  intro text value rest found
  unfold identifier at found
  split at found
  · simp at found
  · next c tail =>
    split at found
    · simp only [Option.some.injEq, Prod.mk.injEq] at found
      have shorter := Text.length_dropWhile_le isIdentifierPart tail
      rw [← found.2, List.length_cons]
      omega
    · simp at found

end Pattern

end ComponentPages
