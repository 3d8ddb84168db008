import ComponentPages.Text.Class

/-!
Texts and the elementary operations on them. A text is a list of characters, so every offset and length
counts characters.
-/
namespace ComponentPages

abbrev Text := List Char

instance : Coe String Text := ⟨String.toList⟩

namespace Text

def trimLeft (text : Text) : Text := text.dropWhile isBlank

def trimRight (text : Text) : Text := (text.reverse.dropWhile isBlank).reverse

/-- The text without white space at its two ends. -/
def trim (text : Text) : Text := trimRight (trimLeft text)

/-- The characters from one offset up to another. -/
def slice (text : Text) (start stop : Nat) : Text := (text.take stop).drop start

/-- What follows a given beginning, if the text has it. -/
def after? : (beginning text : Text) → Option Text
  | [], text => some text
  | _ :: _, [] => none
  | c :: beginning, d :: text => if c = d then after? beginning text else none

/-- As `after?`, but letters match in either case; the beginning is written in lower case. -/
def afterFolded? : (beginning text : Text) → Option Text
  | [], text => some text
  | _ :: _, [] => none
  | c :: beginning, d :: text => if matchesLetter c d then afterFolded? beginning text else none

def startsWith (beginning text : Text) : Bool := (after? beginning text).isSome

def endsWith (ending text : Text) : Bool := startsWith ending.reverse text.reverse

/-- The text before the first occurrence of a character, and the text after it. -/
def cut? (stop : Char) : Text → Option (Text × Text)
  | [] => none
  | c :: text =>
    if c = stop then some ([], text)
    else (cut? stop text).map fun (before, rest) => (c :: before, rest)

/-- The pieces between the occurrences of a separating character; always at least one. -/
def pieces (separator : Char) : Text → List Text
  | [] => [[]]
  | c :: text =>
    if c = separator then [] :: pieces separator text
    else
      match pieces separator text with
      | [] => [[c]]
      | piece :: rest => (c :: piece) :: rest

theorem length_dropWhile_le (p : Char → Bool) (text : Text) : (text.dropWhile p).length ≤ text.length :=
  (List.dropWhile_suffix p).length_le

theorem length_trimLeft_le (text : Text) : (trimLeft text).length ≤ text.length :=
  length_dropWhile_le isBlank text

theorem length_trim_le (text : Text) : (trim text).length ≤ text.length := by
  have right := length_dropWhile_le isBlank (trimLeft text).reverse
  have left := length_trimLeft_le text
  simp only [trim, trimRight, List.length_reverse] at right ⊢
  omega

theorem length_of_after? {beginning text rest : Text} (found : after? beginning text = some rest) :
    text.length = beginning.length + rest.length := by
  induction beginning generalizing text with
  | nil => simp_all [after?]
  | cons c beginning ih =>
    cases text with
    | nil => simp [after?] at found
    | cons d text =>
      simp only [after?] at found
      split at found
      · simp [ih found]; omega
      · simp at found

theorem length_of_cut? {stop : Char} {text before after : Text} (found : cut? stop text = some (before, after)) :
    text.length = before.length + 1 + after.length := by
  induction text generalizing before with
  | nil => simp [cut?] at found
  | cons c rest ih =>
    unfold cut? at found
    split at found
    · simp only [Option.some.injEq, Prod.mk.injEq] at found
      obtain ⟨rfl, rfl⟩ := found
      simp; omega
    · obtain ⟨⟨first, second⟩, later, same⟩ := Option.map_eq_some_iff.1 found
      simp only [Prod.mk.injEq] at same
      obtain ⟨rfl, rfl⟩ := same
      simp only [List.length_cons, ih later]
      omega

/-- The maximal runs without white space. -/
def words (text : Text) : List Text :=
  match _start : trimLeft text with
  | [] => []
  | c :: rest =>
    (c :: rest.takeWhile (!isBlank ·)) :: words (rest.dropWhile (!isBlank ·))
termination_by text.length
decreasing_by
  have word := length_dropWhile_le (!isBlank ·) rest
  have blank := length_dropWhile_le isBlank text
  have shorter := congrArg List.length _start
  simp only [trimLeft, List.length_cons] at shorter
  omega

/-- Every occurrence of one nonempty text, from the left, replaced by another. -/
def replace (old new : Text) (text : Text) : Text :=
  match text with
  | [] => []
  | c :: rest =>
    match after? old (c :: rest) with
    | some remainder =>
      if remainder.length < rest.length + 1 then new ++ replace old new remainder
      else c :: replace old new rest
    | none => c :: replace old new rest
termination_by text.length

/-- Every occurrence of a character replaced by a text. -/
def replaceChar (old : Char) (new : Text) (text : Text) : Text :=
  text.flatMap fun c => if c = old then new else [c]

def contains (needle text : Text) : Bool :=
  match text with
  | [] => needle.isEmpty
  | c :: rest => startsWith needle (c :: rest) || contains needle rest

def ofNat (n : Nat) : Text := Nat.toDigits 10 n

def ofInt : Int → Text
  | .ofNat n => ofNat n
  | .negSucc n => '-' :: ofNat (n + 1)

/-- Reads a nonempty run of ASCII digits. -/
def toNat? (text : Text) : Option Nat :=
  if text.isEmpty || !text.all Char.isDigit then none
  else some (text.foldl (fun n c => 10 * n + (c.toNat - 48)) 0)

/-- Order by code points, a beginning before its continuations. -/
def before : Text → Text → Bool
  | [], [] => false
  | [], _ :: _ => true
  | _ :: _, [] => false
  | c :: text, d :: other => c.toNat < d.toNat || (c == d && before text other)

def atMost (text other : Text) : Bool := !before other text

/-- Whether a text is one or more ASCII letters, digits and underscores that do not start with a digit. -/
def isIdentifier : Text → Bool
  | [] => false
  | c :: rest => isIdentifierStart c && rest.all isIdentifierPart

/-- A capital sigma ends a word when a cased character stands before it and none after it, looking past
ignorable characters. -/
def sigmaIsFinal (before after : Text) : Bool :=
  let nearest (side : Text) := (side.dropWhile fun c => withinEdges caseIgnorableEdges c.toNat).head?
  (nearest before).any (fun c => withinEdges casedEdges c.toNat) &&
    !(nearest after).any (fun c => withinEdges casedEdges c.toNat)

/-- Lower case of a text that follows the given characters, nearest first. -/
def lowerAfter (before : Text) : Text → Text
  | [] => []
  | c :: rest =>
    let lowered : Text :=
      if c.toNat == 0x130 then ['i', Char.ofNat 0x307]
      else if c.toNat == 0x3A3 then [if sigmaIsFinal before rest then Char.ofNat 0x3C2 else Char.ofNat 0x3C3]
      else [lowerChar c]
    lowered ++ lowerAfter (c :: before) rest

/-- Full lower case, with the final form of sigma. -/
def lower (text : Text) : Text := lowerAfter [] text

end Text

end ComponentPages
