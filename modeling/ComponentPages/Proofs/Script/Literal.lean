import ComponentPages.Text.Quoted
import ComponentPages.Proofs.Text

/-!
String literals of browser script. A literal denotes a sequence of UTF-16 code units; `string?` reads one from behind its
opening quote, with all escapes of strict script. A text that is escaped character by character, and in which `</` is then
written `<\/`, is read back as the text it was, up to the quote that closes the literal.
-/
namespace ComponentPages

namespace Text

/-- The UTF-16 code units of a text. -/
def units (text : Text) : List Nat := text.flatMap units16

end Text

namespace Script

/-! ### Reading a literal -/

def hexDigit? (c : Char) : Option Nat :=
  if c.isDigit then some (c.toNat - 48)
  else if 97 ≤ c.toNat ∧ c.toNat ≤ 102 then some (c.toNat - 87)
  else if 65 ≤ c.toNat ∧ c.toNat ≤ 70 then some (c.toNat - 55)
  else none

/-- The number that hexadecimal digits write. -/
def hexValue? (digits : Text) : Option Nat := digits.foldlM (fun n c => (hexDigit? c).map (16 * n + ·)) 0

/-- Reads a number of a fixed count of digits. -/
def fixedHex? (width : Nat) (text : Text) : Option (Nat × Text) :=
  if text.length < width then none else (hexValue? (text.take width)).map fun number => (number, text.drop width)

/-- Reads a code point up to the brace that closes it. -/
def bracedHex? (text : Text) : Option (Nat × Text) := do
  let (digits, rest) ← Text.cut? '\x7d' text
  let code ← hexValue? digits
  if digits = [] ∨ 0x10FFFF < code then none else some (code, rest)

/-- The code units of a code point, which may be half of a surrogate pair. -/
def unitsOfCode (code : Nat) : List Nat :=
  if code < 0x10000 then [code] else [0xD800 + (code - 0x10000) / 0x400, 0xDC00 + (code - 0x10000) % 0x400]

/-- The code units of a character behind a backslash that has no rule of its own. -/
def escapedUnits (c : Char) : List Nat :=
  if c = 'b' then [8] else if c = 't' then [9] else if c = 'n' then [10] else if c = 'v' then [11]
  else if c = 'f' then [12] else if c = 'r' then [13] else Text.units16 c

/-- Whether a backslash takes a line break out of a literal. -/
def isLineEnd (c : Char) : Bool := c == '\n' || c == '\r' || c.toNat == 0x2028 || c.toNat == 0x2029

/-- Reads what stands behind a backslash. -/
def escape? : Text → Option (List Nat × Text)
  | [] => none
  | 'x' :: rest => (fixedHex? 2 rest).map fun (unit, rest) => ([unit], rest)
  | 'u' :: '\x7b' :: rest => (bracedHex? rest).map fun (code, rest) => (unitsOfCode code, rest)
  | 'u' :: rest => (fixedHex? 4 rest).map fun (unit, rest) => ([unit], rest)
  | '\r' :: '\n' :: rest => some ([], rest)
  | c :: rest =>
    if isLineEnd c then some ([], rest)
    else if c.isDigit then
      -- A zero alone is an escape; other digits behind a backslash are refused in strict script.
      if c = '0' ∧ !rest.head?.any Char.isDigit then some ([0], rest) else none
    else some (escapedUnits c, rest)

theorem length_of_fixedHex? {width number : Nat} {text rest : Text} (found : fixedHex? width text = some (number, rest)) :
    rest.length ≤ text.length := by
  unfold fixedHex? at found
  split at found
  · cases found
  · obtain ⟨value, -, same⟩ := Option.map_eq_some_iff.1 found
    cases same
    simp

theorem length_of_bracedHex? {code : Nat} {text rest : Text} (found : bracedHex? text = some (code, rest)) :
    rest.length ≤ text.length := by
  simp only [bracedHex?, bind, Option.bind_eq_some_iff, Prod.exists] at found
  obtain ⟨digits, after, cut, number, -, ending⟩ := found
  have size := Text.length_of_cut? cut
  split at ending
  · cases ending
  · cases ending
    omega

theorem length_of_escape? {text rest : Text} {units : List Nat} (found : escape? text = some (units, rest)) :
    rest.length ≤ text.length := by
  unfold escape? at found
  split at found
  · cases found
  · obtain ⟨⟨unit, after⟩, fixed, same⟩ := Option.map_eq_some_iff.1 found
    cases same
    exact Nat.le_succ_of_le (length_of_fixedHex? fixed)
  · obtain ⟨⟨code, after⟩, braced, same⟩ := Option.map_eq_some_iff.1 found
    cases same
    have size := length_of_bracedHex? braced
    simp only [List.length_cons]
    omega
  · obtain ⟨⟨unit, after⟩, fixed, same⟩ := Option.map_eq_some_iff.1 found
    cases same
    exact Nat.le_succ_of_le (length_of_fixedHex? fixed)
  · cases found
    simp only [List.length_cons]
    omega
  · split at found
    · cases found
      exact Nat.le_succ _
    · split at found
      · split at found
        · cases found
          exact Nat.le_succ _
        · cases found
      · cases found
        exact Nat.le_succ _

/-- Reads a literal from behind its opening quote: its code units, and what stands behind its closing quote. A line break
ends no literal and stands in none. -/
def string? (quote : Char) (text : Text) : Option (List Nat × Text) :=
  match text with
  | [] => none
  | c :: rest =>
    if c = quote then some ([], rest)
    else if c = '\n' ∨ c = '\r' then none
    else if c = '\\' then
      match _escaped : escape? rest with
      | none => none
      | some (units, after) => (string? quote after).map fun (later, remainder) => (units ++ later, remainder)
    else (string? quote rest).map fun (later, remainder) => (Text.units16 c ++ later, remainder)
termination_by text.length
decreasing_by
  · have size := length_of_escape? _escaped
    simp only [List.length_cons]
    omega
  · simp

/-! ### Reading back what was written -/

/-- What is written is read as the given code units, whatever follows. -/
def Reads (quote : Char) (written : Text) (units : List Nat) : Prop :=
  ∀ more, string? quote (written ++ more) = (string? quote more).map fun (later, rest) => (units ++ later, rest)

section Reading

variable {quote : Char} {first second : Text} {units others : List Nat}

theorem string?_end (quote : Char) (rest : Text) : string? quote (quote :: rest) = some ([], rest) := by
  rw [string?, if_pos rfl]

theorem reads_nil (quote : Char) : Reads quote [] [] := by
  intro more
  simp

theorem Reads.append (here : Reads quote first units) (later : Reads quote second others) :
    Reads quote (first ++ second) (units ++ others) := by
  intro more
  rw [List.append_assoc, here, later, Option.map_map]
  congr 1
  funext found
  simp only [Function.comp_apply, List.append_assoc]

/-- A character that stands for itself. -/
theorem reads_plain {c : Char} (other : c ≠ quote) (inLine : c ≠ '\n' ∧ c ≠ '\r') (solid : c ≠ '\\') :
    Reads quote [c] (Text.units16 c) := by
  intro more
  rw [List.singleton_append, string?, if_neg other, if_neg (by tauto), if_neg solid]

/-- A backslash with what it escapes. -/
theorem reads_escaped {written : Text} (open_ : quote ≠ '\\')
    (escapes : ∀ more, escape? (written ++ more) = some (units, more)) : Reads quote ('\\' :: written) units := by
  intro more
  rw [List.cons_append, string?, if_neg (Ne.symm open_), if_neg (by decide), if_pos rfl]
  split
  · next failed =>
    rw [escapes] at failed
    cases failed
  · next read =>
    rw [escapes] at read
    cases read
    rfl

theorem escape?_solidus (more : Text) : escape? ('/' :: more) = some (Text.units16 '/', more) := by
  rw [escape?]
  · rfl
  all_goals simp

/-- A literal is closed by the first quote behind what was read of it. -/
theorem Reads.string? (reads : Reads quote first units) (rest : Text) :
    string? quote (first ++ quote :: rest) = some (units, rest) := by
  rw [reads, string?_end]
  simp

end Reading

end Script

namespace Text

section Slashes

variable (c : Char) (rest : Text)

theorem replace_slash : replace "</" "<\\/" ('<' :: '/' :: rest) = "<\\/" ++ replace "</" "<\\/" rest := by
  have found : after? "</" ('<' :: '/' :: rest) = some rest := rfl
  rw [replace, found]
  exact if_pos (by simp only [List.length_cons]; omega)

theorem replace_cons {c : Char} {rest : Text} (apart : c = '<' → rest.head? ≠ some '/') :
    replace "</" "<\\/" (c :: rest) = c :: replace "</" "<\\/" rest := by
  have missing : after? "</" (c :: rest) = none := by
    cases found : after? "</" (c :: rest) with
    | none => rfl
    | some remainder =>
      obtain ⟨rfl, same⟩ := List.cons.inj (eq_of_after? found)
      exact absurd (congrArg List.head? same) (apart rfl)
  rw [replace, missing]

theorem replace_append {written : Text} (free : '<' ∉ written) (rest : Text) :
    replace "</" "<\\/" (written ++ rest) = written ++ replace "</" "<\\/" rest := by
  induction written with
  | nil => rfl
  | cons c written ih =>
    simp only [List.mem_cons, not_or] at free
    rw [List.cons_append, replace_cons fun same => absurd same.symm free.1, ih free.2, List.cons_append]

theorem head?_replace (text : Text) : (replace "</" "<\\/" text).head? = text.head? := by
  fun_induction replace "</" "<\\/" text with
  | case1 => rfl
  | case2 c rest remainder found _ _ =>
    rw [eq_of_after? found]
    rfl
  | case3 => rfl
  | case4 => rfl

end Slashes

/-- No slash stands behind an angle bracket after the replacement. -/
theorem replace_ne_slash (text before after : Text) : replace "</" "<\\/" text ≠ before ++ '<' :: '/' :: after := by
  fun_induction replace "</" "<\\/" text generalizing before with
  | case1 => simp
  | case2 c rest remainder found _ ih =>
    intro same
    have split : ("<\\/" : Text) ++ replace "</" "<\\/" remainder = '<' :: '\\' :: '/' :: replace "</" "<\\/" remainder := rfl
    rw [split] at same
    rcases before with _ | ⟨a, _ | ⟨b, _ | ⟨d, before⟩⟩⟩
    · simp at same
    · simp at same
    · simp at same
    · simp only [List.cons_append, List.cons.injEq] at same
      exact ih before same.2.2.2
  | case3 c rest remainder found longer _ =>
    have size := length_of_after? found
    simp only [List.length_cons] at size longer
    have two : ("</" : Text).length = 2 := rfl
    omega
  | case4 c rest missing ih =>
    intro same
    cases before with
    | nil =>
      simp only [List.nil_append, List.cons.injEq] at same
      obtain ⟨rfl, later⟩ := same
      have head := head?_replace rest
      rw [later, List.head?_cons] at head
      obtain ⟨tail, rfl⟩ : ∃ tail, rest = '/' :: tail := by
        cases rest with
        | nil => simp at head
        | cons d tail => exact ⟨tail, by rw [List.head?_cons] at head; rw [Option.some.inj head]⟩
      have found : after? "</" ('<' :: '/' :: tail) = some tail := rfl
      rw [found] at missing
      cases missing
    | cons d before => exact ih before (List.cons.inj same).2

end Text

namespace Script

/-- A way to write single characters in a literal: each is read back, and angle brackets and slashes stand as they are. -/
structure Escapes (quote : Char) (write : Char → Text) : Prop where
  reads : ∀ c, Reads quote (write c) (Text.units16 c)
  angle : write '<' = ['<']
  slash : write '/' = ['/']
  free : ∀ c, c ≠ '<' → '<' ∉ write c
  begins : ∀ c, c ≠ '/' → (write c).head? ≠ some '/' ∧ write c ≠ []

/-- A text is read back from its characters, with the backslashes that keep a script element open. -/
theorem Escapes.reads_replace {quote : Char} {write : Char → Text} (escapes : Escapes quote write) (open_ : quote ≠ '\\')
    (text : Text) : Reads quote (Text.replace "</" "<\\/" (text.flatMap write)) text.units := by
  have step (c : Char) {rest : Text} (apart : c = '<' → rest.head? ≠ some '/')
      (later : Reads quote (Text.replace "</" "<\\/" (rest.flatMap write)) rest.units) :
      Reads quote (Text.replace "</" "<\\/" ((c :: rest).flatMap write)) (Text.units (c :: rest)) := by
    have split : Text.replace "</" "<\\/" ((c :: rest).flatMap write) =
        write c ++ Text.replace "</" "<\\/" (rest.flatMap write) := by
      rw [List.flatMap_cons]
      by_cases angle : c = '<'
      · subst angle
        rw [escapes.angle]
        apply Text.replace_cons
        intro _
        cases rest with
        | nil => simp
        | cons d rest =>
          have other : d ≠ '/' := fun same => apart rfl (by rw [same, List.head?_cons])
          obtain ⟨head, solid⟩ := escapes.begins d other
          change (write d ++ rest.flatMap write).head? ≠ some '/'
          rwa [List.head?_append_of_ne_nil _ solid]
      · exact Text.replace_append (escapes.free c angle) _
    rw [split]
    exact (escapes.reads c).append later
  induction text using List.twoStepInduction with
  | nil =>
    rw [List.flatMap_nil, Text.replace]
    exact reads_nil quote
  | singleton c => exact step c (by simp) (by rw [List.flatMap_nil, Text.replace]; exact reads_nil quote)
  | cons_cons c d rest later ih =>
    by_cases slashed : c = '<' ∧ d = '/'
    · obtain ⟨rfl, rfl⟩ := slashed
      have whole : ('<' :: '/' :: rest).flatMap write = '<' :: '/' :: rest.flatMap write := by
        rw [List.flatMap_cons, List.flatMap_cons, escapes.angle, escapes.slash]
        rfl
      have angle := escapes.reads '<'
      rw [escapes.angle] at angle
      have solidus : Reads quote "\\/" (Text.units16 '/') := reads_escaped open_ escape?_solidus
      rw [whole, Text.replace_slash]
      exact (angle.append solidus).append later
    · exact step c (fun angle head => slashed ⟨angle, Option.some.inj head⟩) (ih d)

/-! ### Single quotes -/

/-- A character inside a single-quoted literal. -/
def quotedChar (c : Char) : Text :=
  if c = '\\' then ['\\', '\\'] else if c = '\'' then ['\\', '\''] else if c = '\n' then ['\\', 'n']
  else if c = '\r' then ['\\', 'r'] else [c]

theorem quotedChar_of_plain {c : Char} (plain : c ≠ '\\' ∧ c ≠ '\'' ∧ c ≠ '\n' ∧ c ≠ '\r') : quotedChar c = [c] := by
  rw [quotedChar, if_neg plain.1, if_neg plain.2.1, if_neg plain.2.2.1, if_neg plain.2.2.2]

theorem quotedChar_cases (c : Char) :
    (c ≠ '\\' ∧ c ≠ '\'' ∧ c ≠ '\n' ∧ c ≠ '\r') ∨ c = '\\' ∨ c = '\'' ∨ c = '\n' ∨ c = '\r' := by
  tauto

/-- The replacements of single characters, made one after the other, are one replacement: a later one finds nothing to
replace in what an earlier one has written. -/
theorem scriptQuoted_eq (text : Text) :
    Text.scriptQuoted text = Text.replace "</" "<\\/" (text.flatMap quotedChar) := by
  have each (c : Char) : Text.replaceChar '\r' ['\\', 'r'] (Text.replaceChar '\n' ['\\', 'n']
      (Text.replaceChar '\'' ['\\', '\''] (Text.replaceChar '\\' ['\\', '\\'] [c]))) = quotedChar c := by
    rcases quotedChar_cases c with plain | rfl | rfl | rfl | rfl
    · simp [Text.replaceChar, quotedChar_of_plain plain, plain]
    all_goals rfl
  have whole : Text.replaceChar '\r' ['\\', 'r'] (Text.replaceChar '\n' ['\\', 'n']
      (Text.replaceChar '\'' ['\\', '\''] (Text.replaceChar '\\' ['\\', '\\'] text))) = text.flatMap quotedChar := by
    induction text with
    | nil => rfl
    | cons c text ih =>
      have here := each c
      simp only [Text.replaceChar, List.flatMap_cons, List.flatMap_append, List.flatMap_nil, List.append_nil] at ih here ⊢
      rw [ih, here]
  exact congrArg (Text.replace "</" "<\\/") whole

theorem escapes_quotedChar : Escapes '\'' quotedChar where
  reads c := by
    rcases quotedChar_cases c with plain | rfl | rfl | rfl | rfl
    · rw [quotedChar_of_plain plain]
      exact reads_plain plain.2.1 plain.2.2 plain.1
    all_goals exact reads_escaped (by decide) fun more => rfl
  angle := rfl
  slash := rfl
  free c other := by
    rcases quotedChar_cases c with plain | rfl | rfl | rfl | rfl
    · rw [quotedChar_of_plain plain, List.mem_singleton]
      exact Ne.symm other
    all_goals decide
  begins c other := by
    rcases quotedChar_cases c with plain | rfl | rfl | rfl | rfl
    · rw [quotedChar_of_plain plain]
      exact ⟨fun same => other (Option.some.inj same), List.cons_ne_nil c []⟩
    all_goals decide

/-- A text in single quotes is read back whole. -/
theorem reads_scriptQuoted (text : Text) : Reads '\'' text.scriptQuoted text.units := by
  rw [scriptQuoted_eq]
  exact escapes_quotedChar.reads_replace (by decide) text

end Script

end ComponentPages
