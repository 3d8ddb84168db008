import ComponentPages.Proofs.Binary64
import ComponentPages.Proofs.Script.Assignment
import ComponentPages.Proofs.Script.Literal
import ComponentPages.Proofs.Script.Turns

/-!
The literals that top-level writes copy from the scope. `datum?` reads a literal of browser script; the literal of a value
is read back as the data of the value, with the one limit that a script has floating-point numbers in place of integers.
A text is written with JSON escapes before `</` is replaced, and every `</` among them stands for those two characters of
the text, so that the replacement falls into no escape.
-/
namespace ComponentPages

/-- What a literal of browser script denotes: code units, a truth value or a number. -/
inductive Datum where
  | string (units : List Nat)
  | boolean (truth : Bool)
  | number (number : Binary64)
deriving DecidableEq

namespace Script

/-- Reads a decimal integer, which has no leading zeros. -/
def decimal? (text : Text) : Option Binary64 :=
  if 1 < text.length ∧ text.head? = some '0' then none
  else (Text.toNat? text).map fun n => .ofRatio false n 1

/-- Reads a text that is nothing but a literal in double quotes, a truth value or an integer, with or without a minus
sign. -/
def datum? (text : Text) : Option Datum :=
  match text with
  | '"' :: inside =>
    match string? '"' inside with
    | some (units, []) => some (.string units)
    | _ => none
  | '-' :: digits => (decimal? digits).map fun number => .number number.neg
  | _ =>
    if text = "true" then some (.boolean true)
    else if text = "false" then some (.boolean false)
    else (decimal? text).map .number

end Script

/-- Whether a datum is the data of a value. -/
def Datum.Denotes : Datum → Value → Prop
  | .string units, .string text => units = text.units
  | .boolean read, .boolean truth => read = truth
  | .number read, .int n => read.value? = some (n : ℚ)
  | _, _ => False

/-- Whether a script has the data of a value. -/
def Value.IsExact : Value → Prop
  | .int n => Binary64.IsWhole n
  | _ => True

/-! ### Escapes -/

namespace Text

theorem exists_of_mem_toDigits {n : Nat} {c : Char} (member : c ∈ Nat.toDigits 16 n) :
    ∃ digit < 16, c = Nat.digitChar digit := by
  induction n using Nat.strongRecOn with
  | _ n ih =>
    rcases Nat.lt_or_ge n 16 with small | large
    · rw [Nat.toDigits_of_lt_base small, List.mem_singleton] at member
      exact ⟨n, small, member⟩
    · rw [Nat.toDigits_of_base_le (by decide) large, List.mem_append, List.mem_singleton] at member
      rcases member with front | last
      · exact ih (n / 16) (by omega) front
      · exact ⟨n % 16, Nat.mod_lt n (by decide), last⟩

theorem exists_of_mem_hex {width n : Nat} {c : Char} (member : c ∈ hex width n) :
    ∃ digit < 16, c = Nat.digitChar digit := by
  rcases List.mem_append.1 member with padding | digit
  · exact ⟨0, by decide, (List.mem_replicate.1 padding).2⟩
  · exact exists_of_mem_toDigits digit

theorem length_hex {width n : Nat} (positive : 0 < width) (fits : n < 16 ^ width) : (hex width n).length = width := by
  have bound := (Nat.length_toDigits_le_iff (by decide : 1 < 16) positive).2 fits
  rw [hex, List.length_append, List.length_replicate]
  omega

/-- The code units of a character have four hexadecimal digits at most. -/
theorem lt_of_mem_units16 {c : Char} {unit : Nat} (member : unit ∈ units16 c) : unit < 16 ^ 4 := by
  have valid : c.toNat < 0x110000 := by
    rcases c.valid with low | high
    · exact Nat.lt_trans low (by decide)
    · exact high.2
  unfold units16 at member
  split at member
  · next small => exact List.mem_singleton.1 member ▸ small
  · rcases List.mem_cons.1 member with first | second
    · omega
    · rw [List.mem_singleton] at second
      omega

end Text

namespace Script

theorem hexValue?_concat (digits : Text) (c : Char) :
    hexValue? (digits ++ [c]) = (hexValue? digits).bind fun n => (hexDigit? c).map (16 * n + ·) := by
  simp only [hexValue?, List.foldlM_append, List.foldlM_cons, List.foldlM_nil]
  cases digits.foldlM (fun n c => (hexDigit? c).map (16 * n + ·)) 0 with
  | none => rfl
  | some n => simp

theorem hexDigit?_digitChar {digit : Nat} (small : digit < 16) : hexDigit? (Nat.digitChar digit) = some digit := by
  revert digit
  decide

theorem hexValue?_toDigits (n : Nat) : hexValue? (Nat.toDigits 16 n) = some n := by
  induction n using Nat.strongRecOn with
  | _ n ih =>
    rcases Nat.lt_or_ge n 16 with small | large
    · rw [Nat.toDigits_of_lt_base small, ← List.nil_append [n.digitChar], hexValue?_concat, hexDigit?_digitChar small]
      simp [hexValue?]
    · rw [Nat.toDigits_of_base_le (by decide) large, hexValue?_concat, ih (n / 16) (by omega),
        hexDigit?_digitChar (Nat.mod_lt n (by decide))]
      exact congrArg some (Nat.div_add_mod n 16)

theorem hexValue?_hex (width n : Nat) : hexValue? (Text.hex width n) = some n := by
  have zeros (count : Nat) (digits : Text) : hexValue? (List.replicate count '0' ++ digits) = hexValue? digits := by
    induction count with
    | zero => rfl
    | succ count ih => exact ih
  rw [Text.hex, zeros, hexValue?_toDigits]

/-- An escape of four digits is read as its code unit. -/
theorem reads_hex {unit : Nat} (fits : unit < 16 ^ 4) : Reads '"' ('\\' :: 'u' :: Text.hex 4 unit) [unit] := by
  refine reads_escaped (by decide) fun more => ?_
  have size := Text.length_hex (by decide : 0 < 4) fits
  have fixed : fixedHex? 4 (Text.hex 4 unit ++ more) = some (unit, more) := by
    rw [fixedHex?, if_neg (by rw [List.length_append]; omega), List.take_left' size, List.drop_left' size,
      hexValue?_hex]
    rfl
  have digits : ∀ rest, Text.hex 4 unit ++ more ≠ '\x7b' :: rest := by
    intro rest same
    cases written : Text.hex 4 unit with
    | nil =>
      rw [written] at size
      cases size
    | cons c others =>
      rw [written, List.cons_append] at same
      have first : c ∈ Text.hex 4 unit := by rw [written]; exact List.mem_cons_self
      obtain ⟨digit, small, rfl⟩ := Text.exists_of_mem_hex first
      have other : ∀ digit < 16, Nat.digitChar digit ≠ '\x7b' := by decide
      exact other digit small (List.cons.inj same).1
  rw [List.cons_append, escape?, fixed]
  · rfl
  · exact digits

theorem reads_units {units : List Nat} (fit : ∀ unit ∈ units, unit < 16 ^ 4) :
    Reads '"' (units.flatMap fun unit => '\\' :: 'u' :: Text.hex 4 unit) units := by
  induction units with
  | nil => exact reads_nil '"'
  | cons unit units ih =>
    exact (reads_hex (fit unit List.mem_cons_self)).append (ih fun other member => fit other (List.mem_cons_of_mem _ member))

/-- The characters that have an escape of two characters. -/
def shortEscapes : Text := ['"', '\\', '\n', '\r', '\t', Char.ofNat 8, Char.ofNat 12]

/-- A character has a short escape, stands for itself or is escaped by its code units. -/
theorem jsonChar_cases (c : Char) :
    c ∈ shortEscapes ∨
      (c ∉ shortEscapes ∧ c.toNat ≤ 126 ∧ Text.jsonChar c = [c]) ∨
      Text.jsonChar c = (Text.units16 c).flatMap fun unit => '\\' :: 'u' :: Text.hex 4 unit := by
  by_cases short : c ∈ shortEscapes
  · exact .inl short
  · have others := short
    simp only [shortEscapes, List.mem_cons, List.not_mem_nil, or_false, not_or] at others
    obtain ⟨quote, slash, line, back, tab, bell, feed⟩ := others
    have codes (n : Nat) (other : c ≠ Char.ofNat n) : (c.toNat == n) = false := by
      rw [beq_eq_false_iff_ne]
      rintro rfl
      exact other (Char.ofNat_toNat c).symm
    have written : Text.jsonChar c = if 32 ≤ c.toNat && c.toNat ≤ 126 then [c] else
        (Text.units16 c).flatMap fun unit => '\\' :: 'u' :: Text.hex 4 unit := by
      simp [Text.jsonChar, quote, slash, line, back, tab, codes 8 bell, codes 12 feed]
    rw [written]
    split
    · next plain =>
      simp only [Bool.and_eq_true, decide_eq_true_eq] at plain
      exact .inr (.inl ⟨short, plain.2, rfl⟩)
    · exact .inr (.inr rfl)

/-- What is written for a character with a short escape. -/
theorem jsonChar_short {c : Char} (short : c ∈ shortEscapes) :
    (∃ letter, Text.jsonChar c = ['\\', letter] ∧ ∀ more, escape? (letter :: more) = some (Text.units16 c, more)) ∧
      ∀ d ∈ Text.jsonChar c, d.toNat < 128 ∧ d ≠ '<' := by
  simp only [shortEscapes, List.mem_cons, List.not_mem_nil, or_false] at short
  rcases short with rfl | rfl | rfl | rfl | rfl | rfl | rfl
  all_goals exact ⟨⟨_, rfl, fun more => rfl⟩, by decide⟩

theorem mem_escapedUnits {units : List Nat} {c : Char}
    (member : c ∈ units.flatMap fun unit => '\\' :: 'u' :: Text.hex 4 unit) : c.toNat < 128 ∧ c ≠ '<' := by
  obtain ⟨unit, -, here⟩ := List.mem_flatMap.1 member
  rcases List.mem_cons.1 here with rfl | here
  · decide
  rcases List.mem_cons.1 here with rfl | here
  · decide
  obtain ⟨digit, small, rfl⟩ := Text.exists_of_mem_hex here
  have plain : ∀ digit < 16, (Nat.digitChar digit).toNat < 128 ∧ Nat.digitChar digit ≠ '<' := by decide
  exact plain digit small

theorem units16_ne_nil (c : Char) : Text.units16 c ≠ [] := by
  unfold Text.units16
  split <;> exact List.cons_ne_nil _ _

theorem escapes_jsonChar : Escapes '"' Text.jsonChar where
  reads c := by
    rcases jsonChar_cases c with short | ⟨other, -, plain⟩ | coded
    · obtain ⟨⟨letter, written, escapes⟩, -⟩ := jsonChar_short short
      rw [written]
      exact reads_escaped (by decide) escapes
    · have apart {d : Char} (short : d ∈ shortEscapes) : c ≠ d := fun same => other (same ▸ short)
      rw [plain]
      exact reads_plain (apart (by decide)) ⟨apart (by decide), apart (by decide)⟩ (apart (by decide))
    · rw [coded]
      exact reads_units fun unit => Text.lt_of_mem_units16
  angle := rfl
  slash := rfl
  free c other member := by
    rcases jsonChar_cases c with short | ⟨-, -, plain⟩ | coded
    · exact ((jsonChar_short short).2 '<' member).2 rfl
    · rw [plain, List.mem_singleton] at member
      exact other member.symm
    · rw [coded] at member
      exact (mem_escapedUnits member).2 rfl
  begins c other := by
    rcases jsonChar_cases c with short | ⟨-, -, plain⟩ | coded
    · obtain ⟨⟨letter, written, -⟩, -⟩ := jsonChar_short short
      rw [written]
      exact ⟨fun same => absurd (Option.some.inj same) (by decide), List.cons_ne_nil _ _⟩
    · rw [plain]
      exact ⟨fun same => other (Option.some.inj same), List.cons_ne_nil c []⟩
    · obtain ⟨unit, units, split⟩ := List.exists_cons_of_ne_nil (units16_ne_nil c)
      rw [coded, split]
      exact ⟨fun same => absurd (Option.some.inj same) (by decide), List.cons_ne_nil _ _⟩

/-- A JSON string is kept in ASCII. -/
theorem lt_of_mem_jsonChar {c d : Char} (member : d ∈ Text.jsonChar c) : d.toNat < 128 := by
  rcases jsonChar_cases c with short | ⟨-, small, plain⟩ | coded
  · exact ((jsonChar_short short).2 d member).1
  · rw [plain, List.mem_singleton] at member
    rw [member]
    omega
  · rw [coded] at member
    exact (mem_escapedUnits member).1

theorem Escapes.reads_flatMap {quote : Char} {write : Char → Text} (escapes : Escapes quote write) (text : Text) :
    Reads quote (text.flatMap write) text.units := by
  induction text with
  | nil => exact reads_nil quote
  | cons c text ih => exact (escapes.reads c).append ih

/-- Every `</` among escapes stands for itself: it is written for those two characters of the text, and the escapes
before and after it are whole. -/
theorem Escapes.exists_of_slash {quote : Char} {write : Char → Text} (escapes : Escapes quote write)
    {text front behind back : Text} (border : behind.head? ≠ some '/') (free : '<' ∉ behind)
    (whole : text.flatMap write ++ behind = front ++ '<' :: '/' :: back) :
    ∃ before after, text = before ++ '<' :: '/' :: after ∧ front = before.flatMap write ∧
      back = after.flatMap write ++ behind := by
  induction text generalizing front with
  | nil =>
    have angle : '<' ∈ behind := by
      rw [List.flatMap_nil, List.nil_append] at whole
      rw [whole]
      simp
    exact absurd angle free
  | cons c text ih =>
    rw [List.flatMap_cons, List.append_assoc] at whole
    by_cases angle : c = '<'
    · subst angle
      rw [escapes.angle, List.singleton_append] at whole
      cases front with
      | nil =>
        have later := (List.cons.inj whole).2
        cases text with
        | nil =>
          rw [List.flatMap_nil, List.nil_append] at later
          exact absurd (congrArg List.head? later) border
        | cons d text =>
          rw [List.flatMap_cons, List.append_assoc] at later
          by_cases slash : d = '/'
          · subst slash
            rw [escapes.slash, List.singleton_append] at later
            exact ⟨[], text, rfl, rfl, (List.cons.inj later).2.symm⟩
          · obtain ⟨other, solid⟩ := escapes.begins d slash
            have head := congrArg List.head? later
            rw [List.head?_append_of_ne_nil _ solid] at head
            exact absurd head other
      | cons d front =>
        obtain ⟨rfl, later⟩ := List.cons.inj whole
        obtain ⟨before, after, rfl, rfl, rfl⟩ := ih later
        exact ⟨'<' :: before, after, rfl, by rw [List.flatMap_cons, escapes.angle]; rfl, rfl⟩
    · -- The angle bracket stands behind what is written for another character.
      obtain ⟨gap, rfl, later⟩ : ∃ gap, front = write c ++ gap ∧
          text.flatMap write ++ behind = gap ++ '<' :: '/' :: back := by
        rcases List.append_eq_append_iff.1 whole with ⟨gap, longer, later⟩ | ⟨gap, longer, later⟩
        · exact ⟨gap, longer, later⟩
        · cases gap with
          | nil => exact ⟨[], by simpa using longer.symm, by simpa using later.symm⟩
          | cons d gap =>
            have member : '<' ∈ write c := by
              rw [longer, (List.cons.inj later).1]
              simp
            exact absurd member (escapes.free c angle)
      obtain ⟨before, after, rfl, rfl, rfl⟩ := ih later
      exact ⟨c :: before, after, rfl, (List.flatMap_cons).symm, rfl⟩

end Script

namespace Text

theorem replace_concat {c : Char} (solid : c ≠ '/') (text : Text) :
    replace "</" "<\\/" (text ++ [c]) = replace "</" "<\\/" text ++ [c] := by
  have empty : replace "</" "<\\/" [] = [] := by rw [replace]
  have single (d : Char) : replace "</" "<\\/" [d] = [d] := by rw [replace_cons fun _ => by simp, empty]
  induction text using List.twoStepInduction with
  | nil => rw [empty, List.nil_append, single]
  | singleton d =>
    rw [List.singleton_append, replace_cons fun _ => by simpa using solid, single, single, List.singleton_append]
  | cons_cons d e rest later ih =>
    by_cases slashed : d = '<' ∧ e = '/'
    · obtain ⟨rfl, rfl⟩ := slashed
      rw [List.cons_append, List.cons_append, replace_slash, replace_slash, later, List.append_assoc]
    · have apart : d = '<' → (e :: rest).head? ≠ some '/' := fun angle head => slashed ⟨angle, Option.some.inj head⟩
      have goesOn : d = '<' → (e :: rest ++ [c]).head? ≠ some '/' := apart
      rw [List.cons_append, replace_cons goesOn, ih e, replace_cons apart, List.cons_append]

/-- No character is half of a surrogate pair, so the first code unit tells how many there are. -/
theorem units16_injective {c d : Char} {rest others : List Nat} (same : units16 c ++ rest = units16 d ++ others) :
    c = d ∧ rest = others := by
  have first : c.toNat < 0xD800 ∨ 0xDFFF < c.toNat ∧ c.toNat < 0x110000 := c.valid
  have second : d.toNat < 0xD800 ∨ 0xDFFF < d.toNat ∧ d.toNat < 0x110000 := d.valid
  have codes : c.toNat = d.toNat ∧ rest = others := by
    unfold units16 at same
    split at same <;> split at same <;> simp only [List.cons_append, List.nil_append, List.cons.injEq] at same
    · exact same
    · omega
    · omega
    · exact ⟨by omega, same.2.2⟩
  exact ⟨Char.toNat_inj.1 codes.1, codes.2⟩

theorem units_injective : Function.Injective units := by
  have solid (c : Char) (text : Text) : units (c :: text) ≠ [] := by
    rw [units, List.flatMap_cons]
    exact List.append_ne_nil_of_left_ne_nil (Script.units16_ne_nil c) _
  intro first second same
  induction first generalizing second with
  | nil =>
    cases second with
    | nil => rfl
    | cons d second => exact absurd same.symm (solid d second)
  | cons c first ih =>
    cases second with
    | nil => exact absurd same (solid c first)
    | cons d second =>
      obtain ⟨rfl, others⟩ := @units16_injective c d (units first) (units second) same
      rw [ih others]

end Text

theorem Datum.Denotes.unique {datum : Datum} {value other : Value} (here : datum.Denotes value)
    (there : datum.Denotes other) : other = value := by
  cases datum <;> cases value <;> cases other <;> try trivial
  · exact congrArg Value.string (Text.units_injective (there.symm.trans here))
  · exact congrArg Value.boolean (Eq.trans (Eq.symm there) here)
  · have same := Option.some.inj (Eq.trans (Eq.symm there) here)
    exact congrArg Value.int (by exact_mod_cast same)

namespace Script

/-! ### Literals -/

theorem seed_string (text : Text) :
    seed (.string text) = '"' :: Text.replace "</" "<\\/" (text.flatMap Text.jsonChar) ++ ['"'] := by
  change Text.replace "</" "<\\/" ('"' :: text.flatMap Text.jsonChar ++ ['"']) = _
  rw [Text.replace_concat (by decide), Text.replace_cons fun same => absurd same (by decide)]

theorem datum?_string {inside : Text} {units : List Nat} (reads : Reads '"' inside units) :
    datum? ('"' :: inside ++ ['"']) = some (.string units) := by
  rw [List.cons_append, datum?, reads.string? []]

/-- A number is written without leading zeros. -/
theorem head?_ofNat {n : Nat} (positive : n ≠ 0) : (Text.ofNat n).head? ≠ some '0' := by
  induction n using Nat.strongRecOn with
  | _ n ih =>
    rcases Nat.lt_or_ge n 10 with small | large
    · have digits : ∀ n < 10, n ≠ 0 → Nat.digitChar n ≠ '0' := by decide
      rw [Text.ofNat, Nat.toDigits_of_lt_base small]
      exact fun same => digits n small positive (Option.some.inj same)
    · rw [Text.ofNat, Nat.toDigits_of_base_le (by decide) large,
        List.head?_append_of_ne_nil _ (List.ne_nil_of_length_pos Nat.length_toDigits_pos)]
      exact ih (n / 10) (by omega) (by omega)

theorem decimal?_ofNat (n : Nat) : decimal? (Text.ofNat n) = some (.ofRatio false n 1) := by
  have read : Text.toNat? (Text.ofNat n) = some n :=
    Text.toNat?_eq_some_iff.2 ⟨List.ne_nil_of_length_pos Nat.length_toDigits_pos,
      fun _ => Text.isDigit_of_mem_ofNat, (Nat.ofDigitChars_toDigits (by decide) (by decide)).symm⟩
  rw [decimal?, if_neg, read]
  · rfl
  · rintro ⟨long, zero⟩
    have none : n = 0 := by_contra fun positive => head?_ofNat positive zero
    rw [none] at long
    exact absurd long (by decide)

theorem datum?_ofInt (n : Int) : datum? (Text.ofInt n) = some (.number (.ofInt n)) := by
  cases n with
  | ofNat n =>
    have digit {c : Char} {rest : Text} (written : Text.ofNat n = c :: rest) : c.isDigit = true :=
      Text.isDigit_of_mem_ofNat (n := n) (by rw [written]; exact List.mem_cons_self)
    change datum? (Text.ofNat n) = _
    unfold datum?
    split
    · next quoted => exact absurd (digit quoted) (by decide)
    · next signed => exact absurd (digit signed) (by decide)
    · have words : Text.ofNat n ≠ "true" ∧ Text.ofNat n ≠ "false" :=
        ⟨fun same => absurd (digit (show Text.ofNat n = 't' :: "rue".toList from same)) (by decide),
          fun same => absurd (digit (show Text.ofNat n = 'f' :: "alse".toList from same)) (by decide)⟩
      rw [if_neg words.1, if_neg words.2, decimal?_ofNat, Binary64.ofInt, decide_eq_false (by simp)]
      rfl
  | negSucc n =>
    change (decimal? (Text.ofNat (n + 1))).map _ = _
    rw [decimal?_ofNat, Option.map_some, Binary64.neg_ofRatio, Binary64.ofInt, decide_eq_true (Int.negSucc_lt_zero n)]
    rfl

/-- The data of a value in a script. -/
def datumOf : Value → Datum
  | .string text => .string text.units
  | .int n => .number (.ofInt n)
  | .boolean truth => .boolean truth

theorem replace_free {text : Text} (free : '<' ∉ text) : Text.replace "</" "<\\/" text = text := by
  have empty : Text.replace "</" "<\\/" [] = [] := by rw [Text.replace]
  have whole := Text.replace_append free []
  rwa [List.append_nil, empty, List.append_nil] at whole

theorem not_mem_ofInt (n : Int) : '<' ∉ Text.ofInt n := by
  intro member
  cases n with
  | ofNat n => exact absurd (Text.isDigit_of_mem_ofNat member) (by decide)
  | negSucc n =>
    rcases List.mem_cons.1 member with sign | digit
    · exact absurd sign (by decide)
    · exact absurd (Text.isDigit_of_mem_ofNat digit) (by decide)

theorem seed_ofInt (n : Int) : seed (.int n) = Text.ofInt n := replace_free (not_mem_ofInt n)

/-- The replacement of `</` leaves the meaning of a literal as it is. -/
theorem datum?_literal (value : Value) :
    datum? value.literal = some (datumOf value) ∧ datum? (seed value) = some (datumOf value) := by
  cases value with
  | string text =>
    refine ⟨datum?_string (escapes_jsonChar.reads_flatMap text), ?_⟩
    rw [seed_string]
    exact datum?_string (escapes_jsonChar.reads_replace (by decide) text)
  | int n => exact ⟨datum?_ofInt n, by rw [seed_ofInt]; exact datum?_ofInt n⟩
  | boolean truth => cases truth <;> exact ⟨rfl, by decide +kernel⟩

theorem denotes_datumOf (value : Value) : (datumOf value).Denotes value ↔ value.IsExact := by
  cases value with
  | string text => exact iff_of_true rfl trivial
  | int n => exact Binary64.value?_ofInt_iff n
  | boolean truth => exact iff_of_true rfl trivial

/-- A literal is kept in ASCII. -/
theorem lt_of_mem_seed {value : Value} {c : Char} (member : c ∈ seed value) : c.toNat < 128 := by
  rcases Text.mem_of_mem_replace member with marks | inside
  · have plain : ∀ c ∈ ("<\\/" : Text), c.toNat < 128 := by decide
    exact plain c marks
  cases value with
  | string text =>
    rcases List.mem_cons.1 inside with rfl | inside
    · decide
    rcases List.mem_append.1 inside with written | closing
    · obtain ⟨d, -, here⟩ := List.mem_flatMap.1 written
      exact lt_of_mem_jsonChar here
    · rw [List.mem_singleton.1 closing]
      decide
  | int n =>
    have digits {n : Nat} (member : c ∈ Text.ofNat n) : c.toNat < 128 := by
      have digit := Text.isDigit_of_mem_ofNat member
      simp only [Char.isDigit, Bool.and_eq_true, decide_eq_true_eq] at digit
      exact Nat.lt_of_le_of_lt (UInt32.le_iff_toNat_le.1 digit.2) (by decide)
    cases n with
    | ofNat n => exact digits inside
    | negSucc n =>
      rcases List.mem_cons.1 inside with rfl | digit
      · decide
      · exact digits digit
  | boolean truth =>
    revert c
    cases truth <;> decide +kernel

/-! ### Writes -/

section Writes

variable {scope : Scope} {prop : Text} {value : Value}

theorem seed?_of_lookup (known : Text.isIdentifier prop = true) (bound : scope.lookup prop = some value) :
    seed? scope true none prop = some (seed value) := by
  rw [seed?, known, bound]
  rfl

/-- A write at the top level that names a prop copies its literal. -/
theorem run_turn_of_prop (known : Text.isIdentifier prop = true) (bound : scope.lookup prop = some value) {call : Call}
    {name rest : Text} (top : call.isTop = true) (named : Text.trim (splitValue .code 0 rest).1 = prop)
    (start : Declarations) :
    ∃ next later, (turn (answer scope) scope call (.write name none) rest).run.run start =
      (.ok (Script.call "signal" name (some (seed value)), next), later) := by
  have given : prop ≠ [] := by
    rintro rfl
    cases known
  simp only [turn, named, if_neg given, turnValue, top, seed?_of_lookup known bound]
  exact ⟨_, _, rfl⟩

theorem trim_prop (known : Text.isIdentifier prop = true) : Text.trim (' ' :: prop) = prop := by
  have solid : ∀ c ∈ prop, isBlank c = false := fun c member =>
    isBlank_of_isIdentifierPart ((isIdentifierPart_of_isIdentifier known).2 c member)
  have left : Text.trimLeft prop = prop :=
    List.dropWhile_eq_self_iff.2 fun start => Bool.not_eq_true _ ▸ solid _ (List.getElem_mem start)
  have right : Text.trimRight prop = prop := by
    have reversed : prop.reverse.dropWhile isBlank = prop.reverse :=
      List.dropWhile_eq_self_iff.2 fun start =>
        Bool.not_eq_true _ ▸ solid _ (List.mem_reverse.1 (List.getElem_mem start))
    rw [Text.trimRight, reversed, List.reverse_reverse]
  have space : Text.trimLeft (' ' :: prop) = Text.trimLeft prop :=
    @Text.trimLeft_append_of_space [' '] (by decide) prop
  rw [Text.trim, space, left, right]

theorem run_lower_prop {signal : Text} (identifier : Text.isIdentifier signal = true)
    (known : Text.isIdentifier prop = true) (bound : scope.lookup prop = some value) (start : Declarations) :
    ((lower scope false ('$' :: signal ++ " = " ++ prop ++ ";")).run.run start).1 =
      .ok (call "signal" signal (some (seed value)) ++ ";") := by
  have whole : '$' :: signal ++ " = " ++ prop ++ ";" = '$' :: (signal ++ (" " ++ '=' :: (' ' :: prop ++ [';']))) := by
    have spaced : (" = " : Text) = " " ++ ['=', ' '] := rfl
    have closing : (";" : Text) = [';'] := rfl
    rw [spaced, closing]
    simp
  have taken := @lexeme_write none rfl signal " " (' ' :: prop ++ [';']) identifier (by decide) (by simp)
  have inert : ∀ c ∈ ' ' :: prop, isInert c = true ∧ c ≠ '\n' := by
    intro c member
    rcases List.mem_cons.1 member with rfl | inside
    · decide
    · have part := (isIdentifierPart_of_isIdentifier known).2 c inside
      refine ⟨isInert_of_class part (by decide), ?_⟩
      rintro rfl
      cases part
  have parts := splitValue_of_isInert inert []
  have given : prop ≠ [] := by
    rintro rfl
    cases known
  have closing : lexeme (' ' :: prop).getLast? ';' [] = (.other ';', []) := lexeme_of_plain (by decide) (by decide) _ []
  rw [lower, whole, lowerFrom_cons taken]
  dsimp only
  rw [parts, trim_prop known, if_neg given]
  dsimp only
  rw [lowerFrom_cons closing, show (!false && (0 : Int) == 0) = true from rfl, seed?_of_lookup known bound]
  dsimp only
  rw [lowerFrom]
  rfl

end Writes

/-- The literals that top-level writes copy are exact and safe. Wherever a prop is copied its value is written as a literal
in ASCII without `</`; the replacement that sees to it finds `</` between whole escapes only and leaves the meaning of the
literal as it is. The literal denotes the data of the value and of no other one, for every text, truth value and integer
that is a floating-point number; the literal of any integer is its decimal numeral. -/
theorem seed_denotes {scope : Scope} {prop : Text} {value : Value} (known : Text.isIdentifier prop = true)
    (bound : scope.lookup prop = some value) :
    (∀ signal start, Text.isIdentifier signal = true →
      ((lower scope false ('$' :: signal ++ " = " ++ prop ++ ";")).run.run start).1 =
        .ok (call "signal" signal (some (seed value)) ++ ";")) ∧
    (∀ (place : Call) name rest start, place.isTop = true → place.lexeme? = some (.write name none, rest) →
      Text.trim (splitValue .code 0 rest).1 = prop →
        ∃ next later, (turn (answer scope) scope place (.write name none) rest).run.run start =
          (.ok (call "signal" name (some (seed value)), next), later)) ∧
    (∀ c ∈ seed value, c.toNat < 128) ∧
    (∀ front back, seed value ≠ front ++ '<' :: '/' :: back) ∧
    (∀ text front back, value = .string text → value.literal = front ++ '<' :: '/' :: back →
      ∃ before after, text = before ++ '<' :: '/' :: after ∧ front = '"' :: before.flatMap Text.jsonChar ∧
        back = after.flatMap Text.jsonChar ++ ['"']) ∧
    (∃ datum, datum? value.literal = some datum ∧ datum? (seed value) = some datum ∧
      (datum.Denotes value ↔ value.IsExact) ∧ (value.IsExact → ∀ other, datum.Denotes other → other = value)) ∧
    ∀ n, value = .int n → seed value = Text.ofInt n ∧ (n.natAbs ≤ 2 ^ 53 → value.IsExact) := by
  refine ⟨?_, ?_, fun c => lt_of_mem_seed, fun front back => Text.replace_ne_slash _ front back, ?_, ?_, ?_⟩
  · intro signal start identifier
    exact run_lower_prop identifier known bound start
  · intro place name rest start top _ named
    exact run_turn_of_prop known bound top named start
  · rintro text front back rfl whole
    cases front with
    | nil => exact absurd (List.cons.inj whole).1 (by decide)
    | cons c front =>
      obtain ⟨rfl, inside⟩ := List.cons.inj whole
      obtain ⟨before, after, rfl, rfl, rfl⟩ := escapes_jsonChar.exists_of_slash (by decide) (by decide) inside
      exact ⟨before, after, rfl, rfl, rfl⟩
  · obtain ⟨written, replaced⟩ := datum?_literal value
    refine ⟨datumOf value, written, replaced, denotes_datumOf value, fun exact_ other there => ?_⟩
    exact ((denotes_datumOf value).2 exact_).unique there
  · rintro n rfl
    exact ⟨seed_ofInt n, Binary64.isWhole_of_le⟩

theorem seed_denotes_closing :
    let value := Value.string "\\</script>"
    ((lower [("p", value)] false "$s = p;").run.run {}).1 = .ok "gtml.signal('s', \"\\\\<\\/script>\");" ∧
      datum? (seed value) = some (.string (Text.units "\\</script>")) := by
  intro value
  obtain ⟨written, -, -, -, -, ⟨datum, -, read, denotes, -⟩, -⟩ :=
    @seed_denotes [("p", value)] "p" value (by decide) (by decide +kernel)
  refine ⟨(written "s" {} (by decide)).trans (by decide +kernel), ?_⟩
  have same := denotes.2 trivial
  cases datum with
  | string units => rw [read, show units = Text.units "\\</script>" from same]
  | boolean truth => exact same.elim
  | number number => exact same.elim

/-- An integer beyond the gaps is read as its neighbour. -/
theorem seed_rounded :
    ((lower [("p", .int 9007199254740993)] false "$s = p;").run.run {}).1 = .ok "gtml.signal('s', 9007199254740993);" ∧
      ∃ datum, datum? "9007199254740993" = some datum ∧ ¬datum.Denotes (.int 9007199254740993) ∧
        datum.Denotes (.int 9007199254740992) := by
  have valued : (Binary64.finite false 4503599627370496 1).value? = some 9007199254740992 := by
    norm_num [Binary64.value?, Binary64.sign]
  refine ⟨by decide +kernel, .number (.finite false 4503599627370496 1), by decide +kernel, fun same => ?_, ?_⟩
  · have equal : (9007199254740992 : ℚ) = ((9007199254740993 : Int) : ℚ) := Option.some.inj (valued.symm.trans same)
    norm_num at equal
  · refine valued.trans (congrArg some ?_)
    norm_num

end Script

end ComponentPages
