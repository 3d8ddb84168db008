import ComponentPages.Proofs.Attribute.Spelling
import ComponentPages.Proofs.Bindings

/-!
Heads that are printed from attributes. A head of any attributes, bare or with a value of one of the four forms and any
white space around the equals sign, is scanned into these attributes, as long as white space stands between them. Its
table has every name with a value once, where it stands first and with the value that it is given last.
-/
namespace ComponentPages

namespace Quoting

/-- A value between the characters that set it off. -/
def enclose : Quoting → Text → Text
  | .unquoted, text => text
  | .quoted quote, text => quote :: text ++ [quote]
  | .braces, text => '\x7b' :: text ++ ['\x7d']

/-- The values that can be set off so: a word that does not begin like another form, a text without the quote, and a
text whose braces are balanced outside its quotations, which are closed. -/
def Holds : Quoting → Text → Prop
  | .unquoted, text =>
    text ≠ [] ∧ (∀ c ∈ text, isBlank c = false) ∧ ∀ c ∈ text.head?, isQuote c = false ∧ c ≠ '\x7b'
  | .quoted quote, text => isQuote quote = true ∧ ∀ c ∈ text, c ≠ quote
  | .braces, text => Nesting.Balanced '\x7b' '\x7d' text

/-- A value that is set off is read up to its end, and behind a word there must be white space. -/
theorem enclose_begins {quoting : Quoting} {text : Text} (holds : quoting.Holds text) :
    ∃ first value, quoting.enclose text = first :: value ∧ isBlank first = false ∧
      ∀ rest : Text, rest.head?.all isBlank = true →
        Attribute.readValue first (value ++ rest) = ((quoting, text), rest) := by
  cases quoting with
  | unquoted =>
    obtain ⟨nonempty, solid, begins⟩ := holds
    obtain ⟨first, value, rfl⟩ := List.exists_cons_of_ne_nil nonempty
    obtain ⟨noQuote, noBrace⟩ := begins first rfl
    have parts : ∀ c ∈ value, (!isBlank c) = true := fun c member => by
      rw [solid c (List.mem_cons_of_mem first member)]
      rfl
    refine ⟨first, value, rfl, solid first List.mem_cons_self, fun rest blank => ?_⟩
    have stop : rest.head?.all (fun c => !(!isBlank c)) = true := by simpa using blank
    obtain ⟨taken, behind⟩ := Text.takeWhile_append_of_stop parts stop
    rw [Attribute.readValue, if_neg noBrace, noQuote, if_neg Bool.false_ne_true, taken, behind]
  | quoted quote =>
    obtain ⟨quotes, free⟩ := holds
    exact ⟨quote, text ++ [quote], rfl, (isBlank_of_isQuote quotes), fun rest _ => Attribute.readValue_quoted quotes free rest⟩
  | braces => exact ⟨'\x7b', text ++ ['\x7d'], rfl, by decide, fun rest _ => Attribute.readValue_braces holds rest⟩

end Quoting

namespace Attribute

/-- What an attribute is given: a value in one of the four forms, with the white space around the equals sign. -/
structure Assignment where
  left : Text
  right : Text
  quoting : Quoting
  text : Text

def Assignment.print (assignment : Assignment) : Text :=
  assignment.left ++ '=' :: assignment.right ++ assignment.quoting.enclose assignment.text

/-- One attribute of a printed head, with the white space in front of it. -/
structure Entry where
  gap : Text
  name : Text
  assigned : Option Assignment

namespace Entry

def spelling (entry : Entry) : Text := entry.name ++ (entry.assigned.map Assignment.print).getD []

def print (entry : Entry) : Text := entry.gap ++ entry.spelling

/-- What scanning makes of the entry. -/
def scanned (entry : Entry) : Attribute :=
  ⟨entry.name, entry.assigned.map fun assignment => (assignment.quoting, assignment.text), entry.spelling⟩

/-- The name and the value of an entry that has one. -/
def binding? (entry : Entry) : Option (Text × Text) := entry.assigned.map fun assignment => (entry.name, assignment.text)

structure Sound (entry : Entry) : Prop where
  gap : IsSpace entry.gap
  name : IsName entry.name
  assigned : ∀ assignment ∈ entry.assigned,
    IsSpace assignment.left ∧ IsSpace assignment.right ∧ assignment.quoting.Holds assignment.text

theorem Sound.spelled {entry : Entry} (sound : entry.Sound) {rest : Text} (apart : Apart rest) :
    Spelled entry.scanned rest := by
  obtain ⟨gap, name, assigned⟩ := entry
  cases assigned with
  | none =>
    have bare : Spelled ⟨name, none, name⟩ rest := .bare sound.name (head_of_apart apart) apart.2
    simpa [scanned, spelling] using bare
  | some assignment =>
    obtain ⟨leftSpace, rightSpace, holds⟩ := sound.assigned assignment rfl
    obtain ⟨first, value, begins, solid, reads⟩ := Quoting.enclose_begins holds
    have valued := Spelled.valued sound.name leftSpace rightSpace solid (reads rest apart.1)
    simpa [scanned, spelling, Assignment.print, begins] using valued

end Entry

section Printed

variable {entries : List Entry} {ending : Text} (blank : IsSpace ending)
include blank

/-- White space stands behind every entry, or nothing. -/
theorem apart_print (sound : ∀ entry ∈ entries, entry.Sound) (gaps : ∀ entry ∈ entries, entry.gap ≠ []) :
    Apart (entries.flatMap Entry.print ++ ending) := by
  cases entries with
  | nil =>
    have nothing : Text.trimLeft ending = [] := List.dropWhile_eq_nil_iff.2 blank
    refine ⟨?_, by simp [nothing]⟩
    cases ending with
    | nil => rfl
    | cons c ending => simpa using blank c List.mem_cons_self
  | cons entry entries =>
    have entrySound := sound entry List.mem_cons_self
    obtain ⟨c, gap, begins⟩ := List.exists_cons_of_ne_nil (gaps entry List.mem_cons_self)
    obtain ⟨d, name, named⟩ := List.exists_cons_of_ne_nil entrySound.name.1
    obtain ⟨solid, notEqual⟩ := solid_of_isNamePart (entrySound.name.2 d (by rw [named]; exact List.mem_cons_self))
    obtain ⟨more, whole⟩ : ∃ more, (entry :: entries).flatMap Entry.print ++ ending = entry.gap ++ d :: more :=
      ⟨_, by rw [List.flatMap_cons, Entry.print, Entry.spelling, named, List.append_assoc, List.append_assoc]; rfl⟩
    rw [whole]
    refine ⟨?_, ?_⟩
    · rw [begins]
      simpa using entrySound.gap c (by rw [begins]; exact List.mem_cons_self)
    · rw [Text.trimLeft_append_cons entrySound.gap solid]
      simpa using notEqual

theorem tokenize_flatMap_print (sound : ∀ entry ∈ entries, entry.Sound) (gaps : ∀ entry ∈ entries.tail, entry.gap ≠ []) :
    tokenize (entries.flatMap Entry.print ++ ending) = entries.map Entry.scanned := by
  induction entries with
  | nil =>
    have skipped := tokenize_append_of_isSpace blank []
    rwa [List.append_nil, tokenize_nil] at skipped
  | cons entry entries ih =>
    have entrySound := sound entry List.mem_cons_self
    have others : ∀ other ∈ entries, other.Sound := fun other member => sound other (List.mem_cons_of_mem entry member)
    have spelled := (entrySound.spelled (apart_print blank others gaps)).tokenize_append
    have later := ih others fun other member => gaps other (List.mem_of_mem_tail member)
    rw [List.flatMap_cons, Entry.print, List.append_assoc, List.append_assoc, tokenize_append_of_isSpace entrySound.gap,
      List.map_cons, ← later]
    exact spelled

/-- A printed head is scanned into the attributes that it was printed from, with their values, their quoting and their
spelling. Of its names with a value each has the last value that it is given, and they stand in the order in which
they come first. -/
theorem tokenize_printed (sound : ∀ entry ∈ entries, entry.Sound) (gaps : ∀ entry ∈ entries.tail, entry.gap ≠ []) :
    tokenize (entries.flatMap Entry.print ++ ending) = entries.map Entry.scanned ∧
      (table (entries.flatMap Entry.print ++ ending)).names =
        ((entries.filterMap Entry.binding?).map Prod.fst).eraseDups ∧
      ∀ name, (table (entries.flatMap Entry.print ++ ending)).get? name =
        (entries.filterMap Entry.binding?).reverse.lookup name := by
  have tokens := tokenize_flatMap_print blank sound gaps
  have bindings : table (entries.flatMap Entry.print ++ ending) = Bindings.ofList (entries.filterMap Entry.binding?) := by
    have each : (fun attr : Attribute => attr.text?.map (attr.name, ·)) ∘ Entry.scanned = Entry.binding? := by
      funext entry
      simp only [Function.comp_apply, Entry.scanned, Entry.binding?, text?, Option.map_map]
      rfl
    rw [table, tokens, List.filterMap_map, each]
  rw [bindings]
  exact ⟨tokens, Bindings.names_ofList _, fun name => Bindings.get?_ofList name _⟩

end Printed

/-- A name that is given twice; a value that looks like more of the head; and one in braces that quotes a brace. -/
theorem tokenize_printed_forms :
    tokenize "a = 'x > \"=/' @b  c=\x7b\x7b'\x7d'\x7d\x7d a= =/'y " =
        [⟨"a", some (.quoted '\'', "x > \"=/"), "a = 'x > \"=/'"⟩, ⟨"@b", none, "@b"⟩,
          ⟨"c", some (.braces, "\x7b'\x7d'\x7d"), "c=\x7b\x7b'\x7d'\x7d\x7d"⟩, ⟨"a", some (.unquoted, "=/'y"), "a= =/'y"⟩] ∧
      (table "a = 'x > \"=/' @b  c=\x7b\x7b'\x7d'\x7d\x7d a= =/'y ").names = ["a".toList, "c".toList] ∧
      (table "a = 'x > \"=/' @b  c=\x7b\x7b'\x7d'\x7d\x7d a= =/'y ").get? "a" = some "=/'y" := by
  let entries : List Entry := [
    ⟨[], "a", some ⟨" ", " ", .quoted '\'', "x > \"=/"⟩⟩,
    ⟨" ", "@b", none⟩,
    ⟨"  ", "c", some ⟨[], [], .braces, "\x7b'\x7d'\x7d"⟩⟩,
    ⟨" ", "a", some ⟨[], " ", .unquoted, "=/'y"⟩⟩]
  have quotation : Nesting.Balanced '\x7b' '\x7d' ('\'' :: ['\x7d'] ++ ['\'']) :=
    .quotation (by decide) (by decide) .done
  have balanced : Nesting.Balanced '\x7b' '\x7d' "\x7b'\x7d'\x7d" := .brackets quotation .done
  have sound : ∀ entry ∈ entries, entry.Sound := by
    simp only [entries, List.forall_mem_cons, List.not_mem_nil, false_implies, implies_true, and_true]
    refine ⟨⟨by decide, by decide, ?_⟩, ⟨by decide, by decide, ?_⟩, ⟨by decide, by decide, ?_⟩, ⟨by decide, by decide, ?_⟩⟩
    · rintro _ ⟨⟩
      exact ⟨by decide, by decide, by decide, by decide⟩
    · rintro _ ⟨⟩
    · rintro _ ⟨⟩
      exact ⟨by decide, by decide, balanced⟩
    · rintro _ ⟨⟩
      refine ⟨by decide, by decide, by decide, by decide, ?_⟩
      rintro _ ⟨⟩
      decide
  obtain ⟨tokens, names, values⟩ := tokenize_printed (by decide : IsSpace " ") sound (by decide)
  have whole : entries.flatMap Entry.print ++ " " = "a = 'x > \"=/' @b  c=\x7b\x7b'\x7d'\x7d\x7d a= =/'y " := by
    decide +kernel
  rw [whole] at tokens names values
  exact ⟨tokens.trans (by decide +kernel), names.trans (by decide +kernel), (values "a").trans (by decide +kernel)⟩

end Attribute

end ComponentPages
