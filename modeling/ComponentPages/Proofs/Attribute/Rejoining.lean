import ComponentPages.Proofs.Attribute.Spelling
import ComponentPages.Proofs.Compilation
import ComponentPages.Fetch.Lowering
import ComponentPages.Slot

/-!
Attributes put together again. A head that is written from the spellings of some attributes of another head has these
attributes and no others, however malformed the other head is. So the attributes that a slot's element and a fetch
element take over stay what they were.
-/
namespace ComponentPages

namespace Attribute

theorem apart_nil : Apart [] := ⟨rfl, by simp [Text.trimLeft]⟩

/-- The spellings of attributes, with a space between each and the next. -/
theorem intercalate_raw_cons (attr other : Attribute) (others : List Attribute) :
    List.intercalate [' '] ((attr :: other :: others).map raw) =
      attr.raw ++ ' ' :: List.intercalate [' '] ((other :: others).map raw) := by
  simp [List.intercalate]

/-- A space and the spellings of attributes let an attribute end in front of them. -/
theorem apart_of_spelled {attr : Attribute} {rest : Text} (spelled : Spelled attr rest) (others : List Attribute) :
    Apart (' ' :: List.intercalate [' '] ((attr :: others).map raw)) := by
  obtain ⟨c, tail, begins, part⟩ := spelled.begins
  obtain ⟨solid, notEqual⟩ := solid_of_isNamePart part
  obtain ⟨more, written⟩ : ∃ more, List.intercalate [' '] ((attr :: others).map raw) = c :: more := by
    cases others with
    | nil => exact ⟨tail, by simp [List.intercalate, begins]⟩
    | cons other others => exact ⟨_, by rw [intercalate_raw_cons, begins, List.cons_append]⟩
  have trimmed : Text.trimLeft (' ' :: c :: more) = c :: more :=
    Text.trimLeft_append_cons (by decide : IsSpace [' ']) solid more
  rw [written]
  exact ⟨rfl, by simpa [trimmed] using notEqual⟩

/-- An attribute is read in front of others if it may stand there, and the head may only end behind it if there are no
others. -/
theorem tokenize_intercalate_cons {attr : Attribute} {others : List Attribute}
    (spelled : ∀ more, (others = [] → more = []) → Apart more → Spelled attr more)
    (begins : ∀ other ∈ others, ∃ rest, Spelled other rest)
    (read : tokenize (List.intercalate [' '] (others.map raw)) = others) :
    tokenize (List.intercalate [' '] ((attr :: others).map raw)) = attr :: others := by
  cases others with
  | nil =>
    have alone := (spelled [] (fun _ => rfl) apart_nil).tokenize_append
    rw [List.append_nil, tokenize_nil] at alone
    simpa [List.intercalate] using alone
  | cons other others =>
    obtain ⟨rest, otherSpelled⟩ := begins other List.mem_cons_self
    have first := (spelled _ (fun empty => nomatch empty) (apart_of_spelled otherSpelled others)).tokenize_append
    have space := tokenize_append_of_isSpace (by decide : IsSpace [' '])
      (List.intercalate [' '] ((other :: others).map raw))
    rw [List.singleton_append] at space
    rw [intercalate_raw_cons, first, space, read]

/-- Some attributes of a head, in their order, are read again from their spellings. -/
theorem tokenize_intercalate_raw {head : Text} {kept : List Attribute} (sub : kept.Sublist (tokenize head)) :
    tokenize (List.intercalate [' '] (kept.map raw)) = kept := by
  induction head using scan.induct generalizing kept with
  | case1 head finished =>
    rw [tokenize_eq, finished] at sub
    obtain rfl : kept = [] := by simpa [Step.taken, Step.rest, tokenize_nil] using sub
    exact tokenize_nil
  | case2 head name valueless =>
    rw [tokenize_eq, valueless] at sub
    obtain rfl : kept = [] := by simpa [Step.taken, Step.rest, tokenize_nil] using sub
    exact tokenize_nil
  | case3 head rest skips ih =>
    rw [tokenize_eq, skips] at sub
    exact ih sub
  | case4 head attr rest finds _ _ _ ih =>
    rw [tokenize_of_found finds] at sub
    have spelled := (spelled_of_step finds).2
    rcases List.sublist_cons_iff.1 sub with later | ⟨others, rfl, later⟩
    · exact ih later
    refine tokenize_intercalate_cons (fun more last apart => spelled.move ?_ apart)
      (fun other member => spelled_of_mem_tokenize (later.subset member)) (ih later)
    -- Only the last attribute of a head reaches to its end, and there is no other behind it.
    rintro rfl
    rw [tokenize_nil] at later
    exact last (List.sublist_nil.1 later)

theorem flatMap_raw (attr : Attribute) (others : List Attribute) :
    ((attr :: others).map raw).flatMap (' ' :: ·) = ' ' :: List.intercalate [' '] ((attr :: others).map raw) := by
  induction others generalizing attr with
  | nil => simp [List.intercalate]
  | cons other others ih =>
    have later := ih other
    rw [intercalate_raw_cons, List.map_cons, List.flatMap_cons, later, List.cons_append]

/-- As `tokenize_intercalate_raw`, with a space in front of every attribute. -/
theorem tokenize_flatMap_raw {head : Text} {kept : List Attribute} (sub : kept.Sublist (tokenize head)) :
    tokenize ((kept.map raw).flatMap (' ' :: ·)) = kept := by
  have read := tokenize_intercalate_raw sub
  cases kept with
  | nil => exact tokenize_nil
  | cons attr others =>
    rw [flatMap_raw, ← List.singleton_append, tokenize_append_of_isSpace (by decide), read]

/-- An attribute with a value between double quotes. -/
def valued (name text : Text) : Attribute := ⟨name, some (.quoted '"', text), name ++ "=\"" ++ text ++ "\""⟩

/-- A value between double quotes ends at the first one, whatever follows. -/
theorem spelled_valued {name text : Text} (named : IsName name) (free : '"' ∉ text) (rest : Text) :
    Spelled (valued name text) rest := by
  have reads : readValue '"' (text ++ ['"'] ++ rest) = ((.quoted '"', text), rest) :=
    readValue_quoted (by decide) (fun c member (same : c = '"') => free (same ▸ member)) rest
  have spelled := Spelled.valued named (by decide : IsSpace []) (by decide : IsSpace []) (by decide) reads
  simpa [valued] using spelled

/-- The attribute that gives an element an id of its own. -/
def ofId (id : Text) : Attribute := ⟨"id", some (.quoted '"', id), "id=\"" ++ id ++ "\""⟩

theorem spelled_ofId {id : Text} (free : '"' ∉ id) (rest : Text) : Spelled (ofId id) rest :=
  spelled_valued (by decide : IsName "id") free rest

/-- The id that a fetch element draws has no quote. -/
theorem quoteless_nextId (ids : Counters) : '"' ∉ (ids.next "gtml-fetch").1 := by
  intro member
  change '"' ∈ ("gtml-fetch" ++ "-" : Text) ++ Text.ofNat (ids.count "gtml-fetch" + 1) at member
  rcases List.mem_append.1 member with stem | number
  · exact absurd stem (by decide)
  · exact absurd (Text.isDigit_of_mem_ofNat number) (by decide)

/-- A fetch element keeps its attributes but the request and the name of the data, and has one more in front of them if
it draws its id. -/
theorem tokenize_identify (head : Text) (page : Page) :
    ∃ id written later drawn, (Fetch.identify (tokenize head)).run page = (.ok (id, written), later) ∧
      (drawn = [] ∨ drawn = [ofId id]) ∧ tokenize (List.intercalate [' '] written) =
        drawn ++ (tokenize head).filter fun (attr : Attribute) => attr.name ≠ "fetch" ∧ attr.name ≠ "as" := by
  have sub := List.filter_sublist (l := tokenize head) (p := fun (attr : Attribute) => attr.name ≠ "fetch" ∧ attr.name ≠ "as")
  have read := tokenize_intercalate_raw sub
  have drawn : ∃ written later, (do
        let id ← Compile.nextId "gtml-fetch"
        pure (id, ("id=\"" ++ id ++ "\"") :: Fetch.keptAttributes (tokenize head)) : Compile (Text × List Text)).run page =
          (.ok ((page.ids.next "gtml-fetch").1, written), later) ∧
      tokenize (List.intercalate [' '] written) =
        ofId (page.ids.next "gtml-fetch").1 ::
          (tokenize head).filter fun (attr : Attribute) => attr.name ≠ "fetch" ∧ attr.name ≠ "as" :=
    ⟨_, _, rfl, tokenize_intercalate_cons (fun more _ _ => spelled_ofId (quoteless_nextId page.ids) more)
      (fun other member => spelled_of_mem_tokenize (sub.subset member)) read⟩
  rw [Fetch.identify]
  obtain ⟨written, later, ran, scanned⟩ := drawn
  split
  · exact ⟨_, written, later, _, ran, .inr rfl, scanned⟩
  · exact ⟨_, written, later, _, ran, .inr rfl, scanned⟩
  · next own _ _ => exact ⟨own, _, page, [], rfl, .inl rfl, read⟩

/-- Attributes of a head that are written again one behind the other are read as they were, also those of a head whose
quotations and braces are never closed. So it is with the attributes that the element around a slot's fill takes over,
and with those that a fetch element keeps. -/
theorem tokenize_rejoined (head : Text) :
    (∀ kept : List Attribute, kept.Sublist (tokenize head) →
      tokenize (List.intercalate [' '] (kept.map raw)) = kept) ∧
    (∀ body : Text, tokenize ((Slot.Usage.mk head body).extras.flatMap (' ' :: ·)) =
      (tokenize head).filter fun (attr : Attribute) => attr.name ≠ "name" ∧ attr.name ≠ "tag") ∧
    ∀ page : Page, ∃ id written later drawn, (Fetch.identify (tokenize head)).run page = (.ok (id, written), later) ∧
      (drawn = [] ∨ drawn = [ofId id]) ∧ tokenize (List.intercalate [' '] written) =
        drawn ++ (tokenize head).filter fun (attr : Attribute) => attr.name ≠ "fetch" ∧ attr.name ≠ "as" :=
  ⟨fun _ sub => tokenize_intercalate_raw sub, fun _ => tokenize_flatMap_raw List.filter_sublist, tokenize_identify head⟩

/-- A quotation that is never closed is kept up to its last space; stray slashes and equals signs belong to no
attribute. -/
theorem tokenize_rejoined_unclosed :
    ∃ kept : List Attribute, kept.Sublist (tokenize "/ a = 'x'b=\x7by\x7d = c > d=\"z ") ∧
      List.intercalate [' '] (kept.map raw) = "a = 'x' c d=\"z " ∧ tokenize "a = 'x' c d=\"z " = kept := by
  let kept : List Attribute :=
    [⟨"a", some (.quoted '\'', "x"), "a = 'x'"⟩, ⟨"c", none, "c"⟩, ⟨"d", some (.quoted '"', "z "), "d=\"z "⟩]
  have sub : kept.Sublist (tokenize "/ a = 'x'b=\x7by\x7d = c > d=\"z ") := by decide +kernel
  have written : List.intercalate [' '] (kept.map raw) = "a = 'x' c d=\"z " := by decide +kernel
  have read := (tokenize_rejoined "/ a = 'x'b=\x7by\x7d = c > d=\"z ").1 kept sub
  rw [written] at read
  exact ⟨kept, sub, written, read⟩

end Attribute

end ComponentPages
