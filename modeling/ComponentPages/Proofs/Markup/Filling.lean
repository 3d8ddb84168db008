import ComponentPages.Proofs.Attribute.Printing
import ComponentPages.Proofs.Markup.Injection

/-!
Slots and what fills them, in any text. A page may write its fills in any order and with any text between them, as long as
the text begins no slot, and a body may hold anything but the end of a slot. The fills are found with their attributes as
they are spelled, and a template has every placeholder replaced by its fill, or by nothing. So the order of the fills does
not matter.
-/
namespace ComponentPages

namespace Bindings

variable {α : Type}

theorem set_of_not_mem {name : Text} {bindings : Bindings α} (absent : name ∉ bindings.names) (value : α) :
    set name value bindings = bindings ++ [(name, value)] := by
  induction bindings with
  | nil => rfl
  | cons first bindings ih =>
    obtain ⟨other, old⟩ := first
    have different : other ≠ name := fun same => absent (same ▸ List.mem_cons_self)
    rw [set, if_neg different, ih fun member => absent (List.mem_cons_of_mem other member), List.cons_append]

/-- Pairs of different names are the bindings that they make. -/
theorem ofList_of_nodup {pairs : List (Text × α)} (distinct : (pairs.map Prod.fst).Nodup) : ofList pairs = pairs := by
  induction pairs using List.reverseRecOn with
  | nil => rfl
  | append_singleton pairs pair ih =>
    rw [List.map_append, List.map_singleton, List.nodup_append] at distinct
    have absent : pair.1 ∉ names (ofList pairs) := by
      rw [ih distinct.1]
      exact fun member => distinct.2.2 _ member _ List.mem_cons_self rfl
    rw [ofList_concat, set_of_not_mem absent, ih distinct.1]

theorem get?_eq_some_iff {name : Text} {value : α} {bindings : Bindings α} (distinct : bindings.names.Nodup) :
    bindings.get? name = some value ↔ (name, value) ∈ bindings := by
  refine ⟨mem_of_get?, fun member => ?_⟩
  induction bindings with
  | nil => cases member
  | cons first bindings ih =>
    obtain ⟨other, old⟩ := first
    obtain ⟨fresh, later⟩ := List.nodup_cons.1 distinct
    rw [get?_cons]
    rcases List.mem_cons.1 member with same | inRest
    · obtain ⟨rfl, rfl⟩ := Prod.mk.inj same
      rw [if_pos rfl]
    · have different : name ≠ other := by
        rintro rfl
        exact fresh (List.mem_map.2 ⟨_, inRest, rfl⟩)
      rw [if_neg different, ih later inRest]

/-- The order of bindings of different names does not matter for what they bind. -/
theorem get?_perm {first second : Bindings α} (same : first.Perm second) (distinct : first.names.Nodup) (name : Text) :
    first.get? name = second.get? name := by
  refine Option.ext fun value => ?_
  rw [get?_eq_some_iff distinct, get?_eq_some_iff ((same.map Prod.fst).nodup_iff.1 distinct), same.mem_iff]

end Bindings

namespace Pattern

/-- A pattern that begins with an angle bracket and a word without one passes over a text that does not have them, if an
angle bracket follows the text or nothing. -/
theorem passes_of_not_infix {α : Type} {read : Pattern α} (word : Text) (angle : '<' ∉ word)
    (needs : ∀ text, Text.after? ('<' :: word) text = none → read text = none) {piece rest : Text}
    (free : ¬ '<' :: word <:+: piece) (border : rest.head?.all (· == '<') = true) : Passes read piece rest := by
  intro before c after whole
  refine needs _ ?_
  by_contra some
  obtain ⟨behind, found⟩ := Option.ne_none_iff_exists'.1 some
  have begins := Text.eq_of_after? found
  obtain ⟨rfl, tail⟩ : c = '<' ∧ after ++ rest = word ++ behind := List.cons.inj begins
  obtain ⟨more, inside⟩ : ∃ more, after = word ++ more := by
    cases rest with
    | nil => exact ⟨behind, by simpa using tail⟩
    | cons d rest =>
      obtain rfl : d = '<' := by simpa using border
      have read := Text.after?_append word behind
      rw [← tail, Text.after?_append_border angle] at read
      obtain ⟨more, within, -⟩ := Option.map_eq_some_iff.1 read
      exact ⟨more, Text.eq_of_after? within⟩
  exact free ⟨before, more, by rw [whole, inside]; simp⟩

theorem values_append {α : Type} {read : Pattern α} {piece rest : Text} (passes : Passes read piece rest) :
    values read (piece ++ rest) = values read rest := by
  have plain : (piece.map Segment.plain).filterMap (Segment.value? (α := α)) = [] := by simp [Segment.value?]
  rw [values, segments_append passes, List.filterMap_append, plain, List.nil_append, values]

theorem values_hit {α : Type} {read : Pattern α} {piece rest : Text} {value : α} (nonempty : piece ≠ [])
    (takes : read (piece ++ rest) = some (value, rest)) : values read (piece ++ rest) = value :: values read rest := by
  rw [values, segments_hit nonempty takes, List.filterMap_cons]
  rfl

end Pattern

namespace Slot

/-! ### Fills -/

/-- A fill as a page may write it: the name of the slot, a tag to wrap the body in, further attributes, and white space in
front of the angle bracket. -/
structure Fill where
  name : Text
  tag? : Option Text
  extras : List Attribute.Entry
  ending : Text
  body : Text

/-- An attribute between single quotes. -/
def entry (gap name text : Text) : Attribute.Entry := ⟨gap, name, some ⟨[], [], .quoted '\'', text⟩⟩

/-- A further attribute of a fill, bare or with a value, with no angle bracket in it that closes. -/
structure IsExtra (extra : Attribute.Entry) : Prop where
  sound : extra.Sound
  apart : extra.gap ≠ []
  other : extra.name ≠ "name" ∧ extra.name ≠ "tag"
  free : ∀ assignment ∈ extra.assigned, '>' ∉ assignment.text

namespace Fill

/-- The attributes behind the name. -/
def others (fill : Fill) : List Attribute.Entry := (fill.tag?.map (entry " " "tag")).toList ++ fill.extras

def head (fill : Fill) : Text := (entry [] "name" fill.name :: fill.others).flatMap Attribute.Entry.print

def print (fill : Fill) : Text :=
  "<slot" ++ ' ' :: (fill.head ++ fill.ending ++ '>' :: (fill.body ++ "</slot>"))

/-- What goes in the place of the slot. -/
def content (fill : Fill) : Text :=
  match fill.tag? with
  | none => fill.body
  | some tag =>
    "<" ++ tag ++ (fill.extras.flatMap fun extra => ' ' :: extra.spelling) ++ ">" ++ fill.body ++ "</" ++ tag ++ ">"

structure IsSound (fill : Fill) : Prop where
  named : IsSlug fill.name
  tagged : ∀ tag ∈ fill.tag?, tag ≠ [] ∧ '\'' ∉ tag ∧ '>' ∉ tag
  extras : ∀ extra ∈ fill.extras, IsExtra extra
  unslashed : fill.head.getLast? ≠ some '/'
  ending : IsSpace fill.ending
  open_ : ¬ "</slot" <:+: fill.body

end Fill

theorem sound_entry {gap name text : Text} (blank : IsSpace gap) (named : Attribute.IsName name) (free : '\'' ∉ text) :
    (entry gap name text).Sound where
  gap := blank
  name := named
  assigned := by
    rintro assignment ⟨⟩
    have quoteless : ∀ c ∈ text, c ≠ '\'' := fun c member same => free (same ▸ member)
    exact ⟨(by decide : IsSpace []), (by decide : IsSpace []), by decide, quoteless⟩

/-- An attribute does not end in white space. -/
theorem exists_last {written : Attribute.Entry} (sound : written.Sound) :
    ∃ front last, written.spelling = front ++ [last] ∧ isBlank last = false := by
  obtain ⟨gap, name, assigned⟩ := written
  cases assigned with
  | none =>
    obtain ⟨front, last, rfl⟩ : ∃ front last, name = front ++ [last] :=
      (List.eq_nil_or_concat' name).resolve_left sound.name.1
    exact ⟨front, last, by simp [Attribute.Entry.spelling], (solid_of_isNamePart (sound.name.2 last (by simp))).1⟩
  | some assignment =>
    obtain ⟨left, right, quoting, text⟩ := assignment
    obtain ⟨-, -, holds⟩ := sound.assigned _ rfl
    obtain ⟨front, last, ends, solid⟩ : ∃ front last, quoting.enclose text = front ++ [last] ∧ isBlank last = false := by
      cases quoting with
      | unquoted =>
        obtain ⟨front, last, rfl⟩ : ∃ front last, text = front ++ [last] :=
          (List.eq_nil_or_concat' text).resolve_left holds.1
        exact ⟨front, last, rfl, holds.2.1 last (by simp)⟩
      | quoted quote => exact ⟨quote :: text, quote, rfl, isBlank_of_isQuote holds.1⟩
      | braces => exact ⟨'\x7b' :: text, '\x7d', rfl, by decide⟩
    exact ⟨name ++ (left ++ '=' :: right ++ front), last, by
      simp [Attribute.Entry.spelling, Attribute.Assignment.print, ends], solid⟩

/-- An attribute holds no angle bracket that closes if its value holds none. -/
theorem not_mem_print {written : Attribute.Entry} (sound : written.Sound)
    (free : ∀ assignment ∈ written.assigned, '>' ∉ assignment.text) : '>' ∉ written.print := by
  have blank {space : Text} (is : IsSpace space) : '>' ∉ space := fun member => absurd (is '>' member) (by decide)
  have name : '>' ∉ written.name := fun member => absurd (sound.name.2 '>' member) (by decide)
  refine List.not_mem_append (blank sound.gap) (List.not_mem_append name ?_)
  cases given : written.assigned with
  | none => exact List.not_mem_nil
  | some assignment =>
    obtain ⟨leftSpace, rightSpace, holds⟩ := sound.assigned assignment given
    have text := free assignment given
    have enclosed : '>' ∉ assignment.quoting.enclose assignment.text := by
      obtain ⟨left, right, quoting, value⟩ := assignment
      cases quoting with
      | unquoted => exact text
      | quoted quote =>
        have other : '>' ≠ quote := by
          rintro rfl
          exact absurd holds.1 (by decide)
        simpa [Quoting.enclose, other] using text
      | braces => simpa [Quoting.enclose] using text
    simpa [Attribute.Assignment.print, enclosed] using ⟨blank leftSpace, blank rightSpace⟩

namespace Fill

variable {fill : Fill}

theorem IsSound.quoteless (sound : fill.IsSound) : '\'' ∉ fill.name := fun member =>
  absurd (sound.named.2 '\'' member) (by decide +kernel)

/-- What is known of every attribute of a fill. -/
theorem IsSound.forall_entries (sound : fill.IsSound) : ∀ written ∈ entry [] "name" fill.name :: fill.others,
    written.Sound ∧ ∀ assignment ∈ written.assigned, '>' ∉ assignment.text := by
  have single {gap name text : Text} (free : '>' ∉ text) :
      ∀ assignment ∈ (entry gap name text).assigned, '>' ∉ assignment.text := by
    rintro assignment ⟨⟩
    exact free
  intro written member
  rcases List.mem_cons.1 member with rfl | member
  · have free : '>' ∉ fill.name := fun member => absurd (sound.named.2 '>' member) (by decide +kernel)
    exact ⟨sound_entry (by decide) (by decide) sound.quoteless, single free⟩
  · rcases List.mem_append.1 member with inTag | inExtras
    · obtain ⟨tag, given, rfl⟩ := Option.map_eq_some_iff.1 (Option.mem_toList.1 inTag)
      obtain ⟨-, quoteless, free⟩ := sound.tagged tag given
      exact ⟨sound_entry (by decide) (by decide) quoteless, single free⟩
    · have extra := sound.extras written inExtras
      exact ⟨extra.sound, extra.free⟩

theorem IsSound.gap_ne_nil (sound : fill.IsSound) : ∀ written ∈ fill.others, written.gap ≠ [] := by
  intro written member
  rcases List.mem_append.1 member with inTag | inExtras
  · obtain ⟨tag, given, rfl⟩ := Option.map_eq_some_iff.1 (Option.mem_toList.1 inTag)
    exact List.cons_ne_nil _ _
  · exact (sound.extras written inExtras).apart

theorem IsSound.not_mem_head (sound : fill.IsSound) : '>' ∉ fill.head := by
  intro member
  obtain ⟨written, listed, inside⟩ := List.mem_flatMap.1 member
  obtain ⟨entrySound, free⟩ := sound.forall_entries written listed
  exact not_mem_print entrySound free inside

theorem IsSound.exists_last_head (sound : fill.IsSound) :
    ∃ front last, fill.head = front ++ [last] ∧ isBlank last = false := by
  obtain ⟨init, final, whole⟩ : ∃ init final, entry [] "name" fill.name :: fill.others = init ++ [final] :=
    (List.eq_nil_or_concat' _).resolve_left (List.cons_ne_nil _ _)
  obtain ⟨entrySound, -⟩ := sound.forall_entries final (by rw [whole]; simp)
  obtain ⟨front, last, spelled, solid⟩ := exists_last entrySound
  refine ⟨init.flatMap Attribute.Entry.print ++ (final.gap ++ front), last, ?_, solid⟩
  rw [head, whole, List.flatMap_append, List.flatMap_singleton, Attribute.Entry.print, spelled]
  simp

/-- The head of a fill is read as the attributes that it is written with. -/
theorem IsSound.tokenize_head (sound : fill.IsSound) :
    Attribute.tokenize fill.head = (entry [] "name" fill.name :: fill.others).map Attribute.Entry.scanned := by
  have read := @Attribute.tokenize_flatMap_print (entry [] "name" fill.name :: fill.others) [] (by decide)
    (fun written member => (sound.forall_entries written member).1) sound.gap_ne_nil
  rwa [List.append_nil] at read

/-- A body is read up to the first end of a slot. -/
theorem seek?_closing {body : Text} (open_ : ¬ "</slot" <:+: body) (rest : Text) :
    Pattern.seek? (Block.closing? (Text.after? "slot")) (body ++ ("</slot>" ++ rest)) = some (body, (), rest) := by
  have needs (text : Text) (nothing : Text.after? "</slot" text = none) : Block.closing? (Text.after? "slot") text = none := by
    rw [Block.closing?]
    cases opened : Text.after? "</" text with
    | none => rfl
    | some named =>
      have missing : Text.after? "slot" named = none := by
        by_contra some
        obtain ⟨behind, found⟩ := Option.ne_none_iff_exists'.1 some
        have begins : text = "</slot" ++ behind := by
          rw [Text.eq_of_after? opened, Text.eq_of_after? found]
          rfl
        rw [begins, Text.after?_append] at nothing
        cases nothing
      rw [Option.bind_eq_bind, Option.bind_some, missing]
      rfl
  have passes : Pattern.Passes (Block.closing? (Text.after? "slot")) body ("</slot>" ++ rest) :=
    Pattern.passes_of_not_infix "/slot" (by decide) needs open_ rfl
  have closes : Pattern.seek? (Block.closing? (Text.after? "slot")) ("</slot>" ++ rest) = some ([], (), rest) := rfl
  rw [Pattern.seek?_append passes, closes, Option.map_some]
  dsimp only
  rw [List.append_nil]

/-- A fill is read up to the end of its slot. -/
theorem IsSound.usage_print (sound : fill.IsSound) (rest : Text) :
    usage (fill.print ++ rest) = some (⟨fill.head, fill.body⟩, rest) := by
  have whole : fill.print ++ rest =
      "<slot" ++ (' ' :: (fill.head ++ fill.ending ++ '>' :: (fill.body ++ ("</slot>" ++ rest)))) := by
    rw [print]
    generalize ("<slot" : Text) = slot, ("</slot>" : Text) = closing
    simp only [List.append_assoc, List.cons_append]
  obtain ⟨front, last, ends, solid⟩ := sound.exists_last_head
  have begins : Text.trimLeft (' ' :: (fill.head ++ fill.ending ++ '>' :: (fill.body ++ ("</slot>" ++ rest)))) =
      fill.head ++ fill.ending ++ '>' :: (fill.body ++ ("</slot>" ++ rest)) :=
    Text.trimLeft_append_cons (by decide : IsSpace [' ']) (by decide : isBlank 'n' = false) _
  have free : ∀ c ∈ fill.head ++ fill.ending, c ≠ '>' := by
    rintro c member rfl
    rcases List.mem_append.1 member with inHead | inEnding
    · exact sound.not_mem_head inHead
    · exact absurd (sound.ending '>' inEnding) (by decide)
  have trimmed : Text.trimRight (fill.head ++ fill.ending) = fill.head := by
    rw [Text.trimRight_append_of_space _ sound.ending, ends, Text.trimRight_concat_of_not_blank solid]
  have unclosed : fill.head.getLast?.all (· == '/') = false := by
    have other := sound.unslashed
    rw [ends, List.getLast?_concat] at other ⊢
    simpa using other
  rw [whole, usage, Text.after?_append, Option.bind_eq_bind, Option.bind_some, begins, Text.cut?_append free]
  dsimp only [Option.bind_eq_bind, Option.bind_some]
  rw [trimmed, unclosed, seek?_closing sound.open_]
  rfl

theorem lookup_bindings {name : Text} {entries : List Attribute.Entry} (other : ∀ written ∈ entries, written.name ≠ name) :
    (entries.filterMap Attribute.Entry.binding?).reverse.lookup name = none := by
  rw [List.lookup_eq_none_iff]
  intro pair member
  obtain ⟨written, listed, bound⟩ := List.mem_filterMap.1 (List.mem_reverse.1 member)
  obtain ⟨assignment, -, rfl⟩ := Option.map_eq_some_iff.1 bound
  simpa using (other written listed).symm

/-- An attribute has the value that it is given last. -/
theorem lookup_entry {gap name text : Text} (before : List Attribute.Entry) {after : List Attribute.Entry}
    (other : ∀ written ∈ after, written.name ≠ name) :
    ((before ++ entry gap name text :: after).filterMap Attribute.Entry.binding?).reverse.lookup name = some text := by
  have bound : (entry gap name text).binding? = some (name, text) := rfl
  rw [List.filterMap_append, List.filterMap_cons, bound]
  dsimp only
  rw [List.reverse_append, List.reverse_cons, List.lookup_append, List.lookup_append, lookup_bindings other]
  simp

/-- The name and the tag of a fill are read off its head. -/
theorem IsSound.get?_table (sound : fill.IsSound) :
    (Attribute.table fill.head).get? "name" = some fill.name ∧ (Attribute.table fill.head).get? "tag" = fill.tag? := by
  have read := (@Attribute.tokenize_printed (entry [] "name" fill.name :: fill.others) [] (by decide)
    (fun written member => (sound.forall_entries written member).1) sound.gap_ne_nil).2.2
  rw [List.append_nil] at read
  have extras {name : Text} (reserved : name = "name" ∨ name = "tag") : ∀ written ∈ fill.extras, written.name ≠ name := by
    intro written member same
    have other := (sound.extras written member).other
    rw [same] at other
    exact reserved.elim other.1 other.2
  have tagged : ∀ written ∈ (fill.tag?.map (entry " " "tag")).toList, written.name ≠ "name" := by
    intro written member
    obtain ⟨tag, -, rfl⟩ := Option.map_eq_some_iff.1 (Option.mem_toList.1 member)
    exact (by decide : ("tag" : Text) ≠ "name")
  refine ⟨?_, ?_⟩
  · rw [head, read]
    exact lookup_entry [] fun written member => (List.mem_append.1 member).elim (tagged written) (extras (.inl rfl) written)
  · rw [head, read, others]
    cases fill.tag? with
    | none =>
      refine lookup_bindings fun written member => ?_
      rcases List.mem_cons.1 member with rfl | inExtras
      · exact (by decide : ("name" : Text) ≠ "tag")
      · exact extras (.inr rfl) written inExtras
    | some tag => exact lookup_entry [entry [] "name" fill.name] (extras (.inr rfl))

/-- A fill is wrapped in its tag, with its further attributes as they are spelled. -/
theorem IsSound.markup_eq (sound : fill.IsSound) : Usage.markup ⟨fill.head, fill.body⟩ = fill.content := by
  have tag : Usage.tag ⟨fill.head, fill.body⟩ = fill.tag?.getD [] := by rw [Usage.tag, sound.get?_table.2]
  have spellings : Usage.extras ⟨fill.head, fill.body⟩ = fill.extras.map Attribute.Entry.spelling := by
    have kept : ∀ written ∈ fill.extras, decide (written.name ≠ "name" ∧ written.name ≠ "tag") = true :=
      fun written member => decide_eq_true (sound.extras written member).other
    have taken : ((fill.tag?.map (entry " " "tag")).toList.filter fun written : Attribute.Entry =>
        written.name ≠ "name" ∧ written.name ≠ "tag") = [] := by
      cases fill.tag? <;> rfl
    rw [Usage.extras, sound.tokenize_head, List.filter_map, List.map_map]
    change ((entry [] "name" fill.name :: fill.others).filter fun written : Attribute.Entry =>
      written.name ≠ "name" ∧ written.name ≠ "tag").map Attribute.Entry.spelling = _
    rw [List.filter_cons_of_neg (by simp [entry]), others, List.filter_append, taken, List.filter_eq_self.2 kept,
      List.nil_append]
  rw [Usage.markup, tag, spellings, content, List.flatMap_map]
  cases given : fill.tag? with
  | none => rfl
  | some tag =>
    obtain ⟨c, tag, rfl⟩ := List.exists_cons_of_ne_nil (sound.tagged tag given).1
    rfl

end Fill

/-- Fills with a text behind each, and a text in front of all. -/
def children (front : Text) (placed : List (Fill × Text)) : Text :=
  front ++ placed.flatMap fun (fill, gap) => fill.print ++ gap

/-- Fills of different slots, with texts around them that begin no slot. -/
structure IsPlaced (front : Text) (placed : List (Fill × Text)) : Prop where
  front : ¬ "<slot" <:+: front
  sound : ∀ pair ∈ placed, pair.1.IsSound ∧ ¬ "<slot" <:+: pair.2
  distinct : (placed.map fun pair => pair.1.name).Nodup

/-- The fills are found in the order in which they stand. -/
theorem values_children {front : Text} {placed : List (Fill × Text)} (free : ¬ "<slot" <:+: front)
    (sound : ∀ pair ∈ placed, pair.1.IsSound ∧ ¬ "<slot" <:+: pair.2) :
    Pattern.values usage (children front placed) = placed.map fun pair => ⟨pair.1.head, pair.1.body⟩ := by
  have needs (text : Text) (nothing : Text.after? "<slot" text = none) : usage text = none := by
    rw [usage, nothing]
    rfl
  induction placed generalizing front with
  | nil =>
    have passes : Pattern.Passes usage front [] := Pattern.passes_of_not_infix "slot" (by decide) needs free rfl
    rw [children, List.flatMap_nil, Pattern.values_append passes, Pattern.values, Pattern.segments]
    rfl
  | cons pair placed ih =>
    obtain ⟨fill, gap⟩ := pair
    obtain ⟨fillSound, gapFree⟩ := sound _ List.mem_cons_self
    have whole : children front ((fill, gap) :: placed) = front ++ (fill.print ++ children gap placed) := by
      rw [children, children, List.flatMap_cons, List.append_assoc]
    have passes : Pattern.Passes usage front (fill.print ++ children gap placed) :=
      Pattern.passes_of_not_infix "slot" (by decide) needs free rfl
    have nonempty : fill.print ≠ [] := List.cons_ne_nil _ _
    rw [whole, Pattern.values_append passes, Pattern.values_hit nonempty (fillSound.usage_print _),
      ih gapFree fun other member => sound other (List.mem_cons_of_mem _ member), List.map_cons]

/-- What is put in the place of each slot. -/
def contents (placed : List (Fill × Text)) : Bindings Text := placed.map fun pair => (pair.1.name, pair.1.content)

/-- The fills of a page are those that it is written with. -/
theorem IsPlaced.fills_eq {front : Text} {placed : List (Fill × Text)} (is : IsPlaced front placed) :
    fills (children front placed) = contents placed := by
  have named {pair : Fill × Text} (member : pair ∈ placed) : Usage.name ⟨pair.1.head, pair.1.body⟩ = pair.1.name := by
    rw [Usage.name, (is.sound pair member).1.get?_table.1, Option.getD_some]
  have kept : ∀ usage ∈ placed.map fun pair => (⟨pair.1.head, pair.1.body⟩ : Usage), (usage.name != []) = true := by
    intro usage member
    obtain ⟨pair, listed, rfl⟩ := List.mem_map.1 member
    rw [named listed]
    simpa using (is.sound pair listed).1.named.1
  have pairs : (placed.map fun pair => (⟨pair.1.head, pair.1.body⟩ : Usage)).map
      (fun usage => (usage.name, usage.markup)) = contents placed := by
    rw [List.map_map]
    refine List.map_congr_left fun pair member => ?_
    rw [Function.comp_apply, named member, (is.sound pair member).1.markup_eq]
  have distinct : ((contents placed).map Prod.fst).Nodup := by
    rw [contents, List.map_map]
    exact is.distinct
  rw [fills, values_children is.front is.sound, List.filter_eq_self.2 kept, pairs, Bindings.ofList_of_nodup distinct]

theorem inject_congr {first second : Bindings Text} (same : ∀ name, first.get? name = second.get? name) (template : Text) :
    inject template first = inject template second := by
  have filled : (fun name => (first.get? name).getD []) = fun name => (second.get? name).getD [] :=
    funext fun name => by rw [same]
  rw [inject, inject, filled]

/-- The fills of a page are found with their contents, and a template gets the contents in the place of its placeholders
and nothing in the place of the others. The same fills in another order, with other texts around them, fill every template
in the same way. -/
theorem inject_children {front : Text} {placed : List (Fill × Text)} (is : IsPlaced front placed) :
    fills (children front placed) = contents placed ∧
      (∀ template result, Injected (fun name => ((contents placed).get? name).getD []) template result ↔
        inject template (fills (children front placed)) = result) ∧
      ∀ start shuffled, IsPlaced start shuffled → (shuffled.map Prod.fst).Perm (placed.map Prod.fst) →
        ∀ template, inject template (fills (children start shuffled)) = inject template (fills (children front placed)) := by
  refine ⟨is.fills_eq, fun template result => ?_, fun start shuffled other permuted template => ?_⟩
  · rw [is.fills_eq]
    exact injected_iff (contents placed)
  · have contentsPerm : (contents shuffled).Perm (contents placed) := by
      have mapped := permuted.map fun fill : Fill => (fill.name, fill.content)
      rwa [List.map_map, List.map_map] at mapped
    have distinct : (contents shuffled).names.Nodup := by
      rw [Bindings.names, contents, List.map_map]
      exact other.distinct
    rw [other.fills_eq, is.fills_eq]
    exact inject_congr (Bindings.get?_perm contentsPerm distinct) template

/-- The fill of a slot by an element of its own, with attributes of every kind. -/
def asideFill : Fill :=
  ⟨"side", some "aside", [⟨" ", "class", some ⟨[], [], .quoted '"', "a b"⟩⟩, ⟨" ", "n", some ⟨" ", " ", .unquoted, "1/"⟩⟩,
    ⟨" ", "open", none⟩], " ", "x<slot name='main' />"⟩

/-- The fill of a slot with the placeholder of another one. -/
def mainFill : Fill := ⟨"main", none, [], [], "\x7b\x7b slot: side \x7d\x7d"⟩

theorem isSound_asideFill : asideFill.IsSound := by
  refine ⟨⟨by decide, by decide +kernel⟩, ?_, ?_, by decide +kernel, by decide, by decide +kernel⟩
  · rintro _ ⟨⟩
    decide
  · simp only [asideFill, List.forall_mem_cons, List.not_mem_nil, false_implies, implies_true, and_true]
    refine ⟨⟨⟨by decide, by decide, ?_⟩, by decide, by decide, ?_⟩, ⟨⟨by decide, by decide, ?_⟩, by decide, by decide, ?_⟩,
      ⟨⟨by decide, by decide, ?_⟩, by decide, by decide, ?_⟩⟩
    · rintro _ ⟨⟩
      exact ⟨by decide, by decide, by decide, by decide⟩
    · rintro _ ⟨⟩
      decide
    · rintro _ ⟨⟩
      refine ⟨by decide, by decide, by decide, by decide, ?_⟩
      rintro _ ⟨⟩
      decide
    · rintro _ ⟨⟩
      decide
    · rintro _ ⟨⟩
    · rintro _ ⟨⟩

theorem isSound_mainFill : mainFill.IsSound := by
  refine ⟨⟨by decide, by decide +kernel⟩, ?_, ?_, by decide +kernel, by decide, by decide +kernel⟩
  · rintro _ ⟨⟩
  · rintro _ ⟨⟩

/-- A wrapped fill whose body holds a placeholder, and a fill that holds a label, in both orders. -/
theorem inject_children_aside :
    fills ("<p><slot name='side' tag='aside' class=\"a b\" n = 1/ open >x<slot name='main' /></slot>\n" ++
        "<slot name='main'>\x7b\x7b slot: side \x7d\x7d</slot>") =
      [("side".toList, "<aside class=\"a b\" n = 1/ open>x<slot name='main' /></aside>".toList),
        ("main".toList, "\x7b\x7b slot: side \x7d\x7d".toList)] ∧
      ∀ template, inject template (fills ("<slot name='main'>\x7b\x7b slot: side \x7d\x7d</slot>" ++
          "<slot name='side' tag='aside' class=\"a b\" n = 1/ open >x<slot name='main' /></slot></p>")) =
        inject template (fills ("<p><slot name='side' tag='aside' class=\"a b\" n = 1/ open >x<slot name='main' /></slot>\n" ++
          "<slot name='main'>\x7b\x7b slot: side \x7d\x7d</slot>")) := by
  have placed {front behind between : Text} (frontFree : ¬ "<slot" <:+: front) (betweenFree : ¬ "<slot" <:+: between)
      (behindFree : ¬ "<slot" <:+: behind) : IsPlaced front [(asideFill, between), (mainFill, behind)] ∧
        IsPlaced front [(mainFill, between), (asideFill, behind)] := by
    refine ⟨⟨frontFree, ?_, (by decide : ["side".toList, "main".toList].Nodup)⟩,
      ⟨frontFree, ?_, (by decide : ["main".toList, "side".toList].Nodup)⟩⟩
    · simp only [List.forall_mem_cons, List.not_mem_nil, false_implies, implies_true, and_true]
      exact ⟨⟨isSound_asideFill, betweenFree⟩, isSound_mainFill, behindFree⟩
    · simp only [List.forall_mem_cons, List.not_mem_nil, false_implies, implies_true, and_true]
      exact ⟨⟨isSound_mainFill, betweenFree⟩, isSound_asideFill, behindFree⟩
  have first := (@placed "<p>" [] "\n" (by decide +kernel) (by decide +kernel) (by decide +kernel)).1
  have second := (@placed [] "</p>" [] (by decide +kernel) (by decide +kernel) (by decide +kernel)).2
  obtain ⟨found, -, same⟩ := inject_children first
  have swapped := same [] _ second (List.Perm.swap asideFill mainFill [])
  have firstText : children "<p>" [(asideFill, "\n"), (mainFill, [])] =
      "<p><slot name='side' tag='aside' class=\"a b\" n = 1/ open >x<slot name='main' /></slot>\n" ++
        "<slot name='main'>\x7b\x7b slot: side \x7d\x7d</slot>" := by decide +kernel
  have secondText : children [] [(mainFill, []), (asideFill, "</p>")] =
      "<slot name='main'>\x7b\x7b slot: side \x7d\x7d</slot>" ++
        "<slot name='side' tag='aside' class=\"a b\" n = 1/ open >x<slot name='main' /></slot></p>" := by decide +kernel
  rw [firstText] at found swapped
  rw [secondText] at swapped
  exact ⟨found.trans (by decide +kernel), swapped⟩

end Slot

end ComponentPages
