import ComponentPages.Proofs.Pattern
import ComponentPages.Slot

/-!
The placeholders of a template. A placeholder is the tag of a slot or a label in double braces, and injection puts its fill
in the place of each, from the left, and keeps every other character. The labels are first written as tags, and that makes
no new placeholder and takes none away: a tag begins with an angle bracket and holds no other.
-/
namespace ComponentPages

namespace Pattern

theorem replace_cons {α : Type} {read : Pattern α} {c : Char} {text : Text} (nothing : read (c :: text) = none)
    (write : α → Text) : replace read write (c :: text) = c :: replace read write text :=
  replace_append (passes_cons_iff.2 ⟨nothing, passes_nil read text⟩ : Passes read [c] text) write

end Pattern

namespace Slot

/-! ### Placeholders -/

def IsSlug (name : Text) : Prop := name ≠ [] ∧ ∀ c ∈ name, isSlugPart c = true

/-- The tag of a slot, as a template may write it. Its two quotes need not agree. -/
inductive Tag (name : Text) : Text → Prop where
  | spelled {gap left right ending : Text} {first last : Char} (apart : gap ≠ []) (gapSpace : IsSpace gap)
      (leftSpace : IsSpace left) (rightSpace : IsSpace right) (endingSpace : IsSpace ending)
      (firstQuote : isQuote first = true) (lastQuote : isQuote last = true) :
      Tag name ("<slot" ++ (gap ++ ("name" ++ (left ++ ("=" ++ (right ++ first :: (name ++ last :: (ending ++ "/>"))))))))

/-- The older spelling of a placeholder. -/
inductive Label (name : Text) : Text → Prop where
  | spelled {before between after : Text} (beforeSpace : IsSpace before) (betweenSpace : IsSpace between)
      (afterSpace : IsSpace after) :
      Label name ("\x7b\x7b" ++ (before ++ ("slot:" ++ (between ++ (name ++ (after ++ "\x7d\x7d"))))))

/-- A placeholder of a name, as a template may write it. -/
def Spells (spelling name : Text) : Prop := IsSlug name ∧ (Tag name spelling ∨ Label name spelling)

theorem eq_cons_of_unquote {text rest : Text} (found : placeholder.unquote text = some rest) :
    ∃ quote, isQuote quote = true ∧ text = quote :: rest := by
  cases text with
  | nil => cases found
  | cons c text =>
    rw [placeholder.unquote] at found
    split at found
    · next quotes =>
      obtain rfl := Option.some.inj found
      exact ⟨c, quotes, rfl⟩
    · cases found

/-- What is read as a placeholder is the tag of a slot. -/
theorem exists_of_placeholder {text name rest : Text} (read : placeholder text = some (name, rest)) :
    ∃ spelling, IsSlug name ∧ Tag name spelling ∧ text = spelling ++ rest := by
  unfold placeholder at read
  simp only [Option.bind_eq_bind, Option.bind_eq_some_iff] at read
  obtain ⟨named, opened, read⟩ := read
  split at read
  · cases read
  next blank =>
  simp only [Option.bind_eq_some_iff] at read
  obtain ⟨afterName, label, afterEquals, equals, afterQuote, unquoted, ⟨found, afterSlug⟩, ran, behind, closed, tail, ends,
    same⟩ := read
  obtain ⟨rfl, rfl⟩ := Prod.mk.inj (Option.some.inj same)
  obtain ⟨gap, gapSpace, gapped⟩ := Text.exists_eq_trimLeft named
  obtain ⟨left, leftSpace, lefted⟩ := Text.exists_eq_trimLeft afterName
  obtain ⟨right, rightSpace, righted⟩ := Text.exists_eq_trimLeft afterEquals
  obtain ⟨ending, endingSpace, ended⟩ := Text.exists_eq_trimLeft behind
  obtain ⟨first, firstQuote, quoted⟩ := eq_cons_of_unquote unquoted
  obtain ⟨last, lastQuote, rfl⟩ := eq_cons_of_unquote closed
  obtain ⟨rfl, parts⟩ := Pattern.eq_of_run ran
  have apart : gap ≠ [] := by
    rintro rfl
    rw [List.nil_append, Text.eq_of_after? label] at gapped
    rw [gapped] at blank
    exact blank rfl
  have slug : IsSlug found := ⟨Pattern.ne_nil_of_run ran, parts⟩
  refine ⟨_, slug, .spelled apart gapSpace leftSpace rightSpace endingSpace firstQuote lastQuote, ?_⟩
  rw [Text.eq_of_after? opened, gapped, Text.eq_of_after? label, lefted, Text.eq_of_after? equals, righted, quoted, ended,
    Text.eq_of_after? ends]
  generalize ("<slot" : Text) = slot, ("name" : Text) = nameWord, ("=" : Text) = equal, ("/>" : Text) = close
  simp

theorem placeholder_append {name spelling : Text} (slug : IsSlug name) (tag : Tag name spelling) (rest : Text) :
    placeholder (spelling ++ rest) = some (name, rest) := by
  obtain @⟨gap, left, right, ending, first, last, apart, gapSpace, leftSpace, rightSpace, endingSpace, firstQuote,
    lastQuote⟩ := tag
  have whole :
      "<slot" ++ (gap ++ ("name" ++ (left ++ ("=" ++ (right ++ first :: (name ++ last :: (ending ++ "/>"))))))) ++ rest =
      "<slot" ++ (gap ++ ("name" ++ (left ++ ("=" ++ (right ++ first :: (name ++ last :: (ending ++ ("/>" ++ rest)))))))) := by
    generalize ("<slot" : Text) = slot, ("name" : Text) = label, ("=" : Text) = equal, ("/>" : Text) = close
    simp
  have blank (more : Text) : (gap ++ more).head?.any isBlank = true := by
    obtain ⟨c, gap, rfl⟩ := List.exists_cons_of_ne_nil apart
    simpa using gapSpace c List.mem_cons_self
  have gapped (more : Text) : Text.trimLeft (gap ++ ("name" ++ more)) = "name" ++ more :=
    Text.trimLeft_append_cons gapSpace (by decide) _
  have lefted (more : Text) : Text.trimLeft (left ++ ("=" ++ more)) = "=" ++ more :=
    Text.trimLeft_append_cons leftSpace (by decide) _
  have righted (more : Text) : Text.trimLeft (right ++ first :: more) = first :: more :=
    Text.trimLeft_append_cons rightSpace (isBlank_of_isQuote firstQuote) more
  have ended (more : Text) : Text.trimLeft (ending ++ ("/>" ++ more)) = "/>" ++ more :=
    Text.trimLeft_append_cons endingSpace (by decide) _
  have unquoted {quote : Char} (quotes : isQuote quote = true) (more : Text) :
      placeholder.unquote (quote :: more) = some more := by
    rw [placeholder.unquote, if_pos quotes]
  have foreign : isSlugPart last = false := by
    rcases isQuote_iff.1 lastQuote with rfl | rfl
    · decide +kernel
    · decide +kernel
  have ran (more : Text) : Pattern.run isSlugPart (name ++ last :: more) = some (name, last :: more) :=
    Pattern.run_append slug.1 slug.2 (by simp [foreign])
  rw [whole, placeholder, Text.after?_append, Option.bind_eq_bind, Option.bind_some, blank,
    if_neg (by decide : ¬ (!true) = true)]
  dsimp only [Option.bind_eq_bind]
  rw [gapped, Text.after?_append, Option.bind_some, lefted, Text.after?_append, Option.bind_some,
    righted, unquoted firstQuote, Option.bind_some, ran, Option.bind_some]
  dsimp only
  rw [unquoted lastQuote, Option.bind_some, ended, Text.after?_append, Option.bind_some]

/-- What is read as a label is one. -/
theorem exists_of_marker {text name rest : Text} (read : marker text = some (name, rest)) :
    ∃ spelling, IsSlug name ∧ Label name spelling ∧ text = spelling ++ rest := by
  unfold marker at read
  simp only [Option.bind_eq_bind, Option.bind_eq_some_iff] at read
  obtain ⟨opened, opens, behind, labelled, ⟨found, afterName⟩, ran, tail, closes, same⟩ := read
  obtain ⟨rfl, rfl⟩ := Prod.mk.inj (Option.some.inj same)
  obtain ⟨before, beforeSpace, first⟩ := Text.exists_eq_trimLeft opened
  obtain ⟨between, betweenSpace, second⟩ := Text.exists_eq_trimLeft behind
  obtain ⟨after, afterSpace, third⟩ := Text.exists_eq_trimLeft afterName
  obtain ⟨named, parts⟩ := Pattern.eq_of_run ran
  refine ⟨_, ⟨Pattern.ne_nil_of_run ran, parts⟩, .spelled beforeSpace betweenSpace afterSpace, ?_⟩
  rw [Text.eq_of_after? opens, first, Text.eq_of_after? labelled, second, named, third, Text.eq_of_after? closes]
  generalize ("\x7b\x7b" : Text) = opening, ("slot:" : Text) = word, ("\x7d\x7d" : Text) = closing
  simp

theorem marker_append {name spelling : Text} (slug : IsSlug name) (label : Label name spelling) (rest : Text) :
    marker (spelling ++ rest) = some (name, rest) := by
  obtain @⟨before, between, after, beforeSpace, betweenSpace, afterSpace⟩ := label
  have whole : "\x7b\x7b" ++ (before ++ ("slot:" ++ (between ++ (name ++ (after ++ "\x7d\x7d"))))) ++ rest =
      "\x7b\x7b" ++ (before ++ ("slot:" ++ (between ++ (name ++ (after ++ ("\x7d\x7d" ++ rest)))))) := by
    generalize ("\x7b\x7b" : Text) = opening, ("slot:" : Text) = word, ("\x7d\x7d" : Text) = closing
    simp
  have first (more : Text) : Text.trimLeft (before ++ ("slot:" ++ more)) = "slot:" ++ more :=
    Text.trimLeft_append_cons beforeSpace (by decide) _
  have second (more : Text) : Text.trimLeft (between ++ (name ++ more)) = name ++ more := by
    obtain ⟨c, name, rfl⟩ := List.exists_cons_of_ne_nil slug.1
    have solid : isBlank c = false := by
      by_contra blank
      have foreign := isSlugPart_of_isBlank (by simpa using blank)
      rw [slug.2 c List.mem_cons_self] at foreign
      cases foreign
    exact Text.trimLeft_append_cons betweenSpace solid _
  have third (more : Text) : Text.trimLeft (after ++ ("\x7d\x7d" ++ more)) = "\x7d\x7d" ++ more :=
    Text.trimLeft_append_cons afterSpace (by decide) _
  have stops (more : Text) : (after ++ ("\x7d\x7d" ++ more)).head?.all (fun c => !isSlugPart c) = true := by
    cases after with
    | nil => exact (by decide +kernel : (!isSlugPart '\x7d') = true)
    | cons c after => simpa using isSlugPart_of_isBlank (afterSpace c List.mem_cons_self)
  rw [whole, marker, Text.after?_append, Option.bind_eq_bind, Option.bind_some, first, Text.after?_append,
    Option.bind_eq_bind, Option.bind_some, second, Pattern.run_append slug.1 slug.2 (stops rest), Option.bind_some]
  dsimp only
  rw [third, Text.after?_append, Option.bind_some]

theorem Spells.ne_nil {spelling name : Text} (spells : Spells spelling name) : spelling ≠ [] := by
  rcases spells.2 with tag | label
  · obtain ⟨-⟩ := tag
    exact List.cons_ne_nil _ _
  · obtain ⟨-⟩ := label
    exact List.cons_ne_nil _ _

/-- A text begins with a placeholder in one way at most. -/
theorem Spells.unique {first second name other rest after : Text} (spells : Spells first name)
    (others : Spells second other) (same : first ++ rest = second ++ after) : name = other ∧ rest = after := by
  have apart {tag label one two front behind : Text} (is : Tag one tag) (older : Label two label) :
      tag ++ front ≠ label ++ behind := by
    obtain ⟨-⟩ := is
    obtain ⟨-⟩ := older
    exact fun same => absurd (List.cons.inj same).1 (by decide)
  obtain ⟨slug, tag | label⟩ := spells <;> obtain ⟨otherSlug, otherTag | otherLabel⟩ := others
  · have read := placeholder_append slug tag rest
    rw [same, placeholder_append otherSlug otherTag after] at read
    exact ⟨(Prod.mk.inj (Option.some.inj read)).1.symm, (Prod.mk.inj (Option.some.inj read)).2.symm⟩
  · exact absurd same (apart tag otherLabel)
  · exact absurd same.symm (apart otherTag label)
  · have read := marker_append slug label rest
    rw [same, marker_append otherSlug otherLabel after] at read
    exact ⟨(Prod.mk.inj (Option.some.inj read)).1.symm, (Prod.mk.inj (Option.some.inj read)).2.symm⟩

/-! ### Injection -/

/-- A template with every placeholder replaced, from the left. A character is kept where no placeholder begins. -/
inductive Injected (fill : Text → Text) : (template result : Text) → Prop where
  | done : Injected fill [] []
  | placed {spelling name template result : Text} (spells : Spells spelling name) (rest : Injected fill template result) :
      Injected fill (spelling ++ template) (fill name ++ result)
  | kept {c : Char} {template result : Text} (nothing : ∀ spelling name, Spells spelling name → ¬ spelling <+: c :: template)
      (rest : Injected fill template result) : Injected fill (c :: template) (c :: result)

/-- A template is filled in one way. -/
theorem Injected.unique {fill : Text → Text} {template first second : Text} (injected : Injected fill template first)
    (again : Injected fill template second) : first = second := by
  induction injected generalizing second with
  | done =>
    generalize whole : ([] : Text) = text at again
    cases again with
    | done => rfl
    | placed spells =>
      exact absurd (List.append_eq_nil_iff.1 whole.symm).1 spells.ne_nil
    | kept => cases whole
  | @placed spelling name template result spells rest ih =>
    generalize whole : spelling ++ template = text at again
    cases again with
    | done => exact absurd (List.append_eq_nil_iff.1 whole).1 spells.ne_nil
    | placed others later =>
      obtain ⟨rfl, rfl⟩ := spells.unique others whole
      rw [ih later]
    | kept nothing => exact absurd ⟨template, whole⟩ (nothing spelling name spells)
  | @kept c template result nothing rest ih =>
    generalize whole : c :: template = text at again
    cases again with
    | done => cases whole
    | placed others => exact absurd ⟨_, whole.symm⟩ (nothing _ _ others)
    | kept _ later =>
      obtain ⟨rfl, rfl⟩ := List.cons.inj whole
      rw [ih later]

theorem tag_written (name : Text) : Tag name ("<slot name='" ++ name ++ "' />") := by
  have written := @Tag.spelled name [' '] [] [] [' '] '\'' '\'' (by decide) (by decide) (by decide) (by decide) (by decide)
    (by decide) (by decide)
  rw [List.append_assoc]
  exact written

/-- A tag holds no brace, and an angle bracket only at its front. -/
theorem Tag.exists_tail {name spelling : Text} (slug : IsSlug name) (tag : Tag name spelling) :
    ∃ tail, spelling = '<' :: tail ∧ '<' ∉ tail ∧ '\x7b' ∉ tail := by
  obtain @⟨gap, left, right, ending, first, last, -, gapSpace, leftSpace, rightSpace, endingSpace, firstQuote,
    lastQuote⟩ := tag
  have free {d : Char} (solid : isBlank d = false) (quoteless : isQuote d = false) (foreign : isSlugPart d = false)
      (words : d ∉ ("slotname=/>" : Text)) :
      d ∉ "slot" ++ (gap ++ ("name" ++ (left ++ ("=" ++ (right ++ first :: (name ++ last :: (ending ++ "/>"))))))) := by
    have space {text : Text} (is : IsSpace text) : d ∉ text := fun member => by
      rw [is d member] at solid
      cases solid
    have quote {c : Char} (quotes : isQuote c = true) : d ≠ c := by
      rintro rfl
      rw [quotes] at quoteless
      cases quoteless
    have named : d ∉ name := fun member => by
      rw [slug.2 d member] at foreign
      cases foreign
    have word {text : Text} (part : text ⊆ "slotname=/>".toList) : d ∉ text := fun member => words (part member)
    refine List.not_mem_append (word (by decide)) (List.not_mem_append (space gapSpace)
      (List.not_mem_append (word (by decide)) (List.not_mem_append (space leftSpace) (List.not_mem_append (word (by decide))
      (List.not_mem_append (space rightSpace) (List.not_mem_cons_of_ne_of_not_mem (quote firstQuote)
      (List.not_mem_append named (List.not_mem_cons_of_ne_of_not_mem (quote lastQuote)
      (List.not_mem_append (space endingSpace) (word (by decide)))))))))))
  exact ⟨_, rfl, free (by decide) (by decide) (by decide +kernel) (by decide),
    free (by decide) (by decide) (by decide +kernel) (by decide)⟩

theorem marker_of_ne {c : Char} (other : c ≠ '\x7b') (text : Text) : marker (c :: text) = none := by
  simp [marker, Text.after?, other.symm]

theorem normalize_label {name spelling : Text} (slug : IsSlug name) (label : Label name spelling) (rest : Text) :
    normalize (spelling ++ rest) = "<slot name='" ++ name ++ "' />" ++ normalize rest :=
  Pattern.replace_hit (Spells.ne_nil ⟨slug, .inr label⟩) (marker_append slug label rest) _

/-- A stretch without angle brackets stands in a template as it stands in the template with tags for labels. -/
theorem exists_of_normalize {template stretch rest : Text} (angle : '<' ∉ stretch)
    (written : normalize template = stretch ++ rest) : ∃ behind, template = stretch ++ behind := by
  induction stretch generalizing template with
  | nil => exact ⟨template, rfl⟩
  | cons d stretch ih =>
    have later : '<' ∉ stretch := fun member => angle (List.mem_cons_of_mem d member)
    cases template with
    | nil =>
      rw [normalize, Pattern.replace, Pattern.segments] at written
      cases written
    | cons c template =>
      cases read : marker (c :: template) with
      | none =>
        rw [normalize, Pattern.replace_cons read] at written
        obtain ⟨rfl, kept⟩ := List.cons.inj written
        obtain ⟨behind, rfl⟩ := ih later kept
        exact ⟨behind, rfl⟩
      | some found =>
        obtain ⟨spelling, slug, label, whole⟩ := exists_of_marker read
        rw [whole, normalize_label slug label] at written
        obtain rfl : '<' = d := (List.cons.inj written).1
        exact absurd List.mem_cons_self angle

section Steps

variable (slots : Bindings Text)

theorem inject_label {name spelling : Text} (slug : IsSlug name) (label : Label name spelling) (rest : Text) :
    inject (spelling ++ rest) slots = (slots.get? name).getD [] ++ inject rest slots := by
  have tag := tag_written name
  rw [inject, normalize_label slug label]
  exact Pattern.replace_hit (Spells.ne_nil ⟨slug, .inl tag⟩) (placeholder_append slug tag _) _

theorem inject_tag {name spelling : Text} (slug : IsSlug name) (tag : Tag name spelling) (rest : Text) :
    inject (spelling ++ rest) slots = (slots.get? name).getD [] ++ inject rest slots := by
  have kept : normalize (spelling ++ rest) = spelling ++ normalize rest := by
    obtain ⟨tail, whole, -, brace⟩ := tag.exists_tail slug
    refine Pattern.replace_append (Pattern.passes_of_begins rest fun c member text => marker_of_ne ?_ text) _
    rintro rfl
    rw [whole] at member
    exact brace ((List.mem_cons.1 member).resolve_left (by decide))
  rw [inject, kept]
  exact Pattern.replace_hit (Spells.ne_nil ⟨slug, .inl tag⟩) (placeholder_append slug tag _) _

/-- A character is kept if no placeholder begins there: one that begins there later would have begun there before. -/
theorem inject_cons {c : Char} {template : Text} (unlabelled : marker (c :: template) = none)
    (untagged : placeholder (c :: template) = none) : inject (c :: template) slots = c :: inject template slots := by
  have kept : normalize (c :: template) = c :: normalize template := Pattern.replace_cons unlabelled _
  have nothing : placeholder (c :: normalize template) = none := by
    by_contra some
    obtain ⟨⟨name, rest⟩, read⟩ := Option.ne_none_iff_exists'.1 some
    obtain ⟨spelling, slug, tag, whole⟩ := exists_of_placeholder read
    obtain ⟨tail, rfl, angle, -⟩ := tag.exists_tail slug
    obtain ⟨rfl, written⟩ := List.cons.inj whole
    obtain ⟨behind, rfl⟩ := exists_of_normalize angle written
    rw [← List.cons_append, placeholder_append slug tag behind] at untagged
    cases untagged
  rw [inject, kept]
  exact Pattern.replace_cons nothing _

/-- Injection replaces every placeholder and keeps the rest. -/
theorem injected_inject (template : Text) :
    Injected (fun name => (slots.get? name).getD []) template (inject template slots) := by
  induction size : template.length using Nat.strong_induction_on generalizing template with
  | _ size' ih =>
    subst size
    have shorter {spelling name rest : Text} (spells : Spells spelling name) : rest.length < (spelling ++ rest).length := by
      have positive := List.length_pos_iff.2 spells.ne_nil
      rw [List.length_append]
      omega
    cases template with
    | nil =>
      rw [inject, normalize, Pattern.replace, Pattern.replace, Pattern.segments, List.flatMap_nil, Pattern.segments]
      exact .done
    | cons c template =>
      cases labelled : marker (c :: template) with
      | some found =>
        obtain ⟨name, rest⟩ := found
        obtain ⟨spelling, slug, label, whole⟩ := exists_of_marker labelled
        have spells : Spells spelling name := ⟨slug, .inr label⟩
        rw [whole] at ih ⊢
        rw [inject_label slots slug label]
        exact .placed spells (ih rest.length (shorter spells) rest rfl)
      | none =>
        cases tagged : placeholder (c :: template) with
        | some found =>
          obtain ⟨name, rest⟩ := found
          obtain ⟨spelling, slug, tag, whole⟩ := exists_of_placeholder tagged
          have spells : Spells spelling name := ⟨slug, .inl tag⟩
          rw [whole] at ih ⊢
          rw [inject_tag slots slug tag]
          exact .placed spells (ih rest.length (shorter spells) rest rfl)
        | none =>
          rw [inject_cons slots labelled tagged]
          refine .kept ?_ (ih template.length (Nat.lt_succ_self _) template rfl)
          rintro spelling name ⟨slug, tag | label⟩ ⟨rest, whole⟩
          · rw [← whole, placeholder_append slug tag] at tagged
            cases tagged
          · rw [← whole, marker_append slug label] at labelled
            cases labelled

/-- What injection gives is the template with every placeholder replaced, and nothing else is. -/
theorem injected_iff {template result : Text} :
    Injected (fun name => (slots.get? name).getD []) template result ↔ inject template slots = result :=
  ⟨fun injected => (injected_inject slots template).unique injected, fun same => same ▸ injected_inject slots template⟩

end Steps

end Slot

end ComponentPages
