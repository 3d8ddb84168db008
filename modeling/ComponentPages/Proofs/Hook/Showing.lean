import ComponentPages.Proofs.Hook.Fetching
import ComponentPages.Proofs.Hook.Patch
import ComponentPages.Proofs.Markup.RootTag

/-!
Signals and expressions in one template. A placeholder in reach shows a signal if it has the name of one in it, and is
evaluated otherwise. Marking the signals, evaluating what is left and resolving the markers does that in one pass over the
template as it was: a marker is out of every later pass's sight, and whether a place is in reach does not change.
-/
namespace ComponentPages

/-- White space around a word is all that trimming takes. -/
theorem Text.trim_spaced {before word after : Text} (first : IsSpace before) (second : IsSpace after) (nonempty : word ≠ [])
    (solid : ∀ c ∈ word, isBlank c = false) : trim (before ++ word ++ after) = word := by
  obtain ⟨c, tail, rfl⟩ := List.exists_cons_of_ne_nil nonempty
  obtain ⟨init, last, ends⟩ : ∃ init last, c :: tail = init ++ [last] := (List.eq_nil_or_concat' _).resolve_left nonempty
  have left : trimLeft (before ++ (c :: tail ++ after)) = c :: tail ++ after :=
    trimLeft_append_cons first (solid c List.mem_cons_self) _
  rw [trim, List.append_assoc, left, trimRight_append_of_space _ second, ends,
    trimRight_concat_of_not_blank (solid last (by rw [ends]; simp))]

namespace Pattern

variable {α β γ : Type}

/-- Segments that are cut into smaller ones begin where they began. -/
theorem flatMap_located_flatMap {refine : Segment α → List (Segment β)}
    (covers : ∀ segment, (refine segment).flatMap Segment.source = segment.source) (write : Nat × Segment β → List γ)
    (offset : Nat) (segments : List (Segment α)) : (located offset (segments.flatMap refine)).flatMap write =
      (located offset segments).flatMap fun place => (located place.1 (refine place.2)).flatMap write := by
  induction segments generalizing offset with
  | nil => rfl
  | cons segment segments ih =>
    rw [List.flatMap_cons, located_append, List.flatMap_append, covers, ih]
    rfl

theorem map_located_plain {f : Nat × Segment β → γ} {g : Char → γ} (plain : ∀ offset c, f (offset, .plain c) = g c)
    (offset : Nat) (text : Text) : (located offset (text.map Segment.plain)).map f = text.map g := by
  induction text generalizing offset with
  | nil => rfl
  | cons c text ih => rw [List.map_cons, located, List.map_cons, plain, ih, List.map_cons]

theorem flatMap_located_plain {write : Nat × Segment β → Text} (kept : ∀ offset c, write (offset, .plain c) = [c])
    (offset : Nat) (text : Text) : (located offset (text.map Segment.plain)).flatMap write = text := by
  rw [List.flatMap_def, map_located_plain kept, ← List.flatMap_def]
  exact List.flatMap_singleton' text

theorem flatMap_source_plain (text : Text) : (text.map (Segment.plain (α := β))).flatMap Segment.source = text := by
  rw [List.flatMap_map]
  exact List.flatMap_singleton' text

end Pattern

namespace Placeholder

/-! ### The parts of a text -/

/-- A stretch that is kept, or a placeholder in reach with the expression in it. -/
inductive Part where
  | kept (text : Text)
  | opened (source inner : Text)
deriving DecidableEq

namespace Part

def inner? : Part → Option Text
  | .kept _ => none
  | .opened _ inner => some inner

def source : Part → Text
  | .kept text => text
  | .opened source _ => source

def evaluate (scope : Scope) : Part → Except Failure Text
  | .kept text => .ok text
  | .opened _ inner => (Expression.evaluate inner scope).map Value.render

end Part

/-- What a segment is, given where it begins: a placeholder is kept in a block, in the tag of a component, and if it looks
like a conditional. -/
def part (html : Text) : Nat × Segment Text → Part := fun (offset, segment) =>
  match segment with
  | .plain c => .kept [c]
  | .hit source inner =>
    if frozen (Block.spans html) html offset || looksConditional inner then .kept source else .opened source inner

theorem part_hit (html : Text) (offset : Nat) (source inner : Text) :
    part html (offset, .hit source inner) = .kept source ∨ part html (offset, .hit source inner) = .opened source inner := by
  rw [part]
  split
  · exact .inl rfl
  · exact .inr rfl

def parts (html : Text) : List Part := (Pattern.located 0 (Pattern.segments pattern html)).map (part html)

/-- The expressions that a substitution evaluates. -/
def contents (html : Text) : List Text := (parts html).filterMap Part.inner?

theorem substitute_eq_parts (html : Text) (scope : Scope) :
    substitute html scope = ((parts html).mapM (Part.evaluate scope)).map List.flatten := by
  have each : (fun place : Nat × Segment Text => match place.2 with
      | .plain c => (.ok [c] : Except Failure Text)
      | .hit source inner =>
        if frozen (Block.spans html) html place.1 || looksConditional inner then .ok source
        else (Expression.evaluate inner scope).map Value.render) = Part.evaluate scope ∘ part html := by
    funext ⟨offset, segment⟩
    cases segment with
    | plain c => rfl
    | hit source inner =>
      rw [Function.comp_apply, part]
      dsimp only
      split <;> rfl
  rw [parts, List.mapM_map, ← each, substitute]
  rfl

theorem flatMap_source_parts (html : Text) : (parts html).flatMap Part.source = html := by
  have each : Part.source ∘ part html = fun place => place.2.source := by
    funext ⟨offset, segment⟩
    cases segment with
    | plain c => rfl
    | hit source inner =>
      rw [Function.comp_apply, part]
      dsimp only
      split <;> rfl
  have whole := Pattern.flatMap_source_segments pattern html
  rw [← Pattern.map_snd_located 0 (Pattern.segments pattern html), List.flatMap_map] at whole
  rw [parts, List.flatMap_map]
  exact (congrArg (List.flatMap · _) each).trans whole

theorem exists_of_pattern {text inner rest : Text} (reads : pattern text = some (inner, rest)) :
    text = braced inner ++ rest ∧ inner ≠ [] ∧ ∀ c ∈ inner, isBrace c = false := by
  have whole := Signal.eq_of_pattern reads
  simp only [pattern, bind, Option.bind_eq_some_iff, Prod.exists, Option.some.injEq, Prod.mk.injEq] at reads
  obtain ⟨opened, -, word, closing, ran, -, -, rfl, -⟩ := reads
  refine ⟨by simpa [braced] using whole, Pattern.ne_nil_of_run ran, fun c member => ?_⟩
  simpa using (Pattern.eq_of_run ran).2 c member

/-- A text is built from its end by characters where no placeholder begins and by placeholders. -/
theorem text_induction {motive : Text → Prop} (nil : motive [])
    (plain : ∀ c text, pattern (c :: text) = none → motive text → motive (c :: text))
    (hit : ∀ inner rest, inner ≠ [] → (∀ c ∈ inner, isBrace c = false) → motive rest → motive (braced inner ++ rest))
    (text : Text) : motive text := by
  induction size : text.length using Nat.strong_induction_on generalizing text with
  | _ size' ih =>
    subst size
    cases text with
    | nil => exact nil
    | cons c text =>
      cases reads : pattern (c :: text) with
      | none => exact plain c text reads (ih text.length (Nat.lt_succ_self _) text rfl)
      | some found =>
        obtain ⟨whole, nonempty, braceless⟩ := exists_of_pattern reads
        have shorter : found.2.length < (c :: text).length := by
          rw [whole, braced]
          simp only [List.length_append, List.length_cons]
          omega
        rw [whole]
        exact hit found.1 found.2 nonempty braceless (ih found.2.length shorter found.2 rfl)

theorem segments_plain {c : Char} {text : Text} (nothing : pattern (c :: text) = none) :
    Pattern.segments pattern (c :: text) = .plain c :: Pattern.segments pattern text :=
  Pattern.segments_append (Pattern.passes_cons_iff.2 ⟨nothing, Pattern.passes_nil _ _⟩)

theorem segments_braced {inner : Text} (nonempty : inner ≠ []) (braceless : ∀ c ∈ inner, isBrace c = false) (rest : Text) :
    Pattern.segments pattern (braced inner ++ rest) = .hit (braced inner) inner :: Pattern.segments pattern rest :=
  Pattern.segments_hit (List.cons_ne_nil _ _) (pattern_braces nonempty braceless rest)

theorem source_of_mem_segments {html source inner : Text} (member : .hit source inner ∈ Pattern.segments pattern html) :
    source = braced inner ∧ inner ≠ [] ∧ ∀ c ∈ inner, isBrace c = false := by
  induction html using text_induction with
  | nil =>
    rw [Pattern.segments] at member
    cases member
  | plain c text nothing ih =>
    rw [segments_plain nothing] at member
    exact ih ((List.mem_cons.1 member).resolve_left (by rintro ⟨⟩))
  | hit first rest nonempty braceless ih =>
    rw [segments_braced nonempty braceless] at member
    rcases List.mem_cons.1 member with here | later
    · cases here
      exact ⟨rfl, nonempty, braceless⟩
    · exact ih later

/-- No brace opens between a brace and the next one that closes. -/
def Flat (html : Text) : Prop :=
  ∀ before inside after, html = before ++ '\x7b' :: (inside ++ '\x7d' :: after) → '\x7d' ∉ inside → '\x7b' ∉ inside

theorem flat_iff {html : Text} : Flat html ↔ ∀ tail ∈ html.tails, tail.head? = some '\x7b' →
    ∀ found ∈ Text.cut? '\x7d' tail.tail, '\x7b' ∉ found.1 := by
  constructor
  · intro flat tail member opens found cut
    obtain ⟨before, rfl⟩ := (List.mem_tails tail html).1 member
    obtain ⟨rest, rfl⟩ := List.head?_eq_some_iff.1 opens
    obtain ⟨inside, after⟩ := found
    refine flat before inside after (by rw [← Text.eq_of_cut? cut, List.tail_cons]) fun closes => ?_
    exact Text.free_of_cut? cut _ closes rfl
  · intro flat before inside after whole free
    have member : '\x7b' :: (inside ++ '\x7d' :: after) ∈ html.tails := (List.mem_tails _ _).2 ⟨before, whole.symm⟩
    have cut := @Text.cut?_append '\x7d' inside (fun c member same => free (same ▸ member)) after
    exact flat _ member rfl _ cut

instance : DecidablePred Flat := fun _ => decidable_of_iff _ flat_iff.symm

theorem Flat.behind {first rest : Text} (flat : Flat (first ++ rest)) : Flat rest := by
  intro before inside after whole
  exact flat (first ++ before) inside after (by rw [whole, List.append_assoc])

/-- If a brace opens no placeholder, it opens none when what stands behind it is rewritten between its braces. -/
theorem pattern_written {text : Text} (flat : Flat ('\x7b' :: text)) (nothing : pattern ('\x7b' :: text) = none)
    {written : Nat × Segment Text → Text} (kept : ∀ offset c, written (offset, .plain c) = [c]) (offset : Nat) :
    pattern ('\x7b' :: (Pattern.located offset (Pattern.segments pattern text)).flatMap written) = none := by
  by_cases closes : '\x7d' ∈ text
  · obtain ⟨inside, after, rfl, free⟩ := List.eq_append_cons_of_mem closes
    have unopened := flat [] inside after rfl free
    have empty : inside = [] := by
      by_contra nonempty
      have braceless : ∀ c ∈ inside, isBrace c = false := by
        intro c member
        simp only [isBrace, Bool.or_eq_false_iff, beq_eq_false_iff_ne]
        exact ⟨fun same => unopened (same ▸ member), fun same => free (same ▸ member)⟩
      have reads := pattern_braces nonempty braceless after
      rw [List.append_assoc, List.singleton_append, List.cons_append] at reads
      rw [reads] at nothing
      cases nothing
    rw [empty, List.nil_append, segments_plain (pattern_of_ne _ _ (by decide)), Pattern.located, List.flatMap_cons, kept]
    rfl
  · have absent : Pattern.Absent pattern text := by
      intro before c after whole
      by_contra some
      obtain ⟨⟨inner, rest⟩, reads⟩ := Option.ne_none_iff_exists'.1 some
      obtain ⟨spelled, -⟩ := exists_of_pattern reads
      rw [List.append_nil] at spelled
      exact closes (by rw [whole, spelled, braced]; simp)
    rw [Pattern.segments_of_absent absent, Pattern.flatMap_located_plain kept]
    exact nothing

end Placeholder

namespace Signal

/-! ### Placeholders of signals -/

theorem exists_of_placeholder {text name rest : Text} (reads : placeholder text = some (name, rest)) :
    ∃ inner, text = braced inner ++ rest ∧ (∀ c ∈ inner, Placeholder.isBrace c = false) ∧ inner ≠ [] ∧
      Text.trim inner = name ∧ Text.isIdentifier name = true := by
  simp only [placeholder, bind, Option.bind_eq_some_iff, Prod.exists, Option.some.injEq, Prod.mk.injEq] at reads
  obtain ⟨opened, opens, word, afterWord, named, tail, closes, rfl, rfl⟩ := reads
  obtain ⟨first, firstSpace, before⟩ := Text.exists_eq_trimLeft opened
  obtain ⟨second, secondSpace, after⟩ := Text.exists_eq_trimLeft afterWord
  obtain ⟨whole, identifier⟩ := Pattern.eq_of_identifier named
  obtain ⟨nonempty, partsOf⟩ := isIdentifierPart_of_isIdentifier identifier
  have braceless {class_ : Char → Bool} (foreign : class_ '\x7b' = false ∧ class_ '\x7d' = false) {c : Char}
      (is : class_ c = true) : Placeholder.isBrace c = false := by
    simp [Placeholder.isBrace, ne_of_class is foreign.1, ne_of_class is foreign.2]
  refine ⟨first ++ word ++ second, ?_, ?_, by simp [nonempty], ?_, identifier⟩
  · rw [Text.eq_of_after? opens, before, whole, after, Text.eq_of_after? closes]
    simp [braced]
  · intro c member
    simp only [List.mem_append] at member
    rcases member with (inFirst | inWord) | inSecond
    · exact braceless (by decide) (firstSpace c inFirst)
    · exact braceless (by decide) (partsOf c inWord)
    · exact braceless (by decide) (secondSpace c inSecond)
  · exact Text.trim_spaced firstSpace secondSpace nonempty fun c member => isBlank_of_isIdentifierPart (partsOf c member)

theorem placeholder_braced {inner : Text} (identifier : Text.isIdentifier (Text.trim inner) = true) (rest : Text) :
    placeholder (braced inner ++ rest) = some (Text.trim inner, rest) := by
  obtain ⟨first, second, firstSpace, secondSpace, whole⟩ := Text.exists_eq_trim inner
  generalize Text.trim inner = name at identifier whole
  obtain ⟨nonempty, partsOf⟩ := isIdentifierPart_of_isIdentifier identifier
  have opened : braced inner ++ rest = "\x7b" ++ (first ++ (name ++ (second ++ '\x7d' :: rest))) := by
    rw [whole]
    simp [braced]
  have trimmed : Text.trimLeft (first ++ (name ++ (second ++ '\x7d' :: rest))) = name ++ (second ++ '\x7d' :: rest) := by
    obtain ⟨c, tail, rfl⟩ := List.exists_cons_of_ne_nil nonempty
    exact Text.trimLeft_append_cons firstSpace (isBlank_of_isIdentifierPart (partsOf c List.mem_cons_self)) _
  have stops : (second ++ '\x7d' :: rest).head?.all (fun c => !isIdentifierPart c) = true := by
    cases second with
    | nil => rfl
    | cons c second =>
      have space := secondSpace c List.mem_cons_self
      have foreign : isIdentifierPart c = false := by
        by_contra part
        rw [isBlank_of_isIdentifierPart (Bool.eq_true_of_not_eq_false part)] at space
        cases space
      simp [foreign]
  have closed : Text.trimLeft (second ++ '\x7d' :: rest) = '\x7d' :: rest :=
    Text.trimLeft_append_cons secondSpace (by decide) rest
  rw [opened, placeholder, Text.after?_append, Option.bind_eq_bind, Option.bind_some, trimmed,
    Pattern.identifier_append identifier stops, Option.bind_eq_bind, Option.bind_some]
  dsimp only
  rw [closed]
  rfl

/-- What a segment of a text is to a reader of signals: only an identifier between braces is a placeholder for it. -/
def namedIn : Segment Text → List (Segment Text)
  | .plain c => [.plain c]
  | .hit source inner =>
    if Text.isIdentifier (Text.trim inner) then [.hit source (Text.trim inner)] else source.map .plain

theorem source_namedIn (segment : Segment Text) : (namedIn segment).flatMap Segment.source = segment.source := by
  cases segment with
  | plain c => rfl
  | hit source inner =>
    rw [namedIn]
    split
    · exact List.flatMap_singleton Segment.source _
    · exact Pattern.flatMap_source_plain source

theorem segments_placeholder (html : Text) :
    Pattern.segments placeholder html = (Pattern.segments Placeholder.pattern html).flatMap namedIn := by
  induction html using Placeholder.text_induction with
  | nil =>
    rw [Pattern.segments, Pattern.segments]
    rfl
  | plain c text nothing ih =>
    have unread : placeholder (c :: text) = none := by
      by_contra some
      obtain ⟨⟨name, rest⟩, reads⟩ := Option.ne_none_iff_exists'.1 some
      obtain ⟨inner, whole, braceless, nonempty, -⟩ := exists_of_placeholder reads
      rw [whole, braced, Placeholder.pattern_braces nonempty braceless] at nothing
      cases nothing
    have passes : Pattern.Passes placeholder [c] text := Pattern.passes_cons_iff.2 ⟨unread, Pattern.passes_nil _ _⟩
    rw [Placeholder.segments_plain nothing, List.flatMap_cons, ← ih]
    exact Pattern.segments_append passes
  | hit inner rest nonempty braceless ih =>
    rw [Placeholder.segments_braced nonempty braceless, List.flatMap_cons, ← ih, namedIn]
    by_cases identifier : Text.isIdentifier (Text.trim inner) = true
    · rw [if_pos identifier]
      exact Pattern.segments_hit (List.cons_ne_nil _ _) (placeholder_braced identifier rest)
    · have unread : placeholder (braced inner ++ rest) = none := by
        by_contra some
        obtain ⟨⟨name, after⟩, reads⟩ := Option.ne_none_iff_exists'.1 some
        obtain ⟨other, whole, otherBraceless, otherNonempty, rfl, is⟩ := exists_of_placeholder reads
        have here := Placeholder.pattern_braces nonempty braceless rest
        have there := Placeholder.pattern_braces otherNonempty otherBraceless after
        rw [← braced] at here there
        rw [← whole, here] at there
        cases there
        exact identifier is
      have others : Pattern.Passes placeholder (inner ++ ['\x7d']) rest := by
        refine Pattern.passes_of_begins rest fun c member text => ?_
        have other : c ≠ '\x7b' := by
          rintro rfl
          rcases List.mem_append.1 member with inside | last
          · exact absurd (braceless _ inside) (by decide)
          · exact absurd last (by decide)
        simp [placeholder, Text.after?, other.symm]
      rw [if_neg identifier]
      exact Pattern.segments_append (Pattern.passes_cons_iff.2 ⟨unread, others⟩)

/-- What becomes of a part when the signals of the given names are marked. -/
def write (names : List Text) : Placeholder.Part → Text
  | .kept text => text
  | .opened source inner =>
    if names.contains (Text.trim inner) then markerOpen :: Text.trim inner ++ [markerClose] else source

theorem looksConditional_of_isIdentifier {inner : Text} (identifier : Text.isIdentifier (Text.trim inner) = true) :
    Placeholder.looksConditional inner = false := by
  obtain ⟨first, second, firstSpace, secondSpace, whole⟩ := Text.exists_eq_trim inner
  have parts := (isIdentifierPart_of_isIdentifier identifier).2
  have absent : '?' ∉ inner := by
    rw [whole]
    refine List.not_mem_append (List.not_mem_append (fun member => ?_) fun member => ?_) fun member => ?_
    · exact absurd (firstSpace '?' member) (by decide)
    · exact absurd (parts '?' member) (by decide)
    · exact absurd (secondSpace '?' member) (by decide)
  simp [Placeholder.looksConditional, absent]

theorem isSeam_brace : IsSeam '\x7b' where
  angle := by decide
  word := by decide +kernel
  upper := by decide +kernel
  blank := by decide
  sign := by decide
  letters := by decide

theorem isSeam_markerOpen : IsSeam markerOpen where
  angle := by decide
  word := by decide +kernel
  upper := by decide +kernel
  blank := by decide
  sign := by decide
  letters := by decide

/-- What becomes of a segment when the signals of the given names are marked. -/
def markSegment (html : Text) (names : List Text) : Nat × Segment Text → Text
  | (_, .plain c) => [c]
  | (offset, .hit source name) =>
    if names.contains name && !Placeholder.frozen (Block.spans html) html offset then markerOpen :: name ++ [markerClose]
    else source

/-- Marking writes segment by segment, also where there are no signals. -/
theorem mark_eq_segments (html : Text) (names : List Text) :
    mark html names = (Pattern.located 0 (Pattern.segments placeholder html)).flatMap (markSegment html names) := by
  rw [mark]
  split
  · next none =>
    have kept : markSegment html names = fun place => place.2.source := by
      funext place
      obtain ⟨offset, segment⟩ := place
      cases segment with
      | plain c => rfl
      | hit source name =>
        have absent : names.contains name = false := by rw [none]; rfl
        rw [markSegment, absent, Bool.false_and, if_neg Bool.false_ne_true]
        rfl
    have whole := Pattern.flatMap_source_segments placeholder html
    rw [← Pattern.map_snd_located 0 (Pattern.segments placeholder html), List.flatMap_map] at whole
    rw [kept]
    exact whole.symm
  · refine List.flatMap_congr fun place _ => ?_
    obtain ⟨offset, segment⟩ := place
    cases segment with
    | plain c => rfl
    | hit source name => rfl

section Marking

variable {names : List Text} (identifiers : ∀ name ∈ names, Text.isIdentifier name = true)

include identifiers

/-- Marking writes part by part. -/
theorem mark_eq_parts (html : Text) : mark html names = (Placeholder.parts html).flatMap (write names) := by
  rw [mark_eq_segments, segments_placeholder, Pattern.flatMap_located_flatMap source_namedIn, Placeholder.parts,
    List.flatMap_map]
  refine List.flatMap_congr fun (offset, segment) _ => ?_
  cases segment with
  | plain c => rfl
  | hit source inner =>
    rw [namedIn, Placeholder.part]
    dsimp only
    by_cases identifier : Text.isIdentifier (Text.trim inner) = true
    · have alone (name : Text) : (Pattern.located offset [.hit source name]).flatMap (markSegment html names) =
          markSegment html names (offset, .hit source name) := List.flatMap_singleton _ _
      rw [if_pos identifier, alone, looksConditional_of_isIdentifier identifier, Bool.or_false]
      rw [markSegment]
      cases Placeholder.frozen (Block.spans html) html offset with
      | true => simp [write]
      | false => simp [write]
    · have unknown : ¬names.contains (Text.trim inner) = true :=
        fun held => identifier (identifiers _ (List.contains_iff_mem.1 held))
      rw [if_neg identifier, @Pattern.flatMap_located_plain _ (markSegment html names) fun _ _ => rfl]
      split
      · rfl
      · rw [write, if_neg unknown]

/-- What the marked text has in the place of a segment can be exchanged for it. -/
theorem exists_stitches {html : Text} {place : Nat × Segment Text}
    (member : place ∈ Pattern.located 0 (Pattern.segments Placeholder.pattern html)) :
    ∃ stitches, Stitch.olds stitches = place.2.source ∧ Stitch.news stitches = write names (Placeholder.part html place) := by
  have keeps (text : Text) : Stitch.olds (text.map .keep) = text ∧ Stitch.news (text.map .keep) = text := by
    rw [Stitch.olds, Stitch.news, List.flatMap_map, List.flatMap_map]
    exact ⟨List.flatMap_singleton' text, List.flatMap_singleton' text⟩
  obtain ⟨offset, segment⟩ := place
  cases segment with
  | plain c => exact ⟨[.keep c], rfl, rfl⟩
  | hit source inner =>
    obtain ⟨rfl, -, -⟩ := Placeholder.source_of_mem_segments (Pattern.mem_of_mem_located member)
    rw [Placeholder.part]
    dsimp only
    split
    · exact ⟨_, keeps _⟩
    · by_cases named : names.contains (Text.trim inner) = true
      · have identifier := identifiers _ (List.contains_iff_mem.1 named)
        obtain ⟨nonempty, parts⟩ := isIdentifierPart_of_isIdentifier identifier
        have angleless {c : Char} (is : isBlank c = true ∨ isIdentifierPart c = true) : isAngle c = false := by
          rcases is with space | part
          · simp [isAngle, ne_of_class space (d := '<') (by decide), ne_of_class space (d := '>') (by decide)]
          · simp [isAngle, ne_of_class part (d := '<') (by decide), ne_of_class part (d := '>') (by decide)]
        have old : ∀ c ∈ inner ++ ['\x7d'], isAngle c = false := by
          obtain ⟨first, second, firstSpace, secondSpace, whole⟩ := Text.exists_eq_trim inner
          rw [whole]
          intro c member
          simp only [List.mem_append, List.mem_singleton] at member
          rcases member with ((inFirst | inName) | inSecond) | rfl
          · exact angleless (.inl (firstSpace c inFirst))
          · exact angleless (.inr (parts c inName))
          · exact angleless (.inl (secondSpace c inSecond))
          · decide
        have new : ∀ c ∈ Text.trim inner ++ [markerClose], isAngle c = false := by
          intro c member
          rcases List.mem_append.1 member with inName | last
          · exact angleless (.inr (parts c inName))
          · obtain rfl := List.mem_singleton.1 last
            decide
        refine ⟨[.swap ⟨'\x7b', _, isSeam_brace, old⟩ ⟨markerOpen, _, isSeam_markerOpen, new⟩], ?_, ?_⟩
        · exact List.flatMap_singleton Stitch.old _
        · rw [write, if_pos named]
          exact List.flatMap_singleton Stitch.new _
      · rw [write, if_neg named]
        exact ⟨_, keeps _⟩

section Places

variable {html : Text}

/-- The text that stands at places of the template. -/
def originals (places : List (Nat × Segment Text)) : Text := places.flatMap fun place => place.2.source

/-- The text that stands there in the marked template. -/
def writes (html : Text) (names : List Text) (places : List (Nat × Segment Text)) : Text :=
  places.flatMap fun place => write names (Placeholder.part html place)

/-- A place is out of reach in the marked template if and only if it is in the template. -/
theorem frozen_mark {before after : List (Nat × Segment Text)}
    (whole : Pattern.located 0 (Pattern.segments Placeholder.pattern html) = before ++ after) :
    Placeholder.frozen (Block.spans (mark html names)) (mark html names) (writes html names before).length =
      Placeholder.frozen (Block.spans html) html (originals before).length := by
  have sewn : ∀ place, ∃ stitches, place ∈ Pattern.located 0 (Pattern.segments Placeholder.pattern html) →
      Stitch.olds stitches = place.2.source ∧ Stitch.news stitches = write names (Placeholder.part html place) := by
    intro place
    by_cases member : place ∈ Pattern.located 0 (Pattern.segments Placeholder.pattern html)
    · obtain ⟨stitches, facts⟩ := exists_stitches identifiers member
      exact ⟨stitches, fun _ => facts⟩
    · exact ⟨[], fun listed => absurd listed member⟩
  choose sew stitched using sewn
  rw [whole] at stitched
  have olds {places : List (Nat × Segment Text)} (listed : places ⊆ before ++ after) :
      Stitch.olds (places.flatMap sew) = originals places := by
    rw [Stitch.olds, List.flatMap_assoc]
    exact List.flatMap_congr fun place member => (stitched place (listed member)).1
  have news {places : List (Nat × Segment Text)} (listed : places ⊆ before ++ after) :
      Stitch.news (places.flatMap sew) = writes html names places := by
    rw [Stitch.news, List.flatMap_assoc]
    exact List.flatMap_congr fun place member => (stitched place (listed member)).2
  have template : html = originals (before ++ after) := by
    rw [← whole, originals, ← List.flatMap_map, Pattern.map_snd_located, Pattern.flatMap_source_segments]
  have marked : mark html names = writes html names (before ++ after) := by
    rw [mark_eq_parts identifiers, Placeholder.parts, List.flatMap_map, whole]
    rfl
  have same := Stitch.frozen_news (before.flatMap sew) (after.flatMap sew)
  rw [← List.flatMap_append, olds (List.Subset.refl _), news (List.Subset.refl _), olds (List.subset_append_left _ _),
    news (List.subset_append_left _ _), ← template, ← marked] at same
  exact same

/-- What is a part of the template when the signals of the given names are marked. -/
def remain (names : List Text) : Placeholder.Part → List Placeholder.Part
  | .kept text => [.kept text]
  | .opened source inner =>
    if names.contains (Text.trim inner) then (markerOpen :: Text.trim inner ++ [markerClose]).map fun c => .kept [c]
    else [.opened source inner]

omit identifiers in
theorem writes_cons (place : Nat × Segment Text) (places : List (Nat × Segment Text)) :
    writes html names (place :: places) = write names (Placeholder.part html place) ++ writes html names places := rfl

omit identifiers in
theorem length_originals_concat (before : List (Nat × Segment Text)) (place : Nat × Segment Text) :
    (originals (before ++ [place])).length = (originals before).length + place.2.source.length := by
  rw [originals, List.flatMap_append, List.length_append, ← originals, List.flatMap_singleton]

omit identifiers in
theorem length_writes_concat (before : List (Nat × Segment Text)) (place : Nat × Segment Text) :
    (writes html names (before ++ [place])).length =
      (writes html names before).length + (write names (Placeholder.part html place)).length := by
  rw [writes, List.flatMap_append, List.length_append, ← writes, List.flatMap_singleton]

/-- What is written for a placeholder falls into what remains of it, if it is as much in reach as before. -/
theorem map_part_write {inner : Text} (nonempty : inner ≠ []) (braceless : ∀ c ∈ inner, Placeholder.isBrace c = false)
    {start : Nat} {found : Placeholder.Part} (same : Placeholder.part html (start, .hit (braced inner) inner) = found)
    (rest : Text) :
    (Pattern.located start (Pattern.segments Placeholder.pattern (write names found ++ rest))).map (Placeholder.part html) =
      remain names found ++
        (Pattern.located (start + (write names found).length) (Pattern.segments Placeholder.pattern rest)).map
          (Placeholder.part html) := by
  have unmarked (written : write names found = braced inner) (stays : remain names found = [found]) :
      (Pattern.located start (Pattern.segments Placeholder.pattern (write names found ++ rest))).map
          (Placeholder.part html) =
        remain names found ++
          (Pattern.located (start + (write names found).length) (Pattern.segments Placeholder.pattern rest)).map
            (Placeholder.part html) := by
    rw [written, stays, Placeholder.segments_braced nonempty braceless, Pattern.located, List.map_cons, same]
    rfl
  rcases Placeholder.part_hit html start (braced inner) inner with kept | opened
  · obtain rfl := kept.symm.trans same
    exact unmarked rfl rfl
  obtain rfl := opened.symm.trans same
  by_cases named : names.contains (Text.trim inner) = true
  · have written : write names (.opened (braced inner) inner) = markerOpen :: Text.trim inner ++ [markerClose] :=
      if_pos named
    have identifierParts := (isIdentifierPart_of_isIdentifier (identifiers _ (List.contains_iff_mem.1 named))).2
    have free : ∀ c ∈ markerOpen :: Text.trim inner ++ [markerClose], c ≠ '\x7b' := by
      intro c member
      simp only [List.cons_append, List.mem_cons, List.mem_append, List.not_mem_nil, or_false] at member
      rcases member with rfl | inName | rfl
      · decide
      · exact ne_of_class (identifierParts c inName) (by decide)
      · decide
    have passes : Pattern.Passes Placeholder.pattern (markerOpen :: Text.trim inner ++ [markerClose]) rest :=
      Pattern.passes_of_begins rest fun c member text => Placeholder.pattern_of_ne c text (free c member)
    rw [written, Pattern.segments_append passes, Pattern.located_append, Pattern.flatMap_source_plain, List.map_append,
      remain, if_pos named, Pattern.map_located_plain fun _ _ => rfl]
  · exact unmarked (if_neg named) (if_neg named)

/-- From each place on, the marked template falls into what remains of the parts of the template. -/
theorem parts_mark_from {text : Text} (flat : Placeholder.Flat text) (before : List (Nat × Segment Text))
    (whole : Pattern.located 0 (Pattern.segments Placeholder.pattern html) =
      before ++ Pattern.located (originals before).length (Pattern.segments Placeholder.pattern text)) :
    (Pattern.located (writes html names before).length (Pattern.segments Placeholder.pattern (writes html names
        (Pattern.located (originals before).length (Pattern.segments Placeholder.pattern text))))).map
      (Placeholder.part (mark html names)) =
    (Pattern.located (originals before).length (Pattern.segments Placeholder.pattern text)).flatMap fun place =>
      remain names (Placeholder.part html place) := by
  induction text using Placeholder.text_induction generalizing before with
  | nil =>
    have nothing : Pattern.segments Placeholder.pattern [] = [] := by rw [Pattern.segments]
    rw [nothing]
    change (Pattern.located _ (Pattern.segments Placeholder.pattern [])).map _ = []
    rw [nothing]
    rfl
  | plain c text nothing ih =>
    rw [Placeholder.segments_plain nothing, Pattern.located] at whole ⊢
    have grownOriginals := length_originals_concat before ((originals before).length, .plain c)
    have grownWrites := @length_writes_concat names html before ((originals before).length, .plain c)
    have later := ih (@Placeholder.Flat.behind [c] text flat) (before ++ [((originals before).length, .plain c)])
      (by rw [grownOriginals, List.append_assoc]; exact whole)
    rw [grownOriginals, grownWrites] at later
    have unread : Placeholder.pattern (c :: writes html names
        (Pattern.located ((originals before).length + 1) (Pattern.segments Placeholder.pattern text))) = none := by
      by_cases brace : c = '\x7b'
      · subst brace
        exact Placeholder.pattern_written flat nothing (fun _ _ => rfl) _
      · exact Placeholder.pattern_of_ne c _ brace
    have front : writes html names (((originals before).length, .plain c) ::
        Pattern.located ((originals before).length + 1) (Pattern.segments Placeholder.pattern text)) =
      c :: writes html names (Pattern.located ((originals before).length + 1)
        (Pattern.segments Placeholder.pattern text)) := rfl
    rw [Segment.source, List.length_singleton, front, Placeholder.segments_plain unread, Pattern.located, List.map_cons,
      List.flatMap_cons]
    exact congrArg _ later
  | hit inner rest nonempty braceless ih =>
    rw [Placeholder.segments_braced nonempty braceless, Pattern.located] at whole ⊢
    have reach := frozen_mark identifiers whole
    have same : Placeholder.part (mark html names) ((writes html names before).length, .hit (braced inner) inner) =
        Placeholder.part html ((originals before).length, .hit (braced inner) inner) := by
      rw [Placeholder.part, Placeholder.part, reach]
    have grownOriginals := length_originals_concat before ((originals before).length, .hit (braced inner) inner)
    have grownWrites := @length_writes_concat names html before ((originals before).length, .hit (braced inner) inner)
    have later := ih flat.behind (before ++ [((originals before).length, .hit (braced inner) inner)])
      (by rw [grownOriginals, List.append_assoc]; exact whole)
    rw [grownOriginals, grownWrites] at later
    rw [writes_cons, List.flatMap_cons, map_part_write identifiers nonempty braceless same]
    exact congrArg _ later

theorem parts_mark (flat : Placeholder.Flat html) :
    Placeholder.parts (mark html names) = (Placeholder.parts html).flatMap (remain names) := by
  have marked : mark html names = writes html names (Pattern.located 0 (Pattern.segments Placeholder.pattern html)) := by
    rw [mark_eq_parts identifiers, Placeholder.parts, List.flatMap_map]
    rfl
  have whole := parts_mark_from identifiers flat [] rfl
  change (Pattern.located 0 (Pattern.segments Placeholder.pattern (writes html names
    (Pattern.located 0 (Pattern.segments Placeholder.pattern html))))).map _ = _ at whole
  rw [← marked] at whole
  rw [Placeholder.parts, whole, Placeholder.parts, List.flatMap_map]
  rfl

/-- The placeholders of signals are not among those that are evaluated. -/
theorem contents_mark (flat : Placeholder.Flat html) : Placeholder.contents (mark html names) =
    (Placeholder.contents html).filter fun inner => Text.trim inner ∉ names := by
  rw [Placeholder.contents, Placeholder.contents, parts_mark identifiers flat]
  induction Placeholder.parts html with
  | nil => rfl
  | cons part parts ih =>
    rw [List.flatMap_cons, List.filterMap_append, ih]
    cases part with
    | kept text => rfl
    | opened source inner =>
      have nothing (text : Text) : (text.map fun c => Placeholder.Part.kept [c]).filterMap Placeholder.Part.inner? = [] := by
        simp [Placeholder.Part.inner?]
      have opens : (Placeholder.Part.opened source inner :: parts).filterMap Placeholder.Part.inner? =
          inner :: parts.filterMap Placeholder.Part.inner? := rfl
      rw [remain, opens]
      by_cases named : names.contains (Text.trim inner) = true
      · rw [if_pos named, nothing, List.filter_cons_of_neg (by simpa using named)]
        rfl
      · rw [if_neg named, List.filter_cons_of_pos (by simpa using named)]
        rfl

end Places

end Marking

/-! ### Resolving -/

/-- A text without the sign of a marker, or a marker. -/
def Whole (text : Text) : Prop :=
  markerOpen ∉ text ∨ ∃ name, Text.isIdentifier name = true ∧ text = markerOpen :: name ++ [markerClose]

theorem resolve_append_of_not_mem {text : Text} (free : markerOpen ∉ text) (rest : Text) :
    resolve (text ++ rest) = text ++ resolve rest :=
  Pattern.replace_append (Pattern.passes_of_begins rest fun c member more =>
    marker_of_ne c more fun same => free (same ▸ member)) element

theorem resolve_nil : resolve [] = [] := by rw [resolve, Pattern.replace, Pattern.segments, List.flatMap_nil]

theorem resolve_of_not_mem {text : Text} (free : markerOpen ∉ text) : resolve text = text := by
  have whole := resolve_append_of_not_mem free []
  rwa [List.append_nil, resolve_nil, List.append_nil] at whole

theorem resolve_marker_append {name : Text} (identifier : Text.isIdentifier name = true) (rest : Text) :
    resolve (markerOpen :: name ++ [markerClose] ++ rest) = element name ++ resolve rest := by
  have reads : marker (markerOpen :: name ++ [markerClose] ++ rest) = some (name, rest) := by
    rw [List.append_assoc]
    exact marker_append identifier rest
  exact Pattern.replace_hit (List.cons_ne_nil _ _) reads element

theorem resolve_marker {name : Text} (identifier : Text.isIdentifier name = true) :
    resolve (markerOpen :: name ++ [markerClose]) = element name := by
  have whole := resolve_marker_append identifier []
  rwa [List.append_nil, resolve_nil, List.append_nil] at whole

theorem Whole.resolve_append {text : Text} (whole : Whole text) (rest : Text) :
    resolve (text ++ rest) = resolve text ++ resolve rest := by
  rcases whole with free | ⟨name, identifier, rfl⟩
  · rw [resolve_append_of_not_mem free, resolve_of_not_mem free]
  · rw [resolve_marker_append identifier, resolve_marker identifier]

/-- Where every part is whole, resolving them together is resolving each. -/
theorem resolve_flatten {α : Type} {first second : α → Except Failure Text} {list : List α}
    (each : ∀ a ∈ list, (∀ text, first a = .ok text → Whole text) ∧ second a = (first a).map resolve) :
    ((list.mapM first).map List.flatten).map resolve = (list.mapM second).map List.flatten := by
  induction list with
  | nil => exact congrArg Except.ok resolve_nil
  | cons a list ih =>
    obtain ⟨⟨whole, same⟩, later⟩ := List.forall_mem_cons.1 each
    have others := ih later
    rw [List.mapM_cons, List.mapM_cons, same]
    cases here : first a with
    | error failure => rfl
    | ok text =>
      have front (texts : List Text) : resolve (text :: texts).flatten = resolve text ++ resolve texts.flatten :=
        (whole text here).resolve_append texts.flatten
      calc
        _ = (((list.mapM first).map List.flatten).map resolve).map (resolve text ++ ·) := by
          cases list.mapM first with
          | error failure => rfl
          | ok texts => exact congrArg Except.ok (front texts)
        _ = ((list.mapM second).map List.flatten).map (resolve text ++ ·) := by rw [others]
        _ = _ := by cases list.mapM second <;> rfl

theorem mapM_flatMap {α β : Type} (refine : α → List β) (f : β → Except Failure Text) (list : List α) :
    ((list.flatMap refine).mapM f).map List.flatten =
      (list.mapM fun a => ((refine a).mapM f).map List.flatten).map List.flatten := by
  induction list with
  | nil => rfl
  | cons a list ih =>
    rw [List.flatMap_cons, List.mapM_append, List.mapM_cons]
    cases (refine a).mapM f with
    | error failure => rfl
    | ok texts =>
      calc
        _ = (((list.flatMap refine).mapM f).map List.flatten).map (texts.flatten ++ ·) := by
          cases (list.flatMap refine).mapM f with
          | error failure => rfl
          | ok others => exact congrArg Except.ok List.flatten_append
        _ = ((list.mapM fun a => ((refine a).mapM f).map List.flatten).map List.flatten).map (texts.flatten ++ ·) := by rw [ih]
        _ = _ := by cases list.mapM fun a => ((refine a).mapM f).map List.flatten <;> rfl

/-! ### One pass -/

/-- What a part of a template shows: a text that is kept, a signal, or the value of an expression. -/
def shown (names : List Text) (scope : Scope) : Placeholder.Part → Except Failure Text
  | .kept text => .ok text
  | .opened _ inner =>
    if names.contains (Text.trim inner) then .ok (element (Text.trim inner))
    else (Expression.evaluate inner scope).map Value.render

/-- A part of a text has no character that the text has not. -/
theorem not_mem_of_mem_parts {html : Text} (free : markerOpen ∉ html) :
    ∀ part ∈ Placeholder.parts html, match part with
      | .kept text => markerOpen ∉ text
      | .opened _ inner => markerOpen ∉ inner := by
  intro part member
  obtain ⟨⟨offset, segment⟩, located, rfl⟩ := List.mem_map.1 member
  have inText := Pattern.mem_of_mem_located located
  have source : markerOpen ∉ segment.source := by
    intro inside
    rw [← Pattern.flatMap_source_segments Placeholder.pattern html] at free
    exact free (List.mem_flatMap.2 ⟨segment, inText, inside⟩)
  cases segment with
  | plain c => exact source
  | hit source' inner =>
    obtain ⟨rfl, -, -⟩ := Placeholder.source_of_mem_segments inText
    rw [Placeholder.part]
    split
    · next here =>
      split at here
      · cases here
        exact source
      · cases here
    · next here =>
      split at here
      · cases here
      · cases here
        intro inside
        exact source (by rw [Segment.source, braced]; simp [inside])

theorem mapM_evaluate_kept (scope : Scope) (text : Text) :
    ((text.map fun c => Placeholder.Part.kept [c]).mapM (Placeholder.Part.evaluate scope)).map List.flatten = .ok text := by
  induction text with
  | nil => rfl
  | cons c text ih =>
    rw [List.map_cons, List.mapM_cons]
    cases here : (text.map fun c => Placeholder.Part.kept [c]).mapM (Placeholder.Part.evaluate scope) with
    | error failure =>
      rw [here] at ih
      cases ih
    | ok texts =>
      rw [here] at ih
      exact congrArg (fun text => Except.ok (c :: text)) (Except.ok.inj ih)

/-- What becomes of a part that is marked, evaluated and resolved. -/
theorem evaluate_remain {names : List Text} (identifiers : ∀ name ∈ names, Text.isIdentifier name = true) {scope : Scope}
    (values : ∀ binding ∈ scope, markerOpen ∉ binding.2.render) {part : Placeholder.Part}
    (free : match part with
      | .kept text => markerOpen ∉ text
      | .opened _ inner => markerOpen ∉ inner) :
    (∀ text, ((remain names part).mapM (Placeholder.Part.evaluate scope)).map List.flatten = .ok text → Whole text) ∧
      shown names scope part =
        (((remain names part).mapM (Placeholder.Part.evaluate scope)).map List.flatten).map resolve := by
  cases part with
  | kept text =>
    have same : ((remain names (.kept text)).mapM (Placeholder.Part.evaluate scope)).map List.flatten = .ok text :=
      congrArg Except.ok (List.append_nil text)
    rw [same]
    refine ⟨fun other here => ?_, ?_⟩
    · cases here
      exact .inl free
    · exact congrArg Except.ok (resolve_of_not_mem free).symm
  | opened source inner =>
    rw [remain, shown]
    by_cases named : names.contains (Text.trim inner) = true
    · have identifier := identifiers _ (List.contains_iff_mem.1 named)
      rw [if_pos named, if_pos named, mapM_evaluate_kept]
      refine ⟨fun other here => ?_, ?_⟩
      · cases here
        exact .inr ⟨_, identifier, rfl⟩
      · exact congrArg Except.ok (resolve_marker identifier).symm
    · rw [if_neg named, if_neg named]
      have single : (([Placeholder.Part.opened source inner].mapM (Placeholder.Part.evaluate scope)).map List.flatten) =
          (Expression.evaluate inner scope).map Value.render := by
        rw [List.mapM_cons, Placeholder.Part.evaluate]
        cases Expression.evaluate inner scope with
        | error failure => rfl
        | ok value => exact congrArg Except.ok (List.append_nil value.render)
      rw [single]
      cases evaluated : Expression.evaluate inner scope with
      | error failure => exact ⟨fun text here => (by cases here), rfl⟩
      | ok value =>
        have marked : Marked (fun _ => False) value.render := Marked.of_evaluate (marked_of_not_mem free)
          (fun binding member => marked_of_not_mem (values binding member)) evaluated
        have clean := not_mem_of_marked marked
        refine ⟨fun other here => ?_, ?_⟩
        · cases here
          exact .inl clean
        · exact congrArg Except.ok (resolve_of_not_mem clean).symm

theorem fails_iff {html : Text} {names : List Text} {scope : Scope} :
    (∃ failure, ((Placeholder.parts html).mapM (shown names scope)).map List.flatten = .error failure) ↔
      ∃ inner ∈ Placeholder.contents html, Text.trim inner ∉ names ∧
        ∃ failure, Expression.evaluate inner scope = .error failure := by
  have fails : (∃ failure, ((Placeholder.parts html).mapM (shown names scope)).map List.flatten = .error failure) ↔
      ¬∀ part ∈ Placeholder.parts html, ∃ text, shown names scope part = .ok text := by
    rw [← exists_mapM_iff]
    cases (Placeholder.parts html).mapM (shown names scope) with
    | error failure => simp [Except.map]
    | ok texts => simp [Except.map]
  rw [fails]
  constructor
  · intro some
    obtain ⟨part, member, none⟩ : ∃ part ∈ Placeholder.parts html, ¬∃ text, shown names scope part = .ok text := by
      by_contra nothing
      exact some fun part member => by_contra fun none => nothing ⟨part, member, none⟩
    cases part with
    | kept text => exact absurd ⟨text, rfl⟩ none
    | opened source inner =>
      rw [shown] at none
      by_cases named : names.contains (Text.trim inner) = true
      · rw [if_pos named] at none
        exact absurd ⟨_, rfl⟩ none
      · rw [if_neg named] at none
        cases evaluated : Expression.evaluate inner scope with
        | error failure =>
          exact ⟨inner, List.mem_filterMap.2 ⟨_, member, rfl⟩, mt List.contains_iff_mem.2 named, failure, evaluated⟩
        | ok value =>
          rw [evaluated] at none
          exact absurd ⟨_, rfl⟩ none
  · rintro ⟨inner, member, named, failure, failed⟩ all
    obtain ⟨part, listed, same⟩ := List.mem_filterMap.1 member
    cases part with
    | kept text => cases same
    | opened source other =>
      cases same
      obtain ⟨text, shows⟩ := all _ listed
      rw [shown, if_neg (mt List.contains_iff_mem.1 named), failed] at shows
      cases shows

/-- Marking the signals of a template, evaluating its expressions and resolving the markers shows the parts of the template
in one pass: a placeholder in reach shows the signal whose name is in it, or its value, and everything else is kept. It
fails if and only if one of these values does, and no placeholder of a signal is evaluated. -/
theorem resolve_substitute_mark {html : Text} {names : List Text} {scope : Scope} (free : markerOpen ∉ html)
    (flat : Placeholder.Flat html) (identifiers : ∀ name ∈ names, Text.isIdentifier name = true)
    (values : ∀ binding ∈ scope, markerOpen ∉ binding.2.render) :
    (Placeholder.parts html).flatMap Placeholder.Part.source = html ∧
      (Placeholder.substitute (mark html names) scope).map resolve =
        ((Placeholder.parts html).mapM (shown names scope)).map List.flatten ∧
      ((∃ failure, (Placeholder.substitute (mark html names) scope).map resolve = .error failure) ↔
        ∃ inner ∈ Placeholder.contents html, Text.trim inner ∉ names ∧
          ∃ failure, Expression.evaluate inner scope = .error failure) ∧
      Placeholder.contents (mark html names) =
        (Placeholder.contents html).filter fun inner => Text.trim inner ∉ names := by
  have onePass : (Placeholder.substitute (mark html names) scope).map resolve =
      ((Placeholder.parts html).mapM (shown names scope)).map List.flatten := by
    rw [Placeholder.substitute_eq_parts, parts_mark identifiers flat, mapM_flatMap]
    exact resolve_flatten fun part member => evaluate_remain identifiers values (not_mem_of_mem_parts free part member)
  refine ⟨Placeholder.flatMap_source_parts html, onePass, ?_, contents_mark identifiers flat⟩
  rw [onePass]
  exact fails_iff

/-- A signal in a style, in the tag of a component, in a paragraph and in a condition, and an expression. -/
theorem resolve_substitute_mark_counter :
    (Placeholder.substitute (mark "<style>\x7bn\x7d</style><C a=\x7bn\x7d /><p>\x7b n \x7d\x7bx + 1\x7d\x7bx ? (n)\x7d" ["n"])
        [("n", .int 5), ("x", .int 2)]).map resolve =
      .ok "<style>\x7bn\x7d</style><C a=\x7bn\x7d /><p><span data-signal-value='n'></span>3\x7bx ? (n)\x7d" ∧
    Placeholder.contents (mark "<style>\x7bn\x7d</style><C a=\x7bn\x7d /><p>\x7b n \x7d\x7bx + 1\x7d\x7bx ? (n)\x7d" ["n"]) =
      ["x + 1".toList] := by
  obtain ⟨-, shows, -, evaluated⟩ := @resolve_substitute_mark
    "<style>\x7bn\x7d</style><C a=\x7bn\x7d /><p>\x7b n \x7d\x7bx + 1\x7d\x7bx ? (n)\x7d" ["n"] [("n", .int 5), ("x", .int 2)]
    (by decide) (by decide +kernel) (by decide) (by decide)
  exact ⟨shows.trans (eq_ok_of_toOption (by decide +kernel)), evaluated.trans (by decide +kernel)⟩

end Signal

end ComponentPages
