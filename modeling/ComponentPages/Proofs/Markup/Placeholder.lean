import ComponentPages.Proofs.Compilation
import ComponentPages.Proofs.Markup.Condition
import ComponentPages.Proofs.Markup.Mark
import Mathlib.Data.List.Induction

/-!
Braces in printed pieces. A brace opens a placeholder or the value of a component's attribute. Neither is a
conditional or one of the older markers; the placeholders are replaced by the values of their expressions, while
the tag around an attribute keeps it as it is.
-/
namespace ComponentPages

section Braced

variable {α : Type} {read : Pattern α} (braced : ∀ c text, c ≠ '\x7b' → read (c :: text) = none)
  (front : ∀ inner rest, (∀ c ∈ inner, isExpressionPart c = true) → read ('\x7b' :: inner ++ '\x7d' :: rest) = none)

include braced front

/-- A pattern that begins with a brace and reads no expression in braces begins nowhere in one. -/
theorem passes_braces {inner : Text} (parts : ∀ c ∈ inner, isExpressionPart c = true) (rest : Text) :
    Pattern.Passes read ('\x7b' :: inner ++ ['\x7d']) rest := by
  rw [List.cons_append, Pattern.passes_cons_iff]
  constructor
  · have here := front inner rest parts
    simpa using here
  · refine Pattern.passes_of_begins rest ?_
    intro c member text
    apply braced
    rcases List.mem_append.1 member with inside | last
    · rintro rfl
      exact absurd (parts '\x7b' inside) (by decide)
    · rw [List.mem_singleton.1 last]
      decide

theorem Mention.passes_braced {mention : Mention} (sound : mention.isSound = true) (rest : Text) :
    Pattern.Passes read mention.print rest := by
  simp only [isSound, Bool.and_eq_true, List.all_eq_true] at sound
  obtain ⟨⟨-, named⟩, valued⟩ := sound
  have constant {c : Char} (part : isConstantPart c = true) : c ≠ '\x7b' := by
    rintro rfl
    exact absurd part (by decide)
  have whole : mention.print = (' ' :: mention.name ++ ['=']) ++ mention.written.print := by simp [print]
  rw [whole, Pattern.passes_append_iff]
  constructor
  · refine Pattern.passes_of_begins _ ?_
    intro c member text
    apply braced
    simp only [List.cons_append, List.mem_cons, List.mem_append, List.not_mem_nil, or_false] at member
    rcases member with rfl | inName | rfl
    · decide
    · exact constant (isConstantPart_of_isMentionPart (named c inName))
    · decide
  · cases form : mention.written with
    | constant quote text =>
      rw [form] at valued
      simp only [Written.isSound, Bool.and_eq_true, List.all_eq_true] at valued
      refine Pattern.passes_of_begins _ ?_
      intro c member more
      apply braced
      simp only [Written.print, List.cons_append, List.mem_cons, List.mem_append, List.not_mem_nil, or_false] at member
      have noBrace : quote ≠ '\x7b' := by
        rintro rfl
        exact absurd valued.1 (by decide)
      rcases member with rfl | inText | rfl
      · exact noBrace
      · exact constant (valued.2 c inText)
      · exact noBrace
    | expression text =>
      rw [form] at valued
      simp only [Written.isSound, List.all_eq_true] at valued
      exact passes_braces braced front valued rest

theorem passes_printHead {mentions : List Mention} (sound : ∀ mention ∈ mentions, mention.isSound = true)
    (closed : Bool) (rest : Text) : Pattern.Passes read (printHead mentions closed) rest := by
  unfold printHead
  induction mentions with
  | nil =>
    refine Pattern.passes_of_begins rest ?_
    intro c member text
    apply braced
    rintro rfl
    cases closed <;> simp at member
  | cons mention mentions ih =>
    rw [List.flatMap_cons, List.append_assoc, Pattern.passes_append_iff]
    exact ⟨Mention.passes_braced braced front (sound mention List.mem_cons_self) _,
      ih fun other member => sound other (List.mem_cons_of_mem mention member)⟩

theorem Piece.passes_braced {piece : Piece} (sound : piece.isSound = true) (rest : Text) :
    Pattern.Passes read piece.print rest := by
  have free {text : Text} (noBrace : ∀ c ∈ text, c ≠ '\x7b') (after : Text) : Pattern.Passes read text after :=
    Pattern.passes_of_begins after fun c member more => braced c more (noBrace c member)
  have named {name : Text} (tagName : isTagName name = true) : ∀ c ∈ name, c ≠ '\x7b' := by
    obtain ⟨-, -, -, -, parts⟩ := isTagNamePart_of_isTagName tagName
    intro c member
    exact ne_of_isTagNamePart (parts c member) (by decide)
  cases piece with
  | text words =>
    simp only [isSound, List.all_eq_true, isTextPart, Bool.and_eq_true, bne_iff_ne] at sound
    exact free (fun c member => (sound c member).1.2) rest
  | placeholder inner =>
    simp only [isSound, Bool.and_eq_true, List.all_eq_true] at sound
    exact passes_braces braced front sound.2 rest
  | opening name mentions closed =>
    simp only [isSound, Bool.and_eq_true, List.all_eq_true] at sound
    have whole : print (.opening name mentions closed) = ('<' :: name) ++ (printHead mentions closed ++ ['>']) := by
      simp [print]
    rw [whole, Pattern.passes_append_iff, Pattern.passes_append_iff]
    refine ⟨free ?_ _, passes_printHead braced front sound.1.2 closed _, free (by decide) _⟩
    intro c member
    rcases List.mem_cons.1 member with rfl | inName
    · decide
    · exact named sound.1.1 c inName
  | closing name =>
    refine free ?_ rest
    intro c member
    simp only [print, List.cons_append, List.mem_cons, List.mem_append, List.not_mem_nil, or_false] at member
    rcases member with rfl | rfl | inName | rfl
    · decide
    · decide
    · exact named sound c inName
    · decide

/-- Such a pattern begins nowhere in sound pieces. -/
theorem absent_braced {pieces : List Piece} (sound : ∀ piece ∈ pieces, piece.isSound = true) :
    Pattern.Absent read (printPieces pieces) := by
  induction pieces with
  | nil => exact Pattern.passes_nil read []
  | cons piece pieces ih =>
    rw [printPieces_cons, Pattern.absent_append_iff]
    exact ⟨Piece.passes_braced braced front (sound piece List.mem_cons_self) _,
      ih fun other member => sound other (List.mem_cons_of_mem piece member)⟩

end Braced

/-- Nor does a pattern that begins with two braces. -/
theorem absent_doubled {α : Type} {read : Pattern α}
    (doubled : ∀ text, Text.after? "\x7b\x7b" text = none → read text = none) {pieces : List Piece}
    (sound : ∀ piece ∈ pieces, piece.isSound = true) : Pattern.Absent read (printPieces pieces) := by
  refine absent_braced ?_ ?_ sound
  · intro c text other
    exact doubled _ (by simp [Text.after?, other.symm])
  · intro inner rest parts
    apply doubled
    cases inner with
    | nil => rfl
    | cons c inner =>
      have other : '\x7b' ≠ c := by
        rintro rfl
        exact absurd (parts '\x7b' List.mem_cons_self) (by decide)
      simp [Text.after?, other]

namespace Conditional

/-- The start of a conditional, as a pattern. -/
def start : Pattern Unit := fun text =>
  match text with
  | [] => none
  | c :: rest => if c = '\x7b' && opens 1 false rest then some ((), rest) else none

/-- Where no conditional starts, the search goes on behind. -/
theorem seekFrom?_append {piece rest : Text} (passes : Pattern.Passes start piece rest) (offset : Nat) :
    seekFrom? [] offset (piece ++ rest) = (seekFrom? [] (offset + piece.length) rest).map (prepend piece) := by
  induction piece generalizing offset with
  | nil => exact (map_prepend_nil _).symm
  | cons c piece ih =>
    obtain ⟨here, later⟩ := Pattern.passes_cons_iff.1 passes
    rw [List.cons_append] at here ⊢
    have closed : ¬(c = '\x7b' && opens 1 false (piece ++ rest)) = true := by
      intro both
      simp [start, both] at here
    have shifted : offset + (c :: piece).length = offset + 1 + piece.length := by
      rw [List.length_cons]
      omega
    have step : seekFrom? [] offset (c :: (piece ++ rest)) =
        (seekFrom? [] (offset + 1) (piece ++ rest)).map (prepend [c]) := by
      rw [seekFrom?, covered_nil, if_neg (by simpa using closed)]
      rfl
    rw [step, ih later, map_prepend_prepend, shifted, List.singleton_append]

theorem seekFrom?_of_absent {text : Text} (absent : Pattern.Absent start text) (offset : Nat) :
    seekFrom? [] offset text = none := by
  have whole := seekFrom?_append absent offset
  rw [List.append_nil] at whole
  rw [whole]
  rfl

theorem start_of_ne {c : Char} (other : c ≠ '\x7b') (rest : Text) : start (c :: rest) = none := by
  simp [start, other]

theorem start_of_not_opens {rest : Text} (closed : opens 1 false rest = false) : start ('\x7b' :: rest) = none := by
  rw [start, closed]
  rfl

/-- Text in braces without a question mark opens no conditional. -/
theorem start_braced {inner : Text} (braceless : ∀ c ∈ inner, Placeholder.isBrace c = false)
    (unmarked : ∀ c ∈ inner, c ≠ '?') (rest : Text) : start ('\x7b' :: (inner ++ '\x7d' :: rest)) = none := by
  apply start_of_not_opens
  rw [opens_braced braceless, asks_of_unmarked unmarked]

theorem start_expression {inner : Text} (parts : ∀ c ∈ inner, isExpressionPart c = true) (rest : Text) :
    start ('\x7b' :: (inner ++ '\x7d' :: rest)) = none := by
  refine start_braced (fun c member => (TagHead.flat_of_isExpressionPart (parts c member)).2.2) ?_ rest
  rintro c member rfl
  exact absurd (parts '?' member) (by decide)

theorem seek?_printPieces {pieces : List Piece} (sound : ∀ piece ∈ pieces, piece.isSound = true) :
    seek? (printPieces pieces) = none := by
  rw [seek?, Block.spans_printPieces sound]
  refine seekFrom?_of_absent (absent_braced ?_ ?_ sound) 0
  · exact fun c text other => start_of_ne other text
  · exact fun inner rest parts => start_expression parts rest

/-- There is nothing to settle in sound pieces. -/
theorem settle_printPieces {pieces : List Piece} (sound : ∀ piece ∈ pieces, piece.isSound = true) (scope : Scope) :
    settle (printPieces pieces) scope = .ok (printPieces pieces) :=
  settle_of_none (seek?_printPieces sound) scope

end Conditional

/-! ### Where a text stands -/

/-- After a text without angle brackets, the nearest one is that before the text. -/
theorem opensTag_append {accepts : Char → Bool} {text : Text} (free : ∀ c ∈ text, isAngle c = false)
    (following : Option Char) (before : Text) :
    opensTag accepts following (text.reverse ++ before) =
      opensTag accepts (text.head?.or following) before := by
  induction text generalizing before with
  | nil => rfl
  | cons c text ih =>
    have angle := free c List.mem_cons_self
    simp only [isAngle, Bool.or_eq_false_iff, beq_eq_false_iff_ne] at angle
    rw [List.reverse_cons, List.append_assoc, ih fun d member => free d (List.mem_cons_of_mem c member),
      List.singleton_append, opensTag, if_neg angle.2, if_neg angle.1]
    rfl

/-- Inside an open tag the first character of its name decides. -/
theorem opensTag_inside {accepts : Char → Bool} {c : Char} {part : Text} (free : ∀ d ∈ c :: part, isAngle d = false)
    (following : Option Char) (before : Text) :
    opensTag accepts following (before ++ '<' :: c :: part).reverse = accepts c := by
  have whole : (before ++ '<' :: c :: part).reverse = (c :: part).reverse ++ '<' :: before.reverse := by simp
  rw [whole, opensTag_append free, opensTag, if_neg (by decide), if_pos rfl]
  rfl

/-- The same at any place behind the front of a tag, given what stands there. -/
theorem opensTag_front {accepts : Char → Bool} {c first : Char} {part after more : Text}
    (whole : part ++ c :: after = first :: more ++ ['>']) (free : ∀ d ∈ first :: more, isAngle d = false)
    (before : Text) : opensTag accepts (some c) (before ++ '<' :: part).reverse = accepts first := by
  cases part with
  | nil =>
    obtain ⟨rfl, -⟩ := List.cons.inj whole
    have reversed : (before ++ ['<']).reverse = '<' :: before.reverse := by simp
    rw [reversed, opensTag, if_neg (by decide), if_pos rfl]
    rfl
  | cons d part =>
    obtain ⟨rfl, behind⟩ := List.cons.inj whole
    obtain ⟨inside, -, rfl⟩ := exists_of_append_concat behind
    refine opensTag_inside ?_ (some c) before
    intro e member
    apply free
    simp only [List.mem_cons, List.mem_append] at member ⊢
    exact member.imp_right .inl

/-- A text that opens no tag leaves a reader outside one, if it was outside before. -/
theorem opensTag_free {accepts : Char → Bool} {text : Text} (free : ∀ c ∈ text, c ≠ '<') {before : Text}
    (outside : ∀ following, opensTag accepts following before = false) (following : Option Char) :
    opensTag accepts following (text.reverse ++ before) = false := by
  induction text generalizing before with
  | nil => exact outside following
  | cons c text ih =>
    rw [List.reverse_cons, List.append_assoc]
    apply ih fun d member => free d (List.mem_cons_of_mem c member)
    intro next
    rw [List.singleton_append, opensTag]
    by_cases closes : c = '>'
    · rw [if_pos closes]
    · rw [if_neg closes, if_neg (free c List.mem_cons_self)]
      exact outside _

/-- Between pieces a reader is in no tag. -/
theorem opensTag_printPieces {pieces : List Piece} (sound : ∀ piece ∈ pieces, piece.isSound = true)
    (accepts : Char → Bool) (following : Option Char) :
    opensTag accepts following (printPieces pieces).reverse = false := by
  induction pieces using List.reverseRecOn generalizing following with
  | nil => rfl
  | append_singleton pieces piece ih =>
    have earlier := ih fun other member => sound other (List.mem_append_left [piece] member)
    have whole : (printPieces (pieces ++ [piece])).reverse = piece.print.reverse ++ (printPieces pieces).reverse := by
      simp [printPieces]
    rw [whole]
    rcases Piece.print_eq_angle (sound piece (by simp)) with free | ⟨tail, same, -⟩
    · exact opensTag_free free earlier following
    · rw [same]
      simp [opensTag]

namespace Placeholder

/-- What becomes of a placeholder, which may be out of reach. -/
def replacement (scope : Scope) (hidden : Bool) (source inner : Text) : Except Failure Text :=
  if hidden || looksConditional inner then .ok source else (Expression.evaluate inner scope).map Value.render

/-- The segments of a text with the placeholders in reach replaced, given the text before them. -/
def fill (scope : Scope) (before : Text) : List (Segment Text) → Except Failure Text
  | [] => .ok []
  | .plain c :: rest => do
    let others ← fill scope (before ++ [c]) rest
    .ok (c :: others)
  | .hit source inner :: rest => do
    let first ← replacement scope
      (opensTag isUpper (source ++ rest.flatMap Segment.source).head? before.reverse) source inner
    let others ← fill scope (before ++ source) rest
    .ok (first ++ others)

/-- One segment as the substitution writes it, given the offset where it begins. -/
def fillSegment (html : Text) (scope : Scope) : Nat × Segment Text → Except Failure Text := fun (offset, segment) =>
  match segment with
  | .plain c => .ok [c]
  | .hit source inner => replacement scope (frozen [] html offset) source inner

theorem mapM_located_eq_fill {html : Text} (scope : Scope) {before : Text} {segments : List (Segment Text)}
    (whole : html = before ++ segments.flatMap Segment.source) :
    ((Pattern.located before.length segments).mapM (fillSegment html scope) >>= fun parts => .ok parts.flatten) =
      fill scope before segments := by
  induction segments generalizing before with
  | nil => rfl
  | cons segment segments ih =>
    have split : html = (before ++ segment.source) ++ segments.flatMap Segment.source := by
      rw [whole, List.flatMap_cons, List.append_assoc]
    have later := ih split
    rw [List.length_append] at later
    cases segment with
    | plain c =>
      rw [Segment.source] at later
      rw [Pattern.located, List.mapM_cons, Segment.source, fill, ← later, fillSegment]
      cases (Pattern.located (before.length + [c].length) segments).mapM (fillSegment html scope) <;> rfl
    | hit source inner =>
      rw [Segment.source] at later
      have place : frozen [] html before.length =
          opensTag isUpper (source ++ segments.flatMap Segment.source).head? before.reverse := by
        rw [frozen, covered_nil, Bool.false_or, insideComponentTag, whole, List.take_left, List.flatMap_cons,
          Segment.source, List.getElem?_append_right (Nat.le_refl _), Nat.sub_self, List.head?_eq_getElem?]
      rw [Pattern.located, List.mapM_cons, Segment.source, fill, ← later, fillSegment, place]
      cases replacement scope (opensTag isUpper (source ++ segments.flatMap Segment.source).head? before.reverse)
          source inner with
      | error failure => rfl
      | ok first =>
        cases (Pattern.located (before.length + source.length) segments).mapM (fillSegment html scope) <;> rfl

theorem substitute_eq_fill {html : Text} (unblocked : Block.spans html = []) (scope : Scope) :
    substitute html scope = fill scope [] (Pattern.segments pattern html) := by
  rw [substitute, unblocked]
  exact @mapM_located_eq_fill html scope [] _ (Pattern.flatMap_source_segments pattern html).symm

theorem map_append_map_append (first second : Text) (result : Except Failure Text) :
    (result.map (second ++ ·)).map (first ++ ·) = result.map (first ++ second ++ ·) := by
  cases result <;> simp [Except.map]

theorem fill_map_plain (scope : Scope) (before text : Text) (rest : List (Segment Text)) :
    fill scope before (text.map Segment.plain ++ rest) =
      (fill scope (before ++ text) rest).map (text ++ ·) := by
  induction text generalizing before with
  | nil =>
    rw [List.map_nil, List.nil_append, List.append_nil]
    cases fill scope before rest <;> rfl
  | cons c text ih =>
    rw [List.map_cons, List.cons_append, fill, ih, List.append_assoc, List.singleton_append]
    cases fill scope (before ++ c :: text) rest <;> rfl

theorem pattern_of_ne (c : Char) (text : Text) (other : c ≠ '\x7b') : pattern (c :: text) = none := by
  simp [pattern, Text.after?, other.symm]

theorem fill_passes {piece rest : Text} (free : ∀ c ∈ piece, c ≠ '\x7b') (scope : Scope) (before : Text) :
    fill scope before (Pattern.segments pattern (piece ++ rest)) =
      (fill scope (before ++ piece) (Pattern.segments pattern rest)).map (piece ++ ·) := by
  have passes : Pattern.Passes pattern piece rest :=
    Pattern.passes_of_begins rest fun c member text => pattern_of_ne c text (free c member)
  rw [Pattern.segments_append passes, fill_map_plain]

/-- What stands between two braces is a placeholder, unless it is empty. -/
theorem pattern_braces {inner : Text} (nonempty : inner ≠ []) (braceless : ∀ c ∈ inner, isBrace c = false)
    (rest : Text) : pattern ('\x7b' :: inner ++ ['\x7d'] ++ rest) = some (inner, rest) := by
  have plain : ∀ c ∈ inner, (!isBrace c) = true := by
    intro c member
    rw [braceless c member]
    rfl
  have run : Pattern.run (!isBrace ·) (inner ++ '\x7d' :: rest) = some (inner, '\x7d' :: rest) :=
    Pattern.run_append nonempty plain rfl
  have whole : '\x7b' :: inner ++ ['\x7d'] ++ rest = '\x7b' :: (inner ++ '\x7d' :: rest) := by simp
  rw [whole]
  simp [pattern, Text.after?, run]

theorem isBrace_of_parts {inner : Text} (parts : ∀ c ∈ inner, isExpressionPart c = true) :
    ∀ c ∈ inner, isBrace c = false :=
  fun c member => (TagHead.flat_of_isExpressionPart (parts c member)).2.2

theorem looksConditional_of_parts {inner : Text} (parts : ∀ c ∈ inner, isExpressionPart c = true) :
    looksConditional inner = false := by
  have absent : '?' ∉ inner := fun member => absurd (parts '?' member) (by decide)
  simp [looksConditional, absent]

theorem fill_braces {inner : Text} (nonempty : inner ≠ []) (braceless : ∀ c ∈ inner, isBrace c = false)
    (scope : Scope) (before rest : Text) :
    fill scope before (Pattern.segments pattern ('\x7b' :: inner ++ ['\x7d'] ++ rest)) =
      (replacement scope (opensTag isUpper (some '\x7b') before.reverse) ('\x7b' :: inner ++ ['\x7d']) inner).bind
        fun first => (fill scope (before ++ ('\x7b' :: inner ++ ['\x7d'])) (Pattern.segments pattern rest)).map
          (first ++ ·) := by
  rw [Pattern.segments_hit (by simp) (pattern_braces nonempty braceless rest), fill, List.cons_append, List.cons_append,
    List.head?_cons]
  cases replacement scope (opensTag isUpper (some '\x7b') before.reverse) ('\x7b' :: (inner ++ ['\x7d'])) inner with
  | error failure => rfl
  | ok first =>
    cases fill scope (before ++ '\x7b' :: (inner ++ ['\x7d'])) (Pattern.segments pattern rest) <;> rfl

/-- The text before a place inside the tag of a component. -/
def InTag (before : Text) : Prop :=
  ∃ outside c part, before = outside ++ '<' :: c :: part ∧ isUpper c = true ∧ ∀ d ∈ c :: part, isAngle d = false

theorem InTag.append {before text : Text} (inside : InTag before) (free : ∀ c ∈ text, isAngle c = false) :
    InTag (before ++ text) := by
  obtain ⟨outside, c, part, rfl, upper, earlier⟩ := inside
  refine ⟨outside, c, part ++ text, by simp, upper, ?_⟩
  intro d member
  rcases List.mem_append.1 (List.cons_append ▸ member) with early | late
  · exact earlier d early
  · exact free d late

theorem InTag.opensTag {before : Text} (inside : InTag before) (following : Option Char) :
    opensTag isUpper following before.reverse = true := by
  obtain ⟨outside, c, part, rfl, upper, free⟩ := inside
  rw [opensTag_inside free, upper]

/-- In the tag of a component an expression in braces stays. -/
theorem fill_hidden {inner : Text} (parts : ∀ c ∈ inner, isExpressionPart c = true) (scope : Scope)
    {before : Text} (inside : InTag before) (rest : Text) :
    fill scope before (Pattern.segments pattern ('\x7b' :: inner ++ ['\x7d'] ++ rest)) =
      (fill scope (before ++ ('\x7b' :: inner ++ ['\x7d'])) (Pattern.segments pattern rest)).map
        ('\x7b' :: inner ++ ['\x7d'] ++ ·) := by
  by_cases nonempty : inner = []
  · subst nonempty
    have passes : Pattern.Passes pattern (['\x7b'] ++ ['\x7d']) rest := by
      rw [List.singleton_append, Pattern.passes_cons_iff, Pattern.passes_cons_iff]
      refine ⟨?_, pattern_of_ne '\x7d' rest (by decide), Pattern.passes_nil pattern rest⟩
      simp [pattern, Text.after?, Pattern.run, isBrace]
    rw [Pattern.segments_append passes, fill_map_plain]
  · rw [fill_braces nonempty (isBrace_of_parts parts), inside.opensTag, replacement, Bool.true_or, if_pos rfl]
    rfl

theorem fill_mention {mention : Mention} (sound : mention.isSound = true) (scope : Scope) {before : Text}
    (inside : InTag before) (rest : Text) :
    fill scope before (Pattern.segments pattern (mention.print ++ rest)) =
      (fill scope (before ++ mention.print) (Pattern.segments pattern rest)).map (mention.print ++ ·) := by
  have free : ∀ c ∈ ' ' :: mention.name ++ ['='], isConstantPart c = true := by
    simp only [Mention.isSound, Bool.and_eq_true, List.all_eq_true] at sound
    intro c member
    simp only [List.cons_append, List.mem_cons, List.mem_append, List.not_mem_nil, or_false] at member
    rcases member with rfl | inName | rfl
    · decide
    · exact isConstantPart_of_isMentionPart (sound.1.2 c inName)
    · decide
  have front : ∀ c ∈ ' ' :: mention.name ++ ['='], c ≠ '\x7b' := by
    intro c member
    rintro rfl
    exact absurd (free '\x7b' member) (by decide)
  have whole : mention.print = ' ' :: mention.name ++ ['='] ++ mention.written.print := by simp [Mention.print]
  have later := inside.append fun c member => isAngle_of_isConstantPart (free c member)
  simp only [Mention.isSound, Bool.and_eq_true] at sound
  rw [whole, List.append_assoc, fill_passes front]
  cases form : mention.written with
  | constant quote text =>
    have valued := sound.2
    rw [form] at valued
    simp only [Written.isSound, Bool.and_eq_true, List.all_eq_true] at valued
    have plain : ∀ c ∈ (Written.constant quote text).print, c ≠ '\x7b' := by
      intro c member
      simp only [Written.print, List.cons_append, List.mem_cons, List.mem_append, List.not_mem_nil, or_false] at member
      rintro rfl
      rcases member with rfl | inText | rfl
      · exact absurd valued.1 (by decide)
      · exact absurd (valued.2 '\x7b' inText) (by decide)
      · exact absurd valued.1 (by decide)
    rw [fill_passes plain, map_append_map_append, List.append_assoc before]
  | expression text =>
    have valued := sound.2
    rw [form] at valued
    simp only [Written.isSound, List.all_eq_true] at valued
    rw [Written.print, fill_hidden valued scope later, map_append_map_append, List.append_assoc before]

theorem fill_printHead {mentions : List Mention} (sound : ∀ mention ∈ mentions, mention.isSound = true)
    (closed : Bool) (scope : Scope) {before : Text} (inside : InTag before) (rest : Text) :
    fill scope before (Pattern.segments pattern (printHead mentions closed ++ rest)) =
      (fill scope (before ++ printHead mentions closed) (Pattern.segments pattern rest)).map
        (printHead mentions closed ++ ·) := by
  unfold printHead
  induction mentions generalizing before with
  | nil =>
    rw [List.flatMap_nil, List.nil_append]
    exact fill_passes (by cases closed <;> decide) scope before
  | cons mention mentions ih =>
    have mentionSound := sound mention List.mem_cons_self
    have later : InTag (before ++ mention.print) := inside.append fun c member =>
      @isAngle_of_mem_printHead [mention] (by simpa using mentionSound) false c (by simpa [printHead] using member)
    rw [List.flatMap_cons, List.append_assoc mention.print, List.append_assoc mention.print,
      fill_mention mentionSound scope inside,
      ih (fun other member => sound other (List.mem_cons_of_mem mention member)) later, map_append_map_append,
      List.append_assoc]

end Placeholder

namespace Piece

/-- A placeholder turns into the text of its value; nothing else changes. -/
def fill (scope : Scope) : Piece → Except Failure Piece
  | .placeholder inner => (Expression.evaluate inner scope).map fun value => .text value.render
  | piece => .ok piece

end Piece

namespace Placeholder

theorem fill_print {piece : Piece} (sound : piece.isSound = true) (scope : Scope) {earlier : List Piece}
    (earlierSound : ∀ piece ∈ earlier, piece.isSound = true) (rest : Text) :
    fill scope (printPieces earlier) (Pattern.segments pattern (piece.print ++ rest)) =
      (piece.fill scope).bind fun filled =>
        (fill scope (printPieces (earlier ++ [piece])) (Pattern.segments pattern rest)).map (filled.print ++ ·) := by
  have whole : printPieces (earlier ++ [piece]) = printPieces earlier ++ piece.print := by simp [printPieces]
  rw [whole]
  have named {name : Text} (tagName : isTagName name = true) : ∀ c ∈ name, c ≠ '\x7b' := by
    obtain ⟨-, -, -, -, parts⟩ := isTagNamePart_of_isTagName tagName
    intro c member
    exact ne_of_isTagNamePart (parts c member) (by decide)
  cases piece with
  | text words =>
    simp only [Piece.isSound, List.all_eq_true, isTextPart, Bool.and_eq_true, bne_iff_ne] at sound
    exact fill_passes (fun c member => (sound c member).1.2) scope _
  | placeholder inner =>
    simp only [Piece.isSound, Bool.and_eq_true, List.all_eq_true, bne_iff_ne] at sound
    rw [Piece.print, fill_braces sound.1 (isBrace_of_parts sound.2), opensTag_printPieces earlierSound, replacement,
      looksConditional_of_parts sound.2, Bool.or_false, if_neg Bool.false_ne_true, Piece.fill]
    cases Expression.evaluate inner scope <;> rfl
  | opening name mentions closed =>
    simp only [Piece.isSound, Bool.and_eq_true, Bool.or_eq_true, List.all_eq_true] at sound
    obtain ⟨⟨tagName, mentionsSound⟩, kind⟩ := sound
    have opens : ∀ c ∈ '<' :: name, c ≠ '\x7b' := by
      intro c member
      rcases List.mem_cons.1 member with rfl | inName
      · decide
      · exact named tagName c inName
    have split : (Piece.opening name mentions closed).print ++ rest =
        '<' :: name ++ (printHead mentions closed ++ (['>'] ++ rest)) := by simp [Piece.print]
    have joined : printPieces earlier ++ (Piece.opening name mentions closed).print =
        printPieces earlier ++ '<' :: name ++ printHead mentions closed ++ ['>'] := by simp [Piece.print]
    rw [split, joined, fill_passes opens]
    rcases kind with pascal | static
    · have inside : InTag (printPieces earlier ++ '<' :: name) := by
        obtain ⟨c, tail, rfl, -, parts⟩ := isTagNamePart_of_isTagName tagName
        refine ⟨printPieces earlier, c, tail, rfl, ?_, fun d member => isAngle_of_isTagNamePart (parts d member)⟩
        simp only [isPascalCase, Bool.and_eq_true] at pascal
        simp [isUpper, pascal.1]
      rw [fill_printHead mentionsSound closed scope inside, fill_passes (by decide), map_append_map_append,
        map_append_map_append]
      rfl
    · have free : ∀ c ∈ printHead mentions closed, c ≠ '\x7b' := by
        intro c member
        rintro rfl
        exact absurd (isBrace_of_mem_printHead mentionsSound static member) (by decide)
      rw [fill_passes free, fill_passes (by decide), map_append_map_append,
        map_append_map_append]
      rfl
  | closing name =>
    refine fill_passes ?_ scope _
    intro c member
    simp only [Piece.print, List.cons_append, List.mem_cons, List.mem_append, List.not_mem_nil, or_false] at member
    rcases member with rfl | rfl | inName | rfl
    · decide
    · decide
    · exact named sound c inName
    · decide

theorem fill_printPieces {pieces : List Piece} (sound : ∀ piece ∈ pieces, piece.isSound = true) (scope : Scope)
    {earlier : List Piece} (earlierSound : ∀ piece ∈ earlier, piece.isSound = true) :
    fill scope (printPieces earlier) (Pattern.segments pattern (printPieces pieces)) =
      (pieces.mapM (Piece.fill scope)).map printPieces := by
  induction pieces generalizing earlier with
  | nil =>
    have none : Pattern.segments pattern (printPieces []) = [] := by simp [printPieces, Pattern.segments]
    rw [none]
    rfl
  | cons piece pieces ih =>
    have pieceSound := sound piece List.mem_cons_self
    have laterSound : ∀ other ∈ earlier ++ [piece], other.isSound = true := by
      intro other member
      rcases List.mem_append.1 member with early | last
      · exact earlierSound other early
      · rw [List.mem_singleton.1 last]
        exact pieceSound
    rw [printPieces_cons, fill_print pieceSound scope earlierSound, List.mapM_cons,
      ih (fun other member => sound other (List.mem_cons_of_mem piece member)) laterSound]
    cases piece.fill scope with
    | error failure => rfl
    | ok filled => cases pieces.mapM (Piece.fill scope) <;> rfl

/-- In sound pieces exactly the placeholders are replaced, each by its value. -/
theorem substitute_printPieces {pieces : List Piece} (sound : ∀ piece ∈ pieces, piece.isSound = true) (scope : Scope) :
    substitute (printPieces pieces) scope = (pieces.mapM (Piece.fill scope)).map printPieces := by
  rw [substitute_eq_fill (Block.spans_printPieces sound)]
  exact @fill_printPieces _ sound scope [] (by simp)

end Placeholder

end ComponentPages
