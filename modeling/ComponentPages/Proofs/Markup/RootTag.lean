import ComponentPages.Proofs.Fetch.Token
import ComponentPages.Proofs.Markup.Finished
import ComponentPages.Proofs.Markup.Outline
import ComponentPages.Proofs.Markup.Unclosed
import ComponentPages.Proofs.Stylesheet

/-!
What loading does to the opening tag of a component's root, and to nothing else. In front of the root there may be
comments and script blocks. The scope attribute goes to the first opening tag outside comments that is no script's, and
the props are declared by the first `props` attribute of the whole source, wherever it stands: so the results are about
sources whose scripts in front of the root have nothing in them that looks like an opening tag, and whose first `props`
attribute is the root's own.
-/
namespace ComponentPages

namespace Pattern

variable {α : Type} {read : Pattern α}

instance decidablePasses (read : Pattern α) : (piece rest : Text) → Decidable (Passes read piece rest)
  | [], rest => isTrue (passes_nil read rest)
  | c :: piece, rest =>
    have := decidablePasses read piece rest
    decidable_of_iff (read (c :: piece ++ rest) = none ∧ Passes read piece rest) passes_cons_iff.symm

/-- What is read in front of a border is read there on its own. -/
def EndsAt (read : Pattern α) (border : Char) : Prop :=
  ∀ c text more, read (c :: text ++ border :: more) =
    (read (c :: text)).map fun (value, rest) => (value, rest ++ border :: more)

theorem EndsAt.segments_append {border : Char} (ends : EndsAt read border) (text more : Text) :
    segments read (text ++ border :: more) = segments read text ++ segments read (border :: more) := by
  fun_induction segments read text with
  | case1 => rfl
  | case2 c tail value rest found taken positive ih =>
    have same : (tail ++ border :: more).length + 1 - (rest ++ border :: more).length = taken := by
      simp only [List.length_append, taken]
      omega
    have inside : taken ≤ (c :: tail).length := by
      simp only [List.length_cons, taken]
      omega
    have whole := ends c tail more
    rw [found, Option.map_some, List.cons_append] at whole
    rw [List.cons_append, segments, whole]
    dsimp only
    rw [same, if_pos positive, ← List.cons_append, List.take_append_of_le_length inside, List.drop_append_of_le_length inside,
      ih, List.cons_append]
  | case3 c tail value rest found taken nothing ih =>
    have same : (tail ++ border :: more).length + 1 - (rest ++ border :: more).length = taken := by
      simp only [List.length_append, taken]
      omega
    have whole := ends c tail more
    rw [found, Option.map_some, List.cons_append] at whole
    rw [List.cons_append, segments, whole]
    dsimp only
    rw [same, if_neg nothing, ih, List.cons_append]
  | case4 c tail none ih =>
    have whole := ends c tail more
    rw [none, Option.map_none, List.cons_append] at whole
    rw [List.cons_append, segments, whole]
    dsimp only
    rw [ih, List.cons_append]

theorem located_append (offset : Nat) (first second : List (Segment α)) :
    located offset (first ++ second) =
      located offset first ++ located (offset + (first.flatMap Segment.source).length) second := by
  induction first generalizing offset with
  | nil => rfl
  | cons segment first ih =>
    rw [List.cons_append, located, located, ih, List.flatMap_cons, List.length_append, Nat.add_assoc, List.cons_append]

end Pattern

namespace RootElement

/-- What stands in front of a root: texts, each but the last with a comment behind it. -/
structure Front where
  commented : List (Text × Text)
  last : Text

def printComment (inside : Text) : Text := "<!--" ++ (inside ++ "-->")

def printCommented (parts : List (Text × Text)) : Text := parts.flatMap fun part => part.1 ++ printComment part.2

namespace Front

def print (front : Front) : Text := printCommented front.commented ++ front.last

def texts (front : Front) : List Text := front.commented.map Prod.fst ++ [front.last]

end Front

def commentStart : Pattern Unit := fun text => (Text.after? "<!--" text).map ((), ·)

def commentEnd : Pattern Unit := fun text => (Text.after? "-->" text).map ((), ·)

/-- A text in front of a root has no comment in it, and its opening tags are those of scripts. -/
structure IsFrontText (text : Text) : Prop where
  uncommented : Pattern.Absent commentStart text
  scripts : ∀ name ∈ Pattern.values openingName text, Text.lower name = "script"

/-- A comment goes on up to its first end mark. -/
def IsComment (inside : Text) : Prop := Pattern.Passes commentEnd inside "-->"

structure Front.IsSound (front : Front) : Prop where
  texts : ∀ text ∈ front.texts, IsFrontText text
  comments : ∀ part ∈ front.commented, IsComment part.2

namespace Front

variable {front : Front} (sound : front.IsSound)

include sound

theorem IsSound.commented : ∀ part ∈ front.commented, IsFrontText part.1 ∧ IsComment part.2 :=
  fun part member => ⟨sound.texts part.1 (List.mem_append_left _ (List.mem_map_of_mem member)), sound.comments part member⟩

theorem IsSound.last : IsFrontText front.last := sound.texts front.last (List.mem_append_right _ List.mem_cons_self)

end Front

theorem printCommented_cons_append (text inside : Text) (commented : List (Text × Text)) (more : Text) :
    printCommented ((text, inside) :: commented) ++ more = text ++ (printComment inside ++ (printCommented commented ++ more)) := by
  simp [printCommented]

/-- A name ends before a character that no name has. -/
theorem openingName_endsAt {border : Char} (slug : isSlugPart border = false) (letter : border.isAlpha = false) :
    Pattern.EndsAt openingName border := by
  intro c text more
  by_cases angle : '<' = c
  · subst angle
    cases text with
    | nil =>
      change (if border.isAlpha = true then _ else none) = none
      rw [letter, if_neg Bool.false_ne_true]
    | cons d text =>
      change (if d.isAlpha = true then
          some (d :: (text ++ border :: more).takeWhile isSlugPart, (text ++ border :: more).dropWhile isSlugPart) else none) =
        Option.map _ (if d.isAlpha = true then some (d :: text.takeWhile isSlugPart, text.dropWhile isSlugPart) else none)
      rw [Pattern.takeWhile_append_border slug, Pattern.dropWhile_append_border slug]
      split <;> rfl
  · have unread (rest : Text) : openingName (c :: rest) = none := by
      change ((if '<' = c then some rest else none).bind _) = none
      rw [if_neg angle, Option.bind_none]
    rw [List.cons_append, unread, unread, Option.map_none]

/-! ### Comments -/

theorem commentStart_eq_none {text : Text} (unopened : commentStart text = none) : comment text = none := by
  rw [comment, Option.map_eq_none_iff.1 unopened]
  rfl

/-- A text without comments, in front of a comment or a tag. -/
theorem passes_comment {text : Text} (uncommented : Pattern.Absent commentStart text) (more : Text) :
    Pattern.Passes comment text ('<' :: more) := by
  intro before c after whole
  have here := Option.map_eq_none_iff.1 (uncommented before c after whole)
  refine commentStart_eq_none (Option.map_eq_none_iff.2 ?_)
  rw [List.append_nil] at here
  change (if '<' = c then Text.after? "!--" after else none) = none at here
  change (if '<' = c then Text.after? "!--" (after ++ '<' :: more) else none) = none
  split
  · next angle =>
    rw [if_pos angle] at here
    rw [Text.after?_append_border (by decide), here, Option.map_none]
  · rfl

theorem IsFrontText.passes_printComment {text : Text} (front : IsFrontText text) (inside rest : Text) :
    Pattern.Passes comment text (printComment inside ++ rest) :=
  passes_comment front.uncommented ("!--" ++ (inside ++ "-->") ++ rest)

theorem commentEnd_append {text : Text} (long : 3 ≤ text.length) (unended : commentEnd text = none) (rest : Text) :
    commentEnd (text ++ rest) = none := by
  rw [commentEnd, Option.map_eq_none_iff] at unended ⊢
  by_contra ended
  obtain ⟨behind, found⟩ := Option.ne_none_iff_exists'.1 ended
  have begins : ("-->" : Text) <+: text :=
    List.prefix_of_prefix_length_le ⟨behind, (Text.eq_of_after? found).symm⟩ (List.prefix_append text rest) long
  obtain ⟨inner, rfl⟩ := begins
  rw [Text.after?_append] at unended
  cases unended

/-- A comment, up to its end. -/
theorem comment_print {inside : Text} (sound : IsComment inside) (rest : Text) :
    comment (printComment inside ++ rest) = some ((), rest) := by
  have passes : Pattern.Passes commentEnd inside ("-->" ++ rest) := by
    intro before c after whole
    have here := sound before c after whole
    rw [← List.append_assoc]
    exact commentEnd_append (by simp) here rest
  have ended : Pattern.seek? commentEnd ("-->" ++ rest) = some ([], (), rest) := rfl
  have opened : Text.after? "<!--" (printComment inside ++ rest) = some (inside ++ ("-->" ++ rest)) := by
    rw [printComment, List.append_assoc, Text.after?_append, List.append_assoc]
  rw [comment, opened]
  change ((Pattern.seek? commentEnd (inside ++ ("-->" ++ rest))).bind fun found => some ((), found.2.2)) = _
  rw [Pattern.seek?_append passes, ended]
  rfl

/-- The stretches of comments in a text that begins at an offset. -/
def commentSpansFrom (offset : Nat) (html : Text) : List Span :=
  (Pattern.located offset (Pattern.segments comment html)).filterMap fun (offset, segment) =>
    segment.value?.map fun _ => ⟨offset, offset + segment.source.length⟩

/-- A text without comments has no stretches. -/
theorem commentSpansFrom_append {text more : Text} (passes : Pattern.Passes comment text more) (offset : Nat) :
    commentSpansFrom offset (text ++ more) = commentSpansFrom (offset + text.length) more := by
  have plain (text : Text) (offset : Nat) : ((Pattern.located offset (text.map Segment.plain)).filterMap
      fun (found : Nat × Segment Unit) => found.2.value?.map fun _ => (⟨found.1, found.1 + found.2.source.length⟩ : Span)) =
        [] := by
    induction text generalizing offset with
    | nil => rfl
    | cons c text ih => exact ih _
  have sources (text : Text) : (text.map Segment.plain).flatMap (@Segment.source Unit) = text := by
    induction text with
    | nil => rfl
    | cons c text ih => exact congrArg (c :: ·) ih
  rw [commentSpansFrom, Pattern.segments_append passes, Pattern.located_append, List.filterMap_append, plain, sources]
  rfl

theorem commentSpansFrom_comment {inside : Text} (sound : IsComment inside) (offset : Nat) (rest : Text) :
    commentSpansFrom offset (printComment inside ++ rest) =
      ⟨offset, offset + (printComment inside).length⟩ :: commentSpansFrom (offset + (printComment inside).length) rest := by
  have nonempty : printComment inside ≠ [] := List.cons_ne_nil '<' _
  rw [commentSpansFrom, Pattern.segments_hit nonempty (comment_print sound rest)]
  rfl

/-- A stretch begins where a comment is read. -/
theorem exists_of_mem_commentSpansFrom {offset : Nat} {html : Text} {span : Span}
    (member : span ∈ commentSpansFrom offset html) :
    offset ≤ span.start ∧ ∃ rest, comment (html.drop (span.start - offset)) = some ((), rest) := by
  obtain ⟨⟨place, segment⟩, located, value⟩ := List.mem_filterMap.1 member
  cases segment with
  | plain c => cases value
  | hit source found =>
    obtain rfl := Option.some.inj value
    exact Pattern.read_of_mem_located located

/-! ### The tag that the scope attribute is added to -/

/-- Where the name of the first opening tag ends that is neither in a comment nor a script's. -/
def nameStopFrom? (comments : List Span) (offset : Nat) (html : Text) : Option Nat :=
  (Pattern.located offset (Pattern.segments openingName html)).findSome? fun (offset, segment) =>
    match segment with
    | .plain _ => none
    | .hit source name =>
      if covered comments offset || Text.lower name == "script" then none else some (offset + source.length)

theorem nameStopFrom?_append {comments : List Span} {offset : Nat} {text more : Text} {border : Char}
    (slug : isSlugPart border = false) (letter : border.isAlpha = false)
    (nothing : nameStopFrom? comments offset text = none) :
    nameStopFrom? comments offset (text ++ border :: more) = nameStopFrom? comments (offset + text.length) (border :: more) := by
  rw [nameStopFrom?, (openingName_endsAt slug letter).segments_append, Pattern.located_append, List.findSome?_append,
    Pattern.flatMap_source_segments]
  rw [nameStopFrom?] at nothing
  rw [nothing, Option.none_or]
  rfl

theorem nameStopFrom?_text {text : Text} (sound : IsFrontText text) (comments : List Span) (offset : Nat) :
    nameStopFrom? comments offset text = none := by
  rw [nameStopFrom?, List.findSome?_eq_none_iff]
  rintro ⟨place, segment⟩ member
  cases segment with
  | plain c => rfl
  | hit source name =>
    have listed : name ∈ Pattern.values openingName text :=
      List.mem_filterMap.2 ⟨.hit source name, Pattern.mem_of_mem_located member, rfl⟩
    have script := sound.scripts name listed
    dsimp only
    rw [script, if_pos (by simp)]

/-- Opening tags in comments are passed by. -/
theorem nameStopFrom?_covered {comments : List Span} {offset stop : Nat} {text : Text} (within : offset + text.length ≤ stop)
    (covers : (⟨offset, stop⟩ : Span) ∈ comments) : nameStopFrom? comments offset text = none := by
  rw [nameStopFrom?, List.findSome?_eq_none_iff]
  rintro ⟨place, segment⟩ member
  cases segment with
  | plain c => rfl
  | hit source name =>
    obtain ⟨behind, rest, reads⟩ := Pattern.read_of_mem_located member
    have inside : place - offset < text.length := by
      by_contra outside
      rw [List.drop_eq_nil_of_le (Nat.le_of_not_lt outside)] at reads
      cases reads
    have covered : covered comments place = true := by
      refine List.any_eq_true.2 ⟨_, covers, ?_⟩
      simp only [Span.covers, Bool.and_eq_true, decide_eq_true_eq]
      omega
    dsimp only
    rw [covered, Bool.true_or, if_pos rfl]

theorem nameStopFrom?_comment {comments : List Span} {offset : Nat} {inside : Text}
    (covers : (⟨offset, offset + (printComment inside).length⟩ : Span) ∈ comments) (rest : Text) :
    nameStopFrom? comments offset (printComment inside ++ rest) =
      nameStopFrom? comments (offset + (printComment inside).length) rest := by
  let body : Text := "<!--" ++ (inside ++ "--")
  have whole : printComment inside = body ++ ['>'] := by simp [printComment, body]
  have size : (printComment inside).length = body.length + 1 := by rw [whole, List.length_append, List.length_singleton]
  have last : nameStopFrom? comments (offset + body.length) ('>' :: rest) =
      nameStopFrom? comments (offset + body.length + 1) rest := by
    rw [nameStopFrom?, Pattern.segments, show openingName ('>' :: rest) = none from rfl]
    rfl
  rw [size] at covers ⊢
  rw [whole, List.append_assoc, List.singleton_append, nameStopFrom?_append (by decide) (by decide)
    (nameStopFrom?_covered (Nat.add_le_add_left (Nat.le_succ _) offset) covers), last, Nat.add_assoc]

/-- The parts in front of a root are passed by. -/
theorem nameStopFrom?_front {commented : List (Text × Text)} {last more : Text} {comments : List Span} {offset : Nat}
    (texts : ∀ part ∈ commented, IsFrontText part.1 ∧ IsComment part.2) (sound : IsFrontText last)
    (covers : ∀ span ∈ commentSpansFrom offset (printCommented commented ++ (last ++ '<' :: more)), span ∈ comments) :
    nameStopFrom? comments offset (printCommented commented ++ (last ++ '<' :: more)) =
      nameStopFrom? comments (offset + (printCommented commented).length + last.length) ('<' :: more) := by
  induction commented generalizing offset with
  | nil => exact nameStopFrom?_append (by decide) (by decide) (nameStopFrom?_text sound comments offset)
  | cons part commented ih =>
    obtain ⟨text, inside⟩ := part
    obtain ⟨⟨front, comment⟩, others⟩ := List.forall_mem_cons.1 texts
    rw [printCommented_cons_append, commentSpansFrom_append (front.passes_printComment inside _),
      commentSpansFrom_comment comment] at covers
    obtain ⟨here, later⟩ := List.forall_mem_cons.1 covers
    have skips (rest : Text) : nameStopFrom? comments offset (text ++ (printComment inside ++ rest)) =
        nameStopFrom? comments (offset + text.length) (printComment inside ++ rest) :=
      nameStopFrom?_append (by decide) (by decide) (nameStopFrom?_text front comments offset)
    rw [printCommented_cons_append, skips, nameStopFrom?_comment here, ih others later]
    simp only [printCommented, List.flatMap_cons, List.length_append]
    congr 1
    omega

/-- Comments in front of a root end there. -/
theorem stop_le_of_mem_commentSpansFrom {commented : List (Text × Text)} {last more : Text} {offset : Nat}
    (texts : ∀ part ∈ commented, IsFrontText part.1 ∧ IsComment part.2) (sound : IsFrontText last) {span : Span}
    (member : span ∈ commentSpansFrom offset (printCommented commented ++ (last ++ '<' :: more))) :
    span.stop ≤ offset + (printCommented commented).length + last.length ∨
      span ∈ commentSpansFrom (offset + (printCommented commented).length + last.length) ('<' :: more) := by
  induction commented generalizing offset with
  | nil =>
    change span ∈ commentSpansFrom offset (last ++ '<' :: more) at member
    rw [commentSpansFrom_append (passes_comment sound.uncommented more)] at member
    exact .inr member
  | cons part commented ih =>
    obtain ⟨text, inside⟩ := part
    obtain ⟨⟨front, comment⟩, others⟩ := List.forall_mem_cons.1 texts
    have place : offset + (printCommented ((text, inside) :: commented)).length =
        offset + text.length + (printComment inside).length + (printCommented commented).length := by
      simp only [printCommented, List.flatMap_cons, List.length_append]
      omega
    rw [place]
    rw [printCommented_cons_append, commentSpansFrom_append (front.passes_printComment inside _),
      commentSpansFrom_comment comment] at member
    rcases List.mem_cons.1 member with rfl | later
    · refine .inl ?_
      dsimp only
      omega
    · exact ih others later

theorem exists_of_nameEnds {behind : Text} (ends : Tag.nameEnds behind = true) :
    ∃ c rest, behind = c :: rest ∧ isSlugPart c = false := by
  cases behind with
  | nil => cases ends
  | cons c rest => exact ⟨c, rest, rfl, by simpa using (Fetch.stops_of_nameEnds ends).1⟩

/-- The name of a root and what follows it. The root is no script, and what follows ends the name. -/
structure IsRootName (name behind : Text) : Prop where
  begins : ∃ c rest, name = c :: rest ∧ c.isAlpha = true ∧ ∀ d ∈ rest, isSlugPart d = true
  ends : Tag.nameEnds behind = true
  element : Text.lower name ≠ "script" ∧ Block.opening? "script" ('<' :: (name ++ ['>'])) = none

/-- A name that begins with a letter is read up to what ends it. -/
theorem openingName_append {name behind : Text}
    (begins : ∃ c rest, name = c :: rest ∧ c.isAlpha = true ∧ ∀ d ∈ rest, isSlugPart d = true)
    (ends : Tag.nameEnds behind = true) : openingName ('<' :: (name ++ behind)) = some (name, behind) := by
  obtain ⟨c, rest, rfl, letter, parts⟩ := begins
  obtain ⟨d, more, rfl, stops⟩ := exists_of_nameEnds ends
  change (if c.isAlpha = true then
    some (c :: (rest ++ d :: more).takeWhile isSlugPart, (rest ++ d :: more).dropWhile isSlugPart) else none) = _
  obtain ⟨taken, left⟩ := Text.takeWhile_append_cons parts stops more
  rw [if_pos letter, taken, left]

theorem openingName_root {name behind : Text} (sound : IsRootName name behind) :
    openingName ('<' :: (name ++ behind)) = some (name, behind) :=
  openingName_append sound.begins sound.ends

/-- A tag is no comment. -/
theorem comment_tag {c : Char} (other : c ≠ '!') (text : Text) : comment ('<' :: c :: text) = none := by
  refine commentStart_eq_none ?_
  change (if '!' = c then Text.after? "--" text else none).map _ = none
  rw [if_neg other.symm, Option.map_none]

theorem comment_root {name behind : Text} (root : IsRootName name behind) : comment ('<' :: (name ++ behind)) = none := by
  obtain ⟨c, rest, rfl, letter, -⟩ := root.begins
  refine comment_tag ?_ (rest ++ behind)
  rintro rfl
  exact absurd letter (by decide)

/-- The first opening tag that counts is the root's. -/
theorem nameStop?_root {front : Front} (sound : front.IsSound) {name behind : Text} (root : IsRootName name behind) :
    nameStop? (front.print ++ '<' :: (name ++ behind)) = some (front.print ++ '<' :: name).length := by
  obtain ⟨commented, last⟩ := front
  have texts : ∀ part ∈ commented, IsFrontText part.1 ∧ IsComment part.2 := sound.commented
  have lastSound : IsFrontText last := sound.last
  have uncovered : covered (commentSpansFrom 0 (printCommented commented ++ (last ++ '<' :: (name ++ behind))))
      (0 + (printCommented commented).length + last.length) = false := by
    rw [covered, List.any_eq_false]
    intro span member
    simp only [Span.covers, Bool.and_eq_true, decide_eq_true_eq, not_and_or]
    rcases stop_le_of_mem_commentSpansFrom texts lastSound member with before | later
    · omega
    · obtain ⟨after, rest, reads⟩ := exists_of_mem_commentSpansFrom later
      refine .inl fun starts => ?_
      rw [show span.start - (0 + (printCommented commented).length + last.length) = 0 by omega, List.drop_zero,
        comment_root root] at reads
      cases reads
  have hit : Pattern.segments openingName ('<' :: (name ++ behind)) =
      .hit ('<' :: name) name :: Pattern.segments openingName behind :=
    Pattern.segments_hit (List.cons_ne_nil _ _) (openingName_root root)
  rw [Front.print, List.append_assoc]
  change nameStopFrom? (commentSpansFrom 0 _) 0 _ = _
  rw [nameStopFrom?_front texts lastSound fun _ member => member, nameStopFrom?, hit, Pattern.located, List.findSome?_cons]
  dsimp only
  rw [uncovered, Bool.false_or, if_neg (by simpa using root.element.1)]
  simp only [List.length_append, Nat.zero_add]

/-- The scope attribute is added to the root's opening tag, behind the name. -/
theorem addAttribute_root {front : Front} (sound : front.IsSound) {name behind : Text} (root : IsRootName name behind)
    (added : Text) :
    addAttribute (front.print ++ '<' :: (name ++ behind)) added =
      front.print ++ '<' :: (name ++ (" " ++ added ++ "=\"\"" ++ behind)) := by
  have whole : front.print ++ '<' :: (name ++ behind) = (front.print ++ '<' :: name) ++ behind := by simp
  rw [addAttribute, nameStop?_root sound root]
  dsimp only
  rw [whole, List.take_left, List.drop_left]
  simp

/-! ### The root that is recognised -/

/-- A template without the comments and the scripts that do not count for its root. -/
def bare (html : Text) : Text := Text.trim (Pattern.erase (Block.named "script") (Pattern.erase comment html))

/-- White space and script blocks. -/
inductive Scripts : Text → Prop
  | done : Scripts []
  | blank {c : Char} {rest : Text} : isBlank c = true → Scripts rest → Scripts (c :: rest)
  | script {block contents rest : Text} : block ≠ [] →
      (∀ more, Block.named "script" (block ++ more) = some (contents, more)) → Scripts rest → Scripts (block ++ rest)

theorem named_of_ne {c : Char} (other : c ≠ '<') (word text : Text) : Block.named word (c :: text) = none := by
  rw [Block.named, Block.opening?_of_ne word c text other]
  rfl

theorem comment_of_ne {c : Char} (other : c ≠ '<') (text : Text) : comment (c :: text) = none := by
  refine commentStart_eq_none ?_
  change (if '<' = c then Text.after? "!--" text else none).map _ = none
  rw [if_neg (Ne.symm other), Option.map_none]

/-- Without scripts, white space is left. -/
theorem Scripts.erase {text : Text} (scripts : Scripts text) (rest : Text) :
    ∃ space, IsSpace space ∧ Pattern.erase (Block.named "script") (text ++ rest) =
      space ++ Pattern.erase (Block.named "script") rest := by
  induction scripts with
  | done => exact ⟨[], by simp [IsSpace], rfl⟩
  | @blank c text blank _ ih =>
    obtain ⟨space, spaces, erased⟩ := ih
    have other : c ≠ '<' := by
      rintro rfl
      exact absurd blank (by decide)
    have passes : Pattern.Passes (Block.named "script") [c] (text ++ rest) :=
      Pattern.passes_cons_iff.2 ⟨named_of_ne other _ _, Pattern.passes_nil _ _⟩
    refine ⟨c :: space, List.forall_mem_cons.2 ⟨blank, spaces⟩, ?_⟩
    have whole := Pattern.replace_append passes fun _ => []
    rw [List.singleton_append] at whole
    rw [List.cons_append, Pattern.erase, whole, ← Pattern.erase, erased]
    rfl
  | @script block contents text nonempty reads _ ih =>
    obtain ⟨space, spaces, erased⟩ := ih
    refine ⟨space, spaces, ?_⟩
    rw [List.append_assoc, Pattern.erase, Pattern.replace_hit nonempty (reads (text ++ rest)), ← Pattern.erase, erased]
    rfl

/-- The text in front of a root without the comments. -/
def Front.uncommented (front : Front) : Text := front.commented.flatMap Prod.fst ++ front.last

theorem erase_comment_front {front : Front} (sound : front.IsSound) (more : Text) :
    Pattern.erase comment (front.print ++ '<' :: more) = front.uncommented ++ Pattern.erase comment ('<' :: more) := by
  obtain ⟨commented, last⟩ := front
  have texts : ∀ part ∈ commented, IsFrontText part.1 ∧ IsComment part.2 := sound.commented
  have lastSound : IsFrontText last := sound.last
  rw [Front.print, Front.uncommented, List.append_assoc, List.append_assoc]
  dsimp only
  clear sound
  induction commented with
  | nil => exact Pattern.replace_append (passes_comment lastSound.uncommented more) _
  | cons part commented ih =>
    obtain ⟨text, inside⟩ := part
    obtain ⟨⟨front, sound⟩, others⟩ := List.forall_mem_cons.1 texts
    have nonempty : printComment inside ≠ [] := List.cons_ne_nil '<' _
    rw [printCommented_cons_append, Pattern.erase, Pattern.replace_append (front.passes_printComment inside _),
      Pattern.replace_hit nonempty (comment_print sound _), ← Pattern.erase, ih others, List.flatMap_cons, List.append_assoc]
    rfl

/-- A root's name opens no script, whatever ends it. -/
theorem named_root {name behind : Text} (root : IsRootName name behind) :
    Block.named "script" ('<' :: (name ++ behind)) = none := by
  have letters : ∀ letter ∈ ("script" : Text), letter ∈ blockLetters := by decide
  have unopened : Block.opening? "script" ('<' :: (name ++ behind)) = none := by
    have element := root.element.2
    cases found : Text.afterFolded? "script" name with
    | none =>
      change (Text.afterFolded? "script" (name ++ behind)).bind _ = none
      rw [Fetch.afterFolded?_name letters found root.ends, Option.bind_none]
    | some head =>
      change (Text.afterFolded? "script" (name ++ ['>'])).bind _ = none at element
      change (Text.afterFolded? "script" (name ++ behind)).bind _ = none
      rw [Text.afterFolded?_append_of_some found, Option.bind_some] at element ⊢
      by_cases word : (head ++ ['>']).head?.any isWord = true
      · have same : (head ++ behind).head?.any isWord = true := by
          cases head with
          | nil => exact absurd word (by decide)
          | cons c head => exact word
        rw [if_pos same]
        rfl
      · obtain ⟨before, after, cut⟩ := @Text.exists_of_mem_cut '>' (head ++ ['>']) (by simp)
        rw [if_neg word, cut] at element
        cases element
  rw [Block.named, unopened]
  rfl

/-- A pattern that begins with an angle bracket passes a tag that it does not read, up to behind the name. -/
theorem erase_root {α : Type} {read : Pattern α} (angle : ∀ c text, c ≠ '<' → read (c :: text) = none) {name behind : Text}
    (root : IsRootName name behind) (unread : read ('<' :: (name ++ behind)) = none) :
    ∃ later, Pattern.erase read ('<' :: (name ++ behind)) = '<' :: (name ++ later) ∧ IsRootName name later := by
  obtain ⟨c, rest, rfl, -⟩ := exists_of_nameEnds root.ends
  have free : ∀ d ∈ name ++ [c], d ≠ '<' := by
    obtain ⟨first, others, rfl, letter, parts⟩ := root.begins
    have ends := root.ends
    intro d member
    simp only [List.mem_append, List.mem_cons, List.not_mem_nil, or_false] at member
    rintro rfl
    rcases member with (rfl | member) | rfl
    · exact absurd letter (by decide)
    · exact absurd (parts _ member) (by decide)
    · exact absurd ends (Bool.eq_false_iff.1 (by rw [Tag.nameEnds]; rfl))
  have passes : Pattern.Passes read ('<' :: (name ++ [c])) rest := by
    refine Pattern.passes_cons_iff.2 ⟨by simpa using unread, ?_⟩
    exact Pattern.passes_of_begins rest fun d member text => angle d text (free d member)
  have whole : '<' :: (name ++ c :: rest) = '<' :: (name ++ [c]) ++ rest := by simp
  refine ⟨c :: Pattern.erase read rest, ?_, root.begins, ?_, root.element⟩
  · rw [whole, Pattern.erase, Pattern.replace_append passes]
    simp [Pattern.erase]
  · exact root.ends

end RootElement

theorem Text.trimRight_prefix (text : Text) : Text.trimRight text <+: text := by
  have whole := List.reverse_prefix.2 (List.dropWhile_suffix (l := text.reverse) isBlank)
  rwa [List.reverse_reverse] at whole

namespace RootElement

/-- The name of a tag is read in front of anything that ends it, and at the end of a text. -/
theorem openingName_trimRight {name behind : Text} (root : IsRootName name behind) :
    ∃ later, openingName ('<' :: Text.trimRight (name ++ behind)) = some (name, later) := by
  have solid : ∀ d ∈ name, isBlank d = false := by
    obtain ⟨first, others, rfl, letter, parts⟩ := root.begins
    intro d member
    rcases List.mem_cons.1 member with rfl | later
    · exact isBlank_of_isAlpha letter
    · by_contra blank
      have none := isSlugPart_of_isBlank (Bool.eq_true_of_not_eq_false blank)
      rw [parts d later] at none
      cases none
  have ended : Text.trimRight name = name := by
    rcases List.eq_nil_or_concat' name with rfl | ⟨front, last, rfl⟩
    · rfl
    · exact Text.trimRight_concat_of_not_blank (solid last (by simp)) front
  rw [Text.trimRight_append_of_ended ended]
  cases kept : Text.trimRight behind with
  | nil =>
    obtain ⟨first, others, rfl, letter, parts⟩ := root.begins
    refine ⟨[], ?_⟩
    rw [List.append_nil]
    change (if first.isAlpha = true then some (first :: others.takeWhile isSlugPart, others.dropWhile isSlugPart) else none) = _
    rw [if_pos letter, List.takeWhile_eq_self_iff.2 parts, List.dropWhile_eq_nil_iff.2 parts]
  | cons c more =>
    have ends : Tag.nameEnds (c :: more) = true := by
      obtain ⟨later, whole⟩ := Text.trimRight_prefix behind
      have ends := root.ends
      rw [← whole, kept] at ends
      exact ends
    exact ⟨_, openingName_append root.begins ends⟩

/-- The root is the element that is recognised without comments and scripts. -/
theorem openingName_bare {front : Front} (sound : front.IsSound) (scripts : Scripts front.uncommented) {name behind : Text}
    (root : IsRootName name behind) :
    ∃ later, openingName (bare (front.print ++ '<' :: (name ++ behind))) = some (name, later) := by
  obtain ⟨first, kept, rootFirst⟩ := erase_root (fun c text other => comment_of_ne other text) root (comment_root root)
  obtain ⟨second, left, rootSecond⟩ := erase_root (fun c text other => named_of_ne other "script" text) rootFirst
    (named_root rootFirst)
  obtain ⟨space, blank, erased⟩ := scripts.erase ('<' :: (name ++ first))
  rw [bare, erase_comment_front sound, kept, erased, left, Text.trim_append_left blank, Stylesheet.trim_cons (by decide)]
  exact openingName_trimRight rootSecond

end RootElement

end ComponentPages
