import ComponentPages.Proofs.Fetch.Token
import ComponentPages.Proofs.Markup.Unclosed

/-!
Texts in which some stretches are exchanged for others. If the stretches hold no angle bracket, and begin with a character
that goes on no name and with which no component begins, then blocks and tags are where they were: what is read off the
front of the one text is read off the front of the other. So a place is out of reach in the one text if and only if it is
in the other.
-/
namespace ComponentPages

/-- A character that no tag is read with, and that ends every name. -/
structure IsSeam (c : Char) : Prop where
  angle : isAngle c = false
  word : isWord c = false
  upper : isUpper c = false
  blank : isBlank c = false
  sign : c ≠ '/'
  letters : ∀ letter ∈ blockLetters, matchesLetter letter c = false

/-- A stretch that may be exchanged for another. -/
structure Patch where
  first : Char
  rest : Text
  seam : IsSeam first
  free : ∀ c ∈ rest, isAngle c = false

namespace Patch

def text (patch : Patch) : Text := patch.first :: patch.rest

theorem angle_free (patch : Patch) : ∀ c ∈ patch.text, isAngle c = false :=
  List.forall_mem_cons.2 ⟨patch.seam.angle, patch.free⟩

theorem ne_of_mem (patch : Patch) {c : Char} (member : c ∈ patch.text) : c ≠ '<' ∧ c ≠ '>' := by
  have angle := patch.angle_free c member
  simpa [isAngle] using angle

end Patch

/-- A character that is kept, or a stretch that is exchanged for another. -/
inductive Stitch where
  | keep (c : Char)
  | swap (old new : Patch)

theorem Text.cut?_append_of_free {stop : Char} {piece : Text} (free : ∀ c ∈ piece, c ≠ stop) (rest : Text) :
    cut? stop (piece ++ rest) = (cut? stop rest).map fun (before, after) => (piece ++ before, after) := by
  induction piece with
  | nil =>
    rw [List.nil_append]
    cases cut? stop rest <;> rfl
  | cons c piece ih =>
    obtain ⟨here, later⟩ := List.forall_mem_cons.1 free
    rw [List.cons_append, cut?, if_neg here, ih later, Option.map_map]
    rfl

namespace Stitch

def old : Stitch → Text
  | .keep c => [c]
  | .swap old _ => old.text

def new : Stitch → Text
  | .keep c => [c]
  | .swap _ new => new.text

def flip : Stitch → Stitch
  | .keep c => .keep c
  | .swap old new => .swap new old

/-- The text before the exchange. -/
def olds (stitches : List Stitch) : Text := stitches.flatMap old

/-- The text after the exchange. -/
def news (stitches : List Stitch) : Text := stitches.flatMap new

section Cons

variable (stitches : List Stitch)

theorem olds_cons (stitch : Stitch) : olds (stitch :: stitches) = stitch.old ++ olds stitches := List.flatMap_cons

theorem news_cons (stitch : Stitch) : news (stitch :: stitches) = stitch.new ++ news stitches := List.flatMap_cons

theorem olds_keep (c : Char) : olds (.keep c :: stitches) = c :: olds stitches := rfl

theorem news_keep (c : Char) : news (.keep c :: stitches) = c :: news stitches := rfl

theorem olds_swap (old new : Patch) : olds (.swap old new :: stitches) = old.text ++ olds stitches := rfl

theorem news_swap (old new : Patch) : news (.swap old new :: stitches) = new.text ++ news stitches := rfl

end Cons

theorem olds_append (first second : List Stitch) : olds (first ++ second) = olds first ++ olds second :=
  List.flatMap_append

theorem news_append (first second : List Stitch) : news (first ++ second) = news first ++ news second :=
  List.flatMap_append

theorem olds_flip (stitches : List Stitch) : olds (stitches.map flip) = news stitches := by
  rw [olds, news, List.flatMap_map]
  exact List.flatMap_congr fun stitch _ => by cases stitch <;> rfl

theorem news_flip (stitches : List Stitch) : news (stitches.map flip) = olds stitches := by
  rw [olds, news, List.flatMap_map]
  exact List.flatMap_congr fun stitch _ => by cases stitch <;> rfl

theorem old_ne_nil (stitch : Stitch) : stitch.old ≠ [] := by
  cases stitch <;> exact List.cons_ne_nil _ _

theorem olds_ne_nil {stitches : List Stitch} (some : stitches ≠ []) : olds stitches ≠ [] := by
  obtain ⟨stitch, stitches, rfl⟩ := List.exists_cons_of_ne_nil some
  exact List.append_ne_nil_of_left_ne_nil stitch.old_ne_nil _

theorem news_ne_nil {stitches : List Stitch} (some : stitches ≠ []) : news stitches ≠ [] := by
  rw [← olds_flip]
  exact olds_ne_nil fun nothing => some (List.map_eq_nil_iff.1 nothing)

/-! ### Readers -/

/-- What a reader takes off the one text it takes off the other. -/
def Follows {α : Type} (read : Pattern α) : Prop :=
  ∀ stitches value rest, read (olds stitches) = some (value, rest) →
    ∃ behind, behind <:+ stitches ∧ rest = olds behind ∧ read (news stitches) = some (value, news behind)

/-- The same of a reader of a name. -/
def FollowsName (readName : Text → Option Text) : Prop :=
  ∀ stitches rest, readName (olds stitches) = some rest →
    ∃ behind, behind <:+ stitches ∧ rest = olds behind ∧ readName (news stitches) = some (news behind)

/-- What a reader does not find in the one text it does not find in the other. -/
theorem Follows.eq_none {α : Type} {read : Pattern α} (follows : Follows read) {stitches : List Stitch}
    (nothing : read (olds stitches) = none) : read (news stitches) = none := by
  cases found : read (news stitches) with
  | none => rfl
  | some result =>
    rw [← olds_flip] at found
    obtain ⟨behind, -, -, back⟩ := follows _ result.1 result.2 found
    rw [news_flip, nothing] at back
    cases back

/-- A beginning without a seam is kept. -/
theorem exists_of_olds {stitches : List Stitch} {front rest : Text} (seamless : ∀ c ∈ front, ¬IsSeam c)
    (whole : olds stitches = front ++ rest) :
    ∃ behind, behind <:+ stitches ∧ rest = olds behind ∧ news stitches = front ++ news behind := by
  induction front generalizing stitches with
  | nil => exact ⟨stitches, List.suffix_rfl, whole.symm, rfl⟩
  | cons c front ih =>
    cases stitches with
    | nil => cases whole
    | cons stitch stitches =>
      cases stitch with
      | swap old new =>
        obtain ⟨rfl, -⟩ := List.cons.inj whole
        exact absurd old.seam (seamless _ List.mem_cons_self)
      | keep d =>
        obtain ⟨rfl, later⟩ := List.cons.inj whole
        obtain ⟨behind, suffix, same, kept⟩ := ih (fun e member => seamless e (List.mem_cons_of_mem d member)) later
        exact ⟨behind, suffix.trans (List.suffix_cons _ _), same, by rw [news_keep, kept, List.cons_append]⟩

theorem followsName_after? {word : Text} (seamless : ∀ c ∈ word, ¬IsSeam c) : FollowsName (Text.after? word) := by
  intro stitches rest found
  obtain ⟨behind, suffix, same, kept⟩ := exists_of_olds seamless (Text.eq_of_after? found)
  exact ⟨behind, suffix, same, by rw [kept, Text.after?_append]⟩

theorem trimLeft_olds (stitches : List Stitch) :
    ∃ behind, behind <:+ stitches ∧ Text.trimLeft (olds stitches) = olds behind ∧
      Text.trimLeft (news stitches) = news behind := by
  induction stitches with
  | nil => exact ⟨[], List.suffix_rfl, rfl, rfl⟩
  | cons stitch stitches ih =>
    cases stitch with
    | keep c =>
      cases blank : isBlank c with
      | true =>
        obtain ⟨behind, suffix, old, new⟩ := ih
        have space : IsSpace [c] := List.forall_mem_singleton.2 blank
        refine ⟨behind, suffix.trans (List.suffix_cons _ _), ?_, ?_⟩
        · rw [← old]
          exact Text.trimLeft_append_of_space space _
        · rw [← new]
          exact Text.trimLeft_append_of_space space _
      | false => exact ⟨_, List.suffix_rfl, Text.trimLeft_cons_of_not_blank blank _, Text.trimLeft_cons_of_not_blank blank _⟩
    | swap old new =>
      exact ⟨_, List.suffix_rfl, Text.trimLeft_cons_of_not_blank old.seam.blank _,
        Text.trimLeft_cons_of_not_blank new.seam.blank _⟩

theorem any_head?_news {class_ : Char → Bool} (foreign : ∀ c, IsSeam c → class_ c = false) (stitches : List Stitch) :
    (news stitches).head?.any class_ = (olds stitches).head?.any class_ := by
  cases stitches with
  | nil => rfl
  | cons stitch stitches =>
    cases stitch with
    | keep c => rfl
    | swap old new => exact (foreign _ new.seam).trans (foreign _ old.seam).symm

/-- The end of a tag is no part of a stretch that is exchanged. -/
theorem cut?_olds {stitches : List Stitch} {before rest : Text} (found : Text.cut? '>' (olds stitches) = some (before, rest)) :
    ∃ behind kept, behind <:+ stitches ∧ rest = olds behind ∧ Text.cut? '>' (news stitches) = some (kept, news behind) := by
  induction stitches generalizing before with
  | nil => cases found
  | cons stitch stitches ih =>
    have skip (patch : Patch) (text : Text) : Text.cut? '>' (patch.text ++ text) =
        (Text.cut? '>' text).map fun (before, rest) => (patch.text ++ before, rest) :=
      Text.cut?_append_of_free (fun c member => (patch.ne_of_mem member).2) text
    cases stitch with
    | keep c =>
      by_cases ends : c = '>'
      · subst ends
        cases found
        exact ⟨stitches, [], List.suffix_cons _ _, rfl, rfl⟩
      · have skipped (text : Text) : Text.cut? '>' (c :: text) =
            (Text.cut? '>' text).map fun (before, rest) => (c :: before, rest) := if_neg ends
        rw [olds_keep, skipped] at found
        obtain ⟨⟨first, later⟩, cut, same⟩ := Option.map_eq_some_iff.1 found
        cases same
        obtain ⟨behind, kept, suffix, whole, again⟩ := ih cut
        refine ⟨behind, c :: kept, suffix.trans (List.suffix_cons _ _), whole, ?_⟩
        rw [news_keep, skipped, again]
        rfl
    | swap old new =>
      rw [olds_swap, skip] at found
      obtain ⟨⟨first, later⟩, cut, same⟩ := Option.map_eq_some_iff.1 found
      cases same
      obtain ⟨behind, kept, suffix, whole, again⟩ := ih cut
      refine ⟨behind, new.text ++ kept, suffix.trans (List.suffix_cons _ _), whole, ?_⟩
      rw [news_swap, skip, again]
      rfl

/-! ### Blocks -/

/-- A name of a block holds no seam. -/
theorem seamless_of_matches {word written : Text} (listed : ∀ letter ∈ word, letter ∈ blockLetters)
    (letters : List.Forall₂ (fun letter c => matchesLetter letter c = true) word written) : ∀ c ∈ written, ¬IsSeam c := by
  intro c member seam
  obtain ⟨letter, inWord, matches_⟩ := Block.exists_of_matches letters member
  rw [seam.letters letter (listed letter inWord)] at matches_
  cases matches_

theorem seamless_angle : ∀ c ∈ ("<" : Text), ¬IsSeam c := by
  rintro c member seam
  obtain rfl : c = '<' := by simpa using member
  exact absurd seam.angle (by decide)

theorem seamless_closing : ∀ c ∈ ("</" : Text), ¬IsSeam c := by
  rintro c member seam
  obtain rfl | rfl : c = '<' ∨ c = '/' := by simpa using member
  · exact absurd seam.angle (by decide)
  · exact seam.sign rfl

theorem seamless_end : ∀ c ∈ (">" : Text), ¬IsSeam c := by
  rintro c member seam
  obtain rfl : c = '>' := by simpa using member
  exact absurd seam.angle (by decide)

theorem follows_opening? {word : Text} (listed : ∀ letter ∈ word, letter ∈ blockLetters) : Follows (Block.opening? word) := by
  intro stitches name contents found
  simp only [Block.opening?, bind, Option.bind_eq_some_iff] at found
  obtain ⟨named, opened, head, read, ending⟩ := found
  split at ending
  · cases ending
  next boundary =>
  obtain ⟨⟨inside, after⟩, cut, same⟩ := Option.bind_eq_some_iff.1 ending
  cases same
  obtain ⟨tagged, first, rfl, openedNew⟩ := followsName_after? seamless_angle stitches named opened
  obtain ⟨written, whole, letters⟩ := Text.eq_of_afterFolded? read
  obtain ⟨headed, second, rfl, kept⟩ := exists_of_olds (seamless_of_matches listed letters) whole
  obtain ⟨behind, insideNew, third, rfl, cutNew⟩ := cut?_olds cut
  refine ⟨behind, third.trans (second.trans first), rfl, ?_⟩
  have readNew : Text.afterFolded? word (news tagged) = some (news headed) := by
    rw [kept, Text.afterFolded?_append letters]
  have taken : (news tagged).take word.length = (olds tagged).take word.length := by
    rw [kept, whole, letters.length_eq, List.take_left, List.take_left]
  rw [← any_head?_news (fun c seam => seam.word)] at boundary
  rw [Block.opening?, openedNew, Option.bind_eq_bind, Option.bind_some, readNew, Option.bind_some, if_neg boundary, cutNew,
    taken]
  rfl

theorem sameName?_append {name written : Text} (same : written.map lowerChar = name.map lowerChar) (rest : Text) :
    Block.sameName? name (written ++ rest) = some rest := by
  induction name generalizing written with
  | nil =>
    obtain rfl := List.map_eq_nil_iff.1 same
    rfl
  | cons c name ih =>
    obtain ⟨d, written, rfl⟩ : ∃ d later, written = d :: later := by
      cases written with
      | nil => cases same
      | cons d written => exact ⟨d, written, rfl⟩
    obtain ⟨here, later⟩ := List.cons.inj same
    rw [List.cons_append, Block.sameName?, if_pos here.symm]
    exact ih later

theorem followsName_sameName? {word name : Text} (listed : ∀ letter ∈ word, letter ∈ blockLetters)
    (letters : List.Forall₂ (fun letter c => matchesLetter letter c = true) word name) :
    FollowsName (Block.sameName? name) := by
  intro stitches rest found
  obtain ⟨written, whole, same⟩ := Block.eq_of_sameName? found
  obtain ⟨front, again, others⟩ := Text.eq_of_afterFolded? (Block.afterFolded?_of_sameName? listed letters found)
  obtain rfl : front = written := List.append_cancel_right (again.symm.trans whole)
  obtain ⟨behind, suffix, rfl, kept⟩ := exists_of_olds (seamless_of_matches listed others) whole
  exact ⟨behind, suffix, rfl, by rw [kept, sameName?_append same]⟩

theorem follows_closing? {readName : Text → Option Text} (follows : FollowsName readName) :
    Follows (Block.closing? readName) := by
  intro stitches value rest found
  simp only [Block.closing?, bind, Option.bind_eq_some_iff] at found
  obtain ⟨named, slash, head, read, after, ends, same⟩ := found
  cases same
  obtain ⟨tagged, first, rfl, slashNew⟩ := followsName_after? seamless_closing stitches named slash
  obtain ⟨headed, second, rfl, readNew⟩ := follows tagged head read
  obtain ⟨trimmed, third, old, new⟩ := trimLeft_olds headed
  rw [old] at ends
  obtain ⟨behind, fourth, rfl, endsNew⟩ := followsName_after? seamless_end trimmed rest ends
  refine ⟨behind, fourth.trans (third.trans (second.trans first)), rfl, ?_⟩
  rw [Block.closing?, slashNew, Option.bind_eq_bind, Option.bind_some, readNew, Option.bind_some, new, endsNew]
  rfl

/-- A search passes over the stretches that are exchanged. -/
theorem Follows.seek? {α : Type} {read : Pattern α} (follows : Follows read)
    (angle : ∀ c text, c ≠ '<' → read (c :: text) = none) {stitches : List Stitch} {value : α} {before rest : Text}
    (sought : Pattern.seek? read (olds stitches) = some (before, value, rest)) :
    ∃ behind kept, behind <:+ stitches ∧ rest = olds behind ∧
      Pattern.seek? read (news stitches) = some (kept, value, news behind) := by
  induction stitches generalizing before with
  | nil => cases sought
  | cons stitch stitches ih =>
    have passes (patch : Patch) (text : Text) : Pattern.Passes read patch.text text :=
      Pattern.passes_of_begins text fun c member more => angle c more (patch.ne_of_mem member).1
    cases stitch with
    | keep c =>
      cases here : read (olds (keep c :: stitches)) with
      | some result =>
        obtain ⟨behind, suffix, whole, again⟩ := follows _ result.1 result.2 here
        rw [olds_keep] at here sought
        rw [Pattern.seek?, here] at sought
        cases sought
        rw [news_keep] at again
        exact ⟨behind, [], suffix, whole, by rw [news_keep, Pattern.seek?, again]⟩
      | none =>
        have nothing := follows.eq_none here
        rw [olds_keep] at here sought
        rw [Pattern.seek?, here] at sought
        obtain ⟨⟨first, _, _⟩, later, same⟩ := Option.map_eq_some_iff.1 sought
        cases same
        obtain ⟨behind, kept, suffix, whole, again⟩ := ih later
        refine ⟨behind, c :: kept, suffix.trans (List.suffix_cons _ _), whole, ?_⟩
        rw [news_keep] at nothing ⊢
        rw [Pattern.seek?, nothing, again]
        rfl
    | swap old new =>
      rw [olds_swap, Pattern.seek?_append (passes old _)] at sought
      obtain ⟨⟨first, _, _⟩, later, same⟩ := Option.map_eq_some_iff.1 sought
      cases same
      obtain ⟨behind, kept, suffix, whole, again⟩ := ih later
      refine ⟨behind, new.text ++ kept, suffix.trans (List.suffix_cons _ _), whole, ?_⟩
      rw [news_swap, Pattern.seek?_append (passes new _), again]
      rfl

theorem follows_guarded : Follows Block.guarded := by
  intro stitches value rest found
  simp only [Block.guarded, bind, Option.bind_eq_some_iff] at found
  obtain ⟨⟨name, contents⟩, opens, ⟨before, _, after⟩, closes, same⟩ := found
  cases same
  obtain ⟨word, listed, letters, opened⟩ : ∃ word : Text, (∀ letter ∈ word, letter ∈ blockLetters) ∧
      List.Forall₂ (fun letter c => matchesLetter letter c = true) word name ∧
      ∃ behind, behind <:+ stitches ∧ contents = olds behind ∧
        (Block.opening? "script" (news stitches)).or (Block.opening? "style" (news stitches)) = some (name, news behind) := by
    have script := @follows_opening? "script" (by decide)
    have style := @follows_opening? "style" (by decide)
    rcases Option.or_eq_some_iff.1 opens with found | ⟨nothing, found⟩
    · obtain ⟨behind, suffix, whole, again⟩ := script stitches name contents found
      exact ⟨"script", by decide, (Block.exists_of_opening? found).1, behind, suffix, whole, by rw [again, Option.some_or]⟩
    · obtain ⟨behind, suffix, whole, again⟩ := style stitches name contents found
      exact ⟨"style", by decide, (Block.exists_of_opening? found).1, behind, suffix, whole, by
        rw [script.eq_none nothing, again, Option.none_or]⟩
  obtain ⟨tagged, first, rfl, openedNew⟩ := opened
  have follows := follows_closing? (followsName_sameName? listed letters)
  obtain ⟨behind, kept, second, whole, closesNew⟩ := follows.seek? (Block.closing?_of_ne _) closes
  refine ⟨behind, second.trans first, whole, ?_⟩
  rw [Block.guarded, openedNew, Option.bind_eq_bind, Option.bind_some]
  dsimp only
  rw [closesNew]
  rfl

theorem length_of_guarded {text rest : Text} {value : Unit} (found : Block.guarded text = some (value, rest)) :
    rest.length < text.length := by
  simp only [Block.guarded, bind, Option.bind_eq_some_iff] at found
  obtain ⟨⟨name, contents⟩, opens, ⟨before, _, after⟩, closes, same⟩ := found
  cases same
  have inside : contents <:+ text := by
    rcases Option.or_eq_some_iff.1 opens with found | ⟨-, found⟩
    · exact (Block.exists_of_opening? found).2
    · exact (Block.exists_of_opening? found).2
  obtain ⟨front, whole, closing⟩ := Pattern.exists_of_seek? closes
  simp only [Block.closing?, bind, Option.bind_eq_some_iff] at closing
  obtain ⟨named, slash, head, read, tail, ends, same⟩ := closing
  cases same
  have first := inside.length_le
  have second := congrArg List.length whole
  have third := Text.length_of_after? slash
  have fourth : head.length ≤ named.length := by
    obtain ⟨written, split, -⟩ := Block.eq_of_sameName? read
    rw [split, List.length_append]
    exact Nat.le_add_left _ _
  have fifth := Text.length_trimLeft_le head
  have sixth := Text.length_of_after? ends
  simp only [List.length_append] at second
  have sign : ("</" : Text).length = 2 := rfl
  change after.length < text.length
  omega

/-- A block stands in front of both texts or of none, and takes the same stitches off them. -/
theorem exists_of_guarded {stitches : List Stitch} {rest : Text} {value : Unit}
    (found : Block.guarded (olds stitches) = some (value, rest)) :
    ∃ block behind, block ≠ [] ∧ stitches = block ++ behind ∧
      Block.guarded (olds block ++ olds behind) = some ((), olds behind) ∧
      Block.guarded (news block ++ news behind) = some ((), news behind) := by
  obtain ⟨behind, ⟨block, rfl⟩, rfl, again⟩ := follows_guarded _ _ _ found
  have shorter := length_of_guarded found
  rw [olds_append] at found shorter
  rw [news_append] at again
  refine ⟨block, behind, ?_, rfl, found, again⟩
  rintro rfl
  exact absurd shorter (Nat.lt_irrefl _)

/-! ### Places -/

theorem uncovered_of_lt {offset place : Nat} (before : place < offset) (html : Text) :
    covered (Fetch.blocksFrom offset html) place = false := by
  rw [covered, List.any_eq_false]
  intro span member
  obtain ⟨⟨start, segment⟩, located, made⟩ := List.mem_filterMap.1 member
  cases segment with
  | plain c => cases made
  | hit source value =>
    cases made
    have behind := (Pattern.read_of_mem_located located).1
    simp only [Span.covers, Bool.and_eq_true, decide_eq_true_eq, not_and_or]
    exact .inl (by omega)

theorem passes_guarded (patch : Patch) (text : Text) : Pattern.Passes Block.guarded patch.text text :=
  Pattern.passes_of_begins text fun c member more => by
    have other := (patch.ne_of_mem member).1
    rw [Block.guarded, Block.opening?_of_ne _ c more other, Block.opening?_of_ne _ c more other]
    rfl

theorem covered_hit {piece rest : Text} (nonempty : piece ≠ []) (taken : Block.guarded (piece ++ rest) = some ((), rest))
    (offset place : Nat) : covered (Fetch.blocksFrom offset (piece ++ rest)) (offset + place) =
      (decide (place < piece.length) || covered (Fetch.blocksFrom (offset + piece.length) rest) (offset + place)) := by
  have within : Span.covers ⟨offset, offset + piece.length⟩ (offset + place) = decide (place < piece.length) := by
    simp [Span.covers]
  rw [Fetch.blocksFrom_hit nonempty taken, covered, List.any_cons, within]
  rfl

theorem uncovered_of_none {html : Text} (nothing : Block.guarded html = none) (offset : Nat) :
    covered (Fetch.blocksFrom offset html) offset = false := by
  cases html with
  | nil =>
    rw [Fetch.blocksFrom, Pattern.segments]
    rfl
  | cons c html =>
    have passes : Pattern.Passes Block.guarded [c] html := Pattern.passes_cons_iff.2 ⟨nothing, Pattern.passes_nil _ _⟩
    rw [← List.singleton_append, Fetch.blocksFrom_append passes]
    exact uncovered_of_lt (Nat.lt_succ_self offset) html

/-- A place between stitches is in a block of the one text if and only if it is in a block of the other. -/
theorem covered_news (front rest : List Stitch) (start offset : Nat) :
    covered (Fetch.blocksFrom start (news (front ++ rest))) (start + (news front).length) =
      covered (Fetch.blocksFrom offset (olds (front ++ rest))) (offset + (olds front).length) := by
  induction size : front.length using Nat.strong_induction_on generalizing front start offset with
  | _ size' ih =>
    subst size
    cases found : Block.guarded (olds (front ++ rest)) with
    | some result =>
      obtain ⟨block, behind, nonempty, whole, old, new⟩ := exists_of_guarded found
      rw [whole, olds_append, news_append, covered_hit (olds_ne_nil nonempty) old, covered_hit (news_ne_nil nonempty) new]
      -- The place is behind the block, or it is in it.
      have later {gap : List Stitch} (longer : front = block ++ gap) (remains : behind = gap ++ rest) :
          (decide ((news front).length < (news block).length) ||
            covered (Fetch.blocksFrom (start + (news block).length) (news behind)) (start + (news front).length)) =
          (decide ((olds front).length < (olds block).length) ||
            covered (Fetch.blocksFrom (offset + (olds block).length) (olds behind)) (offset + (olds front).length)) := by
        subst longer remains
        have shorter : gap.length < (block ++ gap).length := by
          have positive := List.length_pos_iff.2 nonempty
          rw [List.length_append]
          omega
        have same := ih gap.length shorter gap (start + (news block).length) (offset + (olds block).length) rfl
        rw [olds_append, news_append, List.length_append, List.length_append, decide_eq_false (by omega),
          decide_eq_false (by omega), Bool.false_or, Bool.false_or, ← Nat.add_assoc, ← Nat.add_assoc]
        exact same
      rcases List.append_eq_append_iff.1 whole with ⟨gap, longer, remains⟩ | ⟨gap, longer, remains⟩
      · cases gap with
        | nil => exact @later [] (by rw [longer, List.append_nil, List.append_nil]) remains.symm
        | cons stitch gap =>
          have inOld := List.length_pos_iff.2 (olds_ne_nil (List.cons_ne_nil stitch gap))
          have inNew := List.length_pos_iff.2 (news_ne_nil (List.cons_ne_nil stitch gap))
          rw [longer, olds_append, news_append, List.length_append, List.length_append, decide_eq_true (by omega),
            decide_eq_true (by omega), Bool.true_or, Bool.true_or]
      · exact later longer remains
    | none =>
      have nothing := follows_guarded.eq_none found
      cases front with
      | nil => exact (uncovered_of_none nothing start).trans (uncovered_of_none found offset).symm
      | cons stitch front =>
        have later := ih front.length (Nat.lt_succ_self _) front (start + stitch.new.length) (offset + stitch.old.length) rfl
        have passes : Pattern.Passes Block.guarded stitch.old (olds (front ++ rest)) ∧
            Pattern.Passes Block.guarded stitch.new (news (front ++ rest)) := by
          cases stitch with
          | keep c =>
            exact ⟨Pattern.passes_cons_iff.2 ⟨found, Pattern.passes_nil _ _⟩,
              Pattern.passes_cons_iff.2 ⟨nothing, Pattern.passes_nil _ _⟩⟩
          | swap old new => exact ⟨passes_guarded old _, passes_guarded new _⟩
        rw [List.cons_append, olds_cons, news_cons, olds_cons, news_cons, Fetch.blocksFrom_append passes.1,
          Fetch.blocksFrom_append passes.2, List.length_append, List.length_append, ← Nat.add_assoc, ← Nat.add_assoc]
        exact later

/-- The nearest angle bracket before a place between stitches opens the same tag in both texts. -/
theorem opensTag_news (front : List Stitch) {following next : Option Char} (same : next.any isUpper = following.any isUpper) :
    opensTag isUpper next (news front).reverse = opensTag isUpper following (olds front).reverse := by
  induction front using List.reverseRecOn generalizing following next with
  | nil => rfl
  | append_singleton front stitch ih =>
    cases stitch with
    | keep c =>
      have old : (olds (front ++ [keep c])).reverse = c :: (olds front).reverse := by simp [olds, Stitch.old]
      have new : (news (front ++ [keep c])).reverse = c :: (news front).reverse := by simp [news, Stitch.new]
      rw [old, new, opensTag, opensTag, same, ih rfl]
    | swap old new =>
      have first : (olds (front ++ [swap old new])).reverse = old.text.reverse ++ (olds front).reverse := by
        simp [olds, Stitch.old]
      have second : (news (front ++ [swap old new])).reverse = new.text.reverse ++ (news front).reverse := by
        simp [news, Stitch.new]
      rw [first, second, opensTag_append old.angle_free, opensTag_append new.angle_free]
      exact ih (new.seam.upper.trans old.seam.upper.symm)

/-- A place between stitches is out of reach in the one text if and only if it is in the other. -/
theorem frozen_news (front rest : List Stitch) :
    Placeholder.frozen (Block.spans (news (front ++ rest))) (news (front ++ rest)) (news front).length =
      Placeholder.frozen (Block.spans (olds (front ++ rest))) (olds (front ++ rest)) (olds front).length := by
  have blocks := covered_news front rest 0 0
  rw [Nat.zero_add, Nat.zero_add] at blocks
  have next (first second : Text) : (first ++ second)[first.length]? = second.head? := by
    rw [List.getElem?_append_right (Nat.le_refl _), Nat.sub_self, List.head?_eq_getElem?]
  have tags : insideComponentTag (news (front ++ rest)) (news front).length =
      insideComponentTag (olds (front ++ rest)) (olds front).length := by
    rw [insideComponentTag, insideComponentTag, olds_append, news_append, List.take_left, List.take_left, next, next]
    exact opensTag_news front (any_head?_news (fun c seam => seam.upper) rest)
  rw [Placeholder.frozen, Placeholder.frozen, tags]
  exact congrArg (· || _) blocks

end Stitch

end ComponentPages
