import ComponentPages.Proofs.Pattern
import ComponentPages.Proofs.Text
import ComponentPages.Signal

/-!
Texts whose markers of signals are whole and name signals that are known. Such a text may be cut before any character
that is in no marker, and what stands before any place may be dropped. So markers stay whole when a pass cuts a text at
brackets, quotes and blanks, joins the pieces, and writes stretches anew that begin outside a marker.
-/
namespace ComponentPages

namespace Signal

/-- Whether a character is in no marker. -/
def isBorder (c : Char) : Bool := c != markerOpen && c != markerClose && !isIdentifierPart c

/-- The rest of a marker: a name that is known, and the end. -/
def Named (known : Text → Prop) (text : Text) : Prop :=
  ∃ name after, Text.isIdentifier name = true ∧ known name ∧ text = name ++ markerClose :: after

/-- Where a marker begins, it is there as a whole and its name is known. -/
def Marked (known : Text → Prop) : Text → Prop
  | [] => True
  | c :: rest => (c = markerOpen → Named known rest) ∧ Marked known rest

theorem isBorder_iff {c : Char} :
    isBorder c = true ↔ c ≠ markerOpen ∧ c ≠ markerClose ∧ isIdentifierPart c = false := by
  simp [isBorder, and_assoc]

theorem isBorder_of_isBlank {c : Char} (blank : isBlank c = true) : isBorder c = true := by
  refine isBorder_iff.2 ⟨?_, ?_, ?_⟩
  · rintro rfl
    exact absurd blank (by decide)
  · rintro rfl
    exact absurd blank (by decide)
  · by_contra part
    rw [isBlank_of_isIdentifierPart (Bool.eq_true_of_not_eq_false part)] at blank
    cases blank

theorem isBorder_of_isQuote {c : Char} (quotes : isQuote c = true) : isBorder c = true := by
  rcases isQuote_iff.1 quotes with rfl | rfl <;> decide

section Cutting

variable {known more : Text → Prop} {text front rest first second : Text} {c : Char}

theorem Named.mono (named : Named known text) (learns : ∀ name, known name → more name) : Named more text := by
  obtain ⟨name, after, identifier, knows, whole⟩ := named
  exact ⟨name, after, identifier, learns name knows, whole⟩

theorem Named.append (named : Named known text) (rest : Text) : Named known (text ++ rest) := by
  obtain ⟨name, after, identifier, knows, rfl⟩ := named
  exact ⟨name, after ++ rest, identifier, knows, by rw [List.append_assoc, List.cons_append]⟩

/-- A marker that has begun before a border has ended there as well. -/
theorem Named.before (named : Named known (front ++ c :: rest)) (border : isBorder c = true) : Named known front := by
  obtain ⟨-, notClose, foreign⟩ := isBorder_iff.1 border
  obtain ⟨name, after, identifier, knows, whole⟩ := named
  have outside : c ∉ name := by
    intro member
    rw [(isIdentifierPart_of_isIdentifier identifier).2 c member] at foreign
    cases foreign
  rcases List.append_eq_append_iff.1 whole with ⟨gap, longer, remains⟩ | ⟨gap, longer, remains⟩
  · cases gap with
    | nil => exact absurd (List.cons.inj remains).1 notClose
    | cons d gap =>
      rw [(List.cons.inj remains).1] at outside
      exact absurd (longer ▸ List.mem_append_right front List.mem_cons_self) outside
  · cases gap with
    | nil => exact absurd (List.cons.inj remains).1.symm notClose
    | cons d gap =>
      obtain ⟨rfl, -⟩ := List.cons.inj remains
      exact ⟨name, gap, identifier, knows, longer⟩

theorem marked_of_not_mem (absent : markerOpen ∉ text) : Marked known text := by
  induction text with
  | nil => trivial
  | cons c text ih =>
    rw [List.mem_cons, not_or] at absent
    exact ⟨fun begins => absurd begins.symm absent.1, ih absent.2⟩

theorem Marked.mono (marked : Marked known text) (learns : ∀ name, known name → more name) : Marked more text := by
  induction text with
  | nil => trivial
  | cons c text ih => exact ⟨fun begins => (marked.1 begins).mono learns, ih marked.2⟩

theorem Marked.append (marked : Marked known first) (later : Marked known second) : Marked known (first ++ second) := by
  induction first with
  | nil => exact later
  | cons c first ih => exact ⟨fun begins => (marked.1 begins).append second, ih marked.2⟩

theorem Marked.behind (marked : Marked known (front ++ rest)) : Marked known rest := by
  induction front with
  | nil => exact marked
  | cons c front ih => exact ih marked.2

theorem Marked.before (marked : Marked known (front ++ c :: rest)) (border : isBorder c = true) : Marked known front := by
  induction front with
  | nil => trivial
  | cons d front ih => exact ⟨fun begins => (marked.1 begins).before border, ih marked.2⟩

theorem Marked.suffix (marked : Marked known text) (suffix : rest <:+ text) : Marked known rest := by
  obtain ⟨front, rfl⟩ := suffix
  exact marked.behind

theorem Marked.drop (marked : Marked known text) (offset : Nat) : Marked known (text.drop offset) :=
  marked.suffix (List.drop_suffix offset text)

theorem marked_singleton (border : isBorder c = true) : Marked known [c] :=
  marked_of_not_mem fun member => (isBorder_iff.1 border).1 (List.mem_singleton.1 member).symm

theorem Marked.cons (border : isBorder c = true) (marked : Marked known text) : Marked known (c :: text) :=
  (marked_singleton border).append marked

/-- A text is whole up to a border and with it. -/
theorem Marked.upTo (marked : Marked known (front ++ c :: rest)) (border : isBorder c = true) :
    Marked known (front ++ [c]) :=
  (marked.before border).append (marked_singleton border)

theorem Marked.take (marked : Marked known text) {offset : Nat} (border : text[offset]?.all isBorder = true) :
    Marked known (text.take offset) := by
  rcases Nat.lt_or_ge offset text.length with within | beyond
  · rw [← List.take_append_drop offset text, List.drop_eq_getElem_cons within] at marked
    rw [List.getElem?_eq_getElem within] at border
    exact marked.before border
  · rwa [List.take_of_length_le beyond]

/-- A run of characters to which everything in a marker belongs. -/
theorem Marked.takeWhile {class_ : Char → Bool} (marked : Marked known text)
    (ends : ∀ c, class_ c = false → isBorder c = true) : Marked known (text.takeWhile class_) := by
  induction text with
  | nil => trivial
  | cons c text ih =>
    cases here : class_ c with
    | false =>
      rw [List.takeWhile_cons_of_neg (by simp [here])]
      trivial
    | true =>
      rw [List.takeWhile_cons_of_pos here]
      refine ⟨fun begins => ?_, ih marked.2⟩
      have whole := (List.takeWhile_append_dropWhile (p := class_) (l := text))
      have named := marked.1 begins
      cases later : text.dropWhile class_ with
      | nil =>
        rw [later, List.append_nil] at whole
        rwa [whole]
      | cons d rest =>
        rw [later] at whole
        rw [← whole] at named
        exact named.before (ends d (stop_of_dropWhile later))

theorem Marked.dropWhile {class_ : Char → Bool} (marked : Marked known text) : Marked known (text.dropWhile class_) :=
  marked.suffix (List.dropWhile_suffix class_)

theorem Marked.trimLeft (marked : Marked known text) : Marked known (Text.trimLeft text) := marked.dropWhile

theorem Marked.trimRight (marked : Marked known text) : Marked known (Text.trimRight text) := by
  obtain ⟨space, blank, whole⟩ : ∃ space, IsSpace space ∧ text = Text.trimRight text ++ space := by
    refine ⟨(text.reverse.takeWhile isBlank).reverse, ?_, ?_⟩
    · intro c member
      exact List.mem_takeWhile_imp (List.mem_reverse.1 member)
    · rw [Text.trimRight, ← List.reverse_append, List.takeWhile_append_dropWhile, List.reverse_reverse]
  cases space with
  | nil =>
    rw [List.append_nil] at whole
    rwa [← whole]
  | cons c space =>
    rw [whole] at marked
    exact marked.before (isBorder_of_isBlank (blank c List.mem_cons_self))

theorem Marked.trim (marked : Marked known text) : Marked known (Text.trim text) := marked.trimLeft.trimRight

theorem Marked.of_cut? {stop : Char} (marked : Marked known text) (border : isBorder stop = true)
    (cut : Text.cut? stop text = some (front, rest)) : Marked known front ∧ Marked known rest := by
  rw [Text.eq_of_cut? cut] at marked
  exact ⟨marked.before border, marked.behind.2⟩

theorem Marked.of_after? {beginning : Text} (marked : Marked known text)
    (found : Text.after? beginning text = some rest) : Marked known rest := by
  rw [Text.eq_of_after? found] at marked
  exact marked.behind

theorem marked_flatten {pieces : List Text} (marked : ∀ piece ∈ pieces, Marked known piece) :
    Marked known pieces.flatten := by
  induction pieces with
  | nil => trivial
  | cons piece pieces ih =>
    rw [List.flatten_cons]
    exact (marked piece List.mem_cons_self).append (ih fun other member => marked other (List.mem_cons_of_mem piece member))

end Cutting

/-- The second text is the first one with some stretches written anew, each of which begins at a border. -/
inductive Rewritten (known : Text → Prop) : Text → Text → Prop where
  | nil : Rewritten known [] []
  | keep (c : Char) {text out : Text} (rewritten : Rewritten known text out) : Rewritten known (c :: text) (c :: out)
  | put {c : Char} {source piece text out : Text} (border : isBorder c = true) (marked : Marked known piece)
    (rewritten : Rewritten known text out) : Rewritten known (c :: source ++ text) (piece ++ out)

section Rewriting

variable {known : Text → Prop} {text out : Text}

/-- No stretch begins inside a marker. -/
theorem Rewritten.named (rewritten : Rewritten known text out) (named : Named known text) : Named known out := by
  obtain ⟨name, after, identifier, knows, whole⟩ := named
  have parts := (isIdentifierPart_of_isIdentifier identifier).2
  suffices ends : ∃ after, out = name ++ markerClose :: after by
    obtain ⟨after, whole⟩ := ends
    exact ⟨name, after, identifier, knows, whole⟩
  clear identifier knows
  induction rewritten generalizing name with
  | nil => cases name <;> cases whole
  | keep c rewritten ih =>
    cases name with
    | nil =>
      obtain ⟨rfl, -⟩ := List.cons.inj whole
      exact ⟨_, rfl⟩
    | cons d name =>
      obtain ⟨rfl, later⟩ := List.cons.inj whole
      obtain ⟨after, rfl⟩ := ih name later fun d member => parts d (List.mem_cons_of_mem c member)
      exact ⟨after, rfl⟩
  | put border =>
    obtain ⟨-, notClose, foreign⟩ := isBorder_iff.1 border
    cases name with
    | nil => exact absurd (List.cons.inj whole).1 notClose
    | cons d name =>
      rw [(List.cons.inj whole).1, parts d List.mem_cons_self] at foreign
      cases foreign

/-- Markers stay whole when stretches are written anew. -/
theorem Rewritten.marked (rewritten : Rewritten known text out) (marked : Marked known text) : Marked known out := by
  induction rewritten with
  | nil => trivial
  | keep c rewritten ih => exact ⟨fun begins => rewritten.named (marked.1 begins), ih marked.2⟩
  | put border piece rewritten ih => exact piece.append (ih marked.behind)

theorem Rewritten.of_segments {α : Type} {pieces : List (Segment α)} {outs : List Text}
    (rewrites : List.Forall₂ (fun piece out => match piece with
      | .plain c => out = [c]
      | .hit source _ => source.head?.any isBorder = true ∧ Marked known out) pieces outs) :
    Rewritten known (pieces.flatMap Segment.source) outs.flatten := by
  induction rewrites with
  | nil => exact .nil
  | @cons piece out pieces outs here later ih =>
    rw [List.flatMap_cons, List.flatten_cons]
    cases piece with
    | plain c =>
      obtain rfl := here
      exact .keep c ih
    | hit source value =>
      obtain ⟨border, marked⟩ := here
      cases source with
      | nil => cases border
      | cons c source => exact .put border marked ih

end Rewriting

end Signal

end ComponentPages
