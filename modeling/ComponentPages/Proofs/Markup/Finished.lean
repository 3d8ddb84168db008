import ComponentPages.Proofs.Markup.Handler
import ComponentPages.Proofs.Markup.Inert

/-!
Finished markup: a page on which nothing is left to compile. Its braces stand in script and style blocks, so no pass
takes one of them for a handler, a conditional or a placeholder, and compiling the page gives the page back.
-/
namespace ComponentPages

open Compile (LeadsTo)

/-- Whether the tag of an element has a `fetch` attribute with a value. -/
def Fetch.Mark.fetches (mark : Mark) : Bool :=
  (TagHead.read? mark.after).any fun (head, _) =>
    (Attribute.tokenize head).any fun attr => attr.name = "fetch" && attr.value.isSome

/-- Markup without a tag of a component, a script of the dialect, an element that fetches and a reserved character, whose
opening braces all stand in scripts and styles. -/
structure IsFinished (html : Text) : Prop where
  untagged : ComponentTag.next? html 0 = .ok none
  unscripted : Pattern.seek? Signal.block html = none
  blocked : ∀ offset < html.length, html[offset]? = some '\x7b' → covered (Block.spans html) offset = true
  unfetched : ∀ mark ∈ Fetch.elementMarks html 0, mark.fetches = false
  unreserved : ∀ c ∈ html, isReserved c = false

/-- A hit is read off the front of the text from its offset on. -/
theorem Pattern.read_of_mem_located {α : Type} {read : Pattern α} {text source : Text} {value : α} {offset place : Nat}
    (member : (place, .hit source value) ∈ located offset (segments read text)) :
    offset ≤ place ∧ ∃ rest, read (text.drop (place - offset)) = some (value, rest) := by
  induction size : text.length using Nat.strongRecOn generalizing text offset with
  | ind length ih =>
    cases text with
    | nil =>
      rw [segments] at member
      cases member
    | cons c tail =>
      have later {taken : Nat} (positive : 0 < taken) (within : taken ≤ tail.length + 1)
          (member : (place, .hit source value) ∈ located (offset + taken) (segments read ((c :: tail).drop taken))) :
          offset ≤ place ∧ ∃ rest, read ((c :: tail).drop (place - offset)) = some (value, rest) := by
        simp only [List.length_cons] at size
        obtain ⟨behind, rest, reads⟩ := ih _ (by rw [List.length_drop, List.length_cons]; omega) member rfl
        rw [List.drop_drop, show taken + (place - (offset + taken)) = place - offset by omega] at reads
        exact ⟨by omega, rest, reads⟩
      have single (member : (place, .hit source value) ∈ located offset (.plain c :: segments read tail)) :
          offset ≤ place ∧ ∃ rest, read ((c :: tail).drop (place - offset)) = some (value, rest) := by
        rcases List.mem_cons.1 member with here | behind
        · cases here
        · exact later Nat.one_pos (Nat.le_add_left 1 _) behind
      rw [segments] at member
      cases reads : read (c :: tail) with
      | none =>
        rw [reads] at member
        exact single member
      | some result =>
        obtain ⟨found, rest⟩ := result
        rw [reads] at member
        dsimp only at member
        split at member
        · next positive =>
          rcases List.mem_cons.1 member with here | behind
          · obtain ⟨rfl, same⟩ := Prod.mk.inj here
            obtain ⟨-, rfl⟩ := Segment.hit.inj same
            exact ⟨Nat.le_refl _, rest, by rw [Nat.sub_self, List.drop_zero, reads]⟩
          · have taken : (tail.length + 1 - rest.length) ⊓ (tail.length + 1) = tail.length + 1 - rest.length := by omega
            rw [Segment.source, List.length_take, List.length_cons, taken] at behind
            exact later positive (Nat.sub_le _ _) behind
        · exact single member

/-- Where a pattern begins with one character only, a hit stands at that character. -/
theorem Pattern.front_of_mem_located {α : Type} {read : Pattern α} {front : Char}
    (begins : ∀ c text, c ≠ front → read (c :: text) = none) (unread : read [] = none) {text source : Text} {value : α}
    {place : Nat} (member : (place, .hit source value) ∈ located 0 (segments read text)) :
    text[place]? = some front := by
  obtain ⟨-, rest, reads⟩ := read_of_mem_located member
  rw [Nat.sub_zero] at reads
  rw [← List.head?_drop]
  cases start : text.drop place with
  | nil =>
    rw [start, unread] at reads
    cases reads
  | cons c tail =>
    rw [start] at reads
    by_contra other
    rw [begins c tail fun same => other (by rw [same]; rfl)] at reads
    cases reads

theorem Pattern.map_snd_located {α : Type} (offset : Nat) (segments : List (Segment α)) :
    (located offset segments).map Prod.snd = segments := by
  induction segments generalizing offset with
  | nil => rfl
  | cons segment segments ih => rw [located, List.map_cons, ih]

/-- A script or style block starts with an angle bracket. -/
theorem Block.angle_of_mem_spans {html : Text} {span : Span} (member : span ∈ spans html) :
    html[span.start]? = some '<' := by
  obtain ⟨⟨place, segment⟩, located, value⟩ := List.mem_filterMap.1 member
  cases segment with
  | plain c => cases value
  | hit source found =>
    obtain rfl := Option.some.inj value
    refine Pattern.front_of_mem_located (fun c text other => ?_) rfl located
    rw [guarded, opening?_of_ne _ c text other, opening?_of_ne _ c text other]
    rfl

/-- A stretch without an angle bracket enters no block: what its end is covered by covers its start. -/
theorem covered_of_covered {html before stretch : Text} {c : Char} {after : Text}
    (whole : html = before ++ (stretch ++ c :: after)) (free : ∀ d ∈ stretch ++ [c], d ≠ '<')
    (inside : covered (Block.spans html) (before.length + stretch.length) = true) :
    covered (Block.spans html) before.length = true := by
  obtain ⟨span, member, covers⟩ := List.any_eq_true.1 inside
  refine List.any_eq_true.2 ⟨span, member, ?_⟩
  simp only [Span.covers, Bool.and_eq_true, decide_eq_true_eq] at covers ⊢
  refine ⟨?_, by omega⟩
  by_contra behind
  have angle := Block.angle_of_mem_spans member
  have place : (stretch ++ [c])[span.start - before.length]? = some '<' := by
    rw [whole, List.getElem?_append_right (by omega), ← List.singleton_append, ← List.append_assoc,
      List.getElem?_append_left (by simp only [List.length_append, List.length_singleton]; omega)] at angle
    exact angle
  exact free '<' (List.mem_of_getElem? place) rfl

namespace Conditional

/-- No conditional is found where every brace is out of reach. -/
theorem seekFrom?_of_covered {blocks : List Span} {offset : Nat} {text : Text}
    (blocked : ∀ place < text.length, text[place]? = some '\x7b' → covered blocks (offset + place) = true) :
    seekFrom? blocks offset text = none := by
  induction text generalizing offset with
  | nil => rfl
  | cons c text ih =>
    have here : ¬(c = '\x7b' && !covered blocks offset && opens 1 false text) = true := by
      intro opens
      simp only [Bool.and_eq_true, decide_eq_true_eq, Bool.not_eq_true'] at opens
      have inside := blocked 0 (Nat.zero_lt_succ _) (by rw [opens.1.1]; rfl)
      rw [Nat.add_zero, opens.1.2] at inside
      cases inside
    rw [seekFrom?, if_neg here, ih fun place within brace => ?_, Option.map_none]
    rw [Nat.add_right_comm]
    exact blocked (place + 1) (Nat.succ_lt_succ within) brace

end Conditional

namespace Placeholder

/-- A text whose braces are all out of reach is kept. -/
theorem substitute_of_covered {html : Text}
    (blocked : ∀ offset < html.length, html[offset]? = some '\x7b' → covered (Block.spans html) offset = true)
    (scope : Scope) : substitute html scope = .ok html := by
  have kept {write : Nat × Segment Text → Except Failure Text} {segments : List (Nat × Segment Text)}
      (each : ∀ segment ∈ segments, write segment = .ok segment.2.source) :
      segments.mapM write = .ok (segments.map fun segment => segment.2.source) := by
    induction segments with
    | nil => rfl
    | cons segment segments ih =>
      rw [List.mapM_cons, each segment List.mem_cons_self,
        ih fun other member => each other (List.mem_cons_of_mem segment member)]
      rfl
  rw [substitute, kept]
  · have whole := Pattern.flatMap_source_segments pattern html
    rw [List.flatMap_def, ← Pattern.map_snd_located 0 (Pattern.segments pattern html), List.map_map] at whole
    exact congrArg Except.ok whole
  · rintro ⟨offset, segment⟩ member
    cases segment with
    | plain c => rfl
    | hit source inner =>
      have brace := Pattern.front_of_mem_located pattern_of_ne rfl member
      have hidden : (frozen (Block.spans html) html offset || looksConditional inner) = true := by
        rw [frozen, blocked offset (List.getElem?_eq_some_iff.1 brace).1 brace]
        rfl
      exact if_pos hidden

end Placeholder

namespace Fetch

theorem siteOf?_of_unfetched {marks : List Mark} (unfetched : ∀ mark ∈ marks, mark.fetches = false) :
    siteOf? marks = none := by
  induction marks with
  | nil => rfl
  | cons mark marks ih =>
    have here := unfetched mark List.mem_cons_self
    rw [siteOf?]
    rw [Mark.fetches] at here
    cases reads : TagHead.read? mark.after with
    | none => rfl
    | some found =>
      obtain ⟨head, body⟩ := found
      rw [reads, Option.any_some, List.any_eq_false] at here
      have none : request? head = none := by
        rw [request?, Option.bind_eq_none_iff]
        intro attr found
        rw [Attribute.find?] at found
        have named : attr.name = "fetch" := by simpa using List.find?_some found
        have bare := here attr (List.mem_of_find?_eq_some found)
        rw [decide_eq_true named, Bool.true_and, Option.not_isSome_iff_eq_none] at bare
        rw [Attribute.text?, bare, Option.map_none]
      dsimp only
      rw [none]
      exact ih fun other member => unfetched other (List.mem_cons_of_mem mark member)

end Fetch

namespace IsFinished

variable {html : Text} (finished : IsFinished html)
include finished

/-- A handler would have to start before the block that its brace stands in. -/
theorem parts_eq : Signal.parts html = html.map Signal.Part.plain := by
  have quiet : Signal.Quiet (Block.spans html) html 0 none html [] := by
    intro part c after whole
    rw [Option.eq_none_iff_forall_ne_some]
    rintro ⟨event, body⟩ starts
    obtain ⟨-, handles, -, free⟩ := Signal.handlerHere?_eq_some_iff.1 starts
    obtain ⟨left, right, named, leftSpace, rightSpace, spelled⟩ := Signal.handlerStart_eq_some_iff.1 handles
    rw [List.append_nil] at spelled
    have split : html = part ++ ((event ++ left ++ '=' :: right) ++ '\x7b' :: body) := by rw [whole, spelled]
    have place : html[part.length + (event ++ left ++ '=' :: right).length]? = some '\x7b' := by
      rw [split, List.getElem?_append_right (Nat.le_add_right _ _), Nat.add_sub_cancel_left,
        List.getElem?_append_right (Nat.le_refl _), Nat.sub_self]
      rfl
    have brace := finished.blocked _ (List.getElem?_eq_some_iff.1 place).1 place
    have angleless : ∀ d ∈ event ++ left ++ '=' :: right ++ ['\x7b'], d ≠ '<' := by
      rintro d member rfl
      simp only [List.mem_append, List.mem_cons, List.not_mem_nil, or_false] at member
      rcases member with ((inEvent | inSpace) | equal | inSpace) | brace
      · exact absurd (named.isAlpha '<' inEvent) (by decide)
      · exact absurd (leftSpace '<' inSpace) (by decide)
      · exact absurd equal (by decide)
      · exact absurd (rightSpace '<' inSpace) (by decide)
      · exact absurd brace (by decide)
    rw [Nat.zero_add, covered_of_covered split angleless brace] at free
    cases free
  have parts := Signal.partsFrom_append quiet
  rw [List.append_nil, Signal.partsFrom, List.append_nil] at parts
  exact parts

theorem lower_eq (scope : Scope) : Signal.lower html scope = pure html := by
  have absent := Pattern.absent_of_seek? finished.unscripted
  exact Signal.lower_of_quiet (Pattern.values_of_absent absent) (Pattern.erase_of_absent absent) finished.parts_eq scope

/-- Every pass leaves finished markup as it is and draws no id. -/
theorem leadsTo_compilePage {limit : Int} (workshop : Workshop) (stack : ExpansionStack limit) (scope : Scope) :
    (compilePage workshop stack scope true html).LeadsTo (pure html) := by
  have unfetched : Fetch.next? html 0 = none := Fetch.siteOf?_of_unfetched finished.unfetched
  have unsought : Conditional.seek? html = none := by
    refine Conditional.seekFrom?_of_covered fun place within brace => ?_
    rw [Nat.zero_add]
    exact finished.blocked place within brace
  have expanded : (Expansion.expandFrom workshop stack scope html 0).LeadsTo (pure html) := by
    rw [Expansion.expandFrom_of_none finished.untagged, List.drop_zero, Placeholder.substitute_of_covered finished.blocked]
    exact LeadsTo.note (LeadsTo.refl _) _
  rw [compilePage, if_pos rfl, finished.lower_eq, pure_bind]
  refine LeadsTo.bind_pure (Expansion.leadsTo_mask unfetched) ?_
  rw [Expansion.expand, Conditional.settle_of_none unsought, Compile.lift_ok, pure_bind]
  refine LeadsTo.bind_pure expanded ?_
  rw [Signal.resolve_of_unreserved finished.unreserved, Fetch.lower_of_none unfetched]
  refine LeadsTo.bind_pure (LeadsTo.note (LeadsTo.refl _) _) ?_
  rw [Fetch.unmask_of_unreserved finished.unreserved]
  exact LeadsTo.refl _

end IsFinished

/-- Finished markup compiles to itself: nothing but notes is left on the page, which has no script, needs no signals and
has drawn no id. So compiling once more changes nothing wherever the result is finished. -/
theorem compileFresh_of_isFinished {html : Text} (finished : IsFinished html) (workshop : Workshop) (limit : Int)
    (scope : Scope) :
    (∃ notes, compileFresh workshop limit scope html = (.ok html, { notes })) ∧
      ∀ page, (compileFresh workshop limit scope page).1 = .ok html →
        ((compileFresh workshop limit scope page).1 >>= fun output => (compileFresh workshop limit scope output).1) =
          (compileFresh workshop limit scope page).1 := by
  have same : ∃ notes, compileFresh workshop limit scope html = (.ok html, { notes }) := by
    obtain ⟨notes, reached⟩ := finished.leadsTo_compilePage workshop (ExpansionStack.empty limit) scope {}
    exact ⟨notes, reached⟩
  refine ⟨same, fun page compiled => ?_⟩
  obtain ⟨notes, again⟩ := same
  rw [compiled]
  exact congrArg Prod.fst again

/-- Behind a closing tag without its opening one, a script full of what passes look for elsewhere. -/
theorem compileFresh_of_isFinished_script :
    let html : Text := "</Card><p title='?('>a</p><script>\x7b a ? (<b onclick=\x7bx\x7d fetch='u'>) : (\x7by\x7d) \x7d</script>"
    IsFinished html ∧
      (∃ notes, compileFresh {} 100 [("x", .int 1)] html = (.ok html, { notes })) ∧
      ((compileFresh {} 100 [("x", .int 1)] html).1 >>= fun output => (compileFresh {} 100 [("x", .int 1)] output).1) =
        .ok html := by
  intro html
  have finished : IsFinished html := {
    untagged := eq_ok_of_toOption (by decide +kernel)
    unscripted := by decide +kernel
    blocked := by decide +kernel
    unfetched := by decide +kernel
    unreserved := by decide +kernel }
  obtain ⟨⟨notes, same⟩, again⟩ := compileFresh_of_isFinished finished {} 100 [("x", .int 1)]
  have compiled := congrArg Prod.fst same
  refine ⟨finished, ⟨notes, same⟩, ?_⟩
  rw [again html compiled, compiled]

end ComponentPages
