import ComponentPages.Component
import ComponentPages.Proofs.Checked.Argument
import ComponentPages.Proofs.Stylesheet

/-!
Components, loaded with checked operations: the scoping of a stylesheet, whose blocks and selectors are read at indices,
the search for the end of the root element, and the registry.
-/
namespace ComponentPages

namespace Text

theorem trim_trim (text : Text) : trim (trim text) = trim text := by
  rw [trim, trimLeft_trim, trim, trimRight_trimRight]

/-- A text without words is white space. -/
theorem trimLeft_of_words {text : Text} (wordless : words text = []) : trimLeft text = [] := by
  rw [words] at wordless
  split at wordless
  · assumption
  · cases wordless

end Text

namespace Stylesheet

/-- A block ends before its closing brace or with the text. -/
theorem block_cases (depth : Nat) (text : Text) :
    text = (block depth text).1 ++ '\x7d' :: (block depth text).2 ∨
      (block depth text).1 = text ∧ (block depth text).2 = [] := by
  induction text generalizing depth with
  | nil => exact .inr ⟨rfl, rfl⟩
  | cons c rest ih =>
    by_cases closes : c = '\x7d' ∧ depth = 1
    · obtain ⟨rfl, rfl⟩ := closes
      exact .inl rfl
    · rw [block_cons closes]
      exact (ih _).imp (fun whole => congrArg (c :: ·) whole) fun ends => ⟨congrArg (c :: ·) ends.1, ends.2⟩

theorem eq_of_splitPseudo (depth : Int) (text : Text) : (splitPseudo depth text).1 ++ (splitPseudo depth text).2 = text := by
  induction text generalizing depth with
  | nil => rfl
  | cons c rest ih =>
    rw [splitPseudo]
    split
    · rfl
    · exact congrArg (c :: ·) (ih (bracketDepth depth c))

/-- Behind the at sign of a trimmed prelude there is nothing or a word. -/
theorem words_of_prelude {before rest : Text} {c : Char} (prelude : Text.trim before = '@' :: c :: rest) :
    Text.words (c :: rest) ≠ [] := by
  intro wordless
  have trimmed : Text.trim ('@' :: c :: rest) = '@' :: c :: rest := by rw [← prelude, Text.trim_trim]
  have space : IsSpace (c :: rest) := List.dropWhile_eq_nil_iff.1 (Text.trimLeft_of_words wordless)
  have nothing := Text.trimRight_append_of_space [] space
  rw [trim_cons (by decide)] at trimmed
  rw [List.nil_append, (List.cons.inj trimmed).2] at nothing
  cases nothing

end Stylesheet

namespace Checked

open Guarded (embed check)
open Stylesheet (comment bracketDepth splitPseudo compoundStart selectors conditionalRules written block)

/-- One character of a block on the way to the brace that closes it. -/
def braceTurn (depth index : Nat) (c : Char) : Turn Nat Nat :=
  if c = '\x7b' then .next (depth + 1)
  else if c = '\x7d' then if depth = 1 then .stop index else .next (depth - 1)
  else .next depth

/-- Where the block ends whose brace stands at an index; an unclosed block runs to the end. -/
def closingBrace (css : Text) (start : Nat) : Checked Nat := each css braceTurn (fun _ _ => css.length) 0 start

def pseudoTurn (depth : Int) (index : Nat) (c : Char) : Turn Int (Option Nat) :=
  if depth = 0 && c = ':' then .stop (some index) else .next (bracketDepth depth c)

/-- The selector with the scope attached to its last compound. -/
def attach (scope selector : Text) : Checked Text := do
  match ← each selector pseudoTurn (fun _ _ => none) 0 (compoundStart 0 0 0 selector) with
  | some index => .ok (selector.take index ++ "[" ++ scope ++ "]" ++ selector.drop index)
  | none => .ok (selector ++ "[" ++ scope ++ "]")

/-- One selector as it is written in the scoped stylesheet. -/
def scopedSelector (scope selector : Text) : Checked Text :=
  (attach scope selector).map fun attached => attached ++ ", [" ++ scope ++ "] " ++ selector

/-- The lower-case keyword of an at-rule: its first word, if there is more than the at sign. -/
def keyword (head : Text) : Checked Text :=
  if 1 < head.length then (first (Text.words (head.drop 1))).map Text.lower else .ok []

/-- An item of a stylesheet, given how the items of its block are scoped. -/
def scopedItem (scope head body : Text) (inner : Checked Text) : Checked Text :=
  if head = [] then .ok []
  else if head.head? = some '@' then do
    if conditionalRules.contains (← keyword head) && body.elem '\x7b' then
      inner.map fun items => written head ("\n" ++ items)
    else .ok (written head body)
  else ((selectors head).mapM (scopedSelector scope)).map fun confined => written (List.intercalate ", " confined) body

/-- Scopes the items of a stylesheet without comments from an index on. -/
def itemsFrom (scope css : Text) (index : Nat) : Checked Text :=
  match Text.indexFrom '\x7b' css index with
  | none => .ok []
  | some opened => do
    let closing ← closingBrace css opened
    let head := Text.trim (Text.slice css index opened)
    let body := Text.slice css (opened + 1) closing
    if _onward : index ≤ closing ∧ closing ≤ css.length ∧ (Pattern.erase comment body).length < css.length then
      let item ← scopedItem scope head body (itemsFrom scope (Pattern.erase comment body) 0)
      let others ← itemsFrom scope css (closing + 1)
      .ok (item ++ others)
    else .error .endless
termination_by (css.length, css.length + 1 - index)
decreasing_by
  · exact Prod.Lex.left _ _ _onward.2.2
  · exact Prod.Lex.right _ (by omega)

/-- Takes the style blocks out of a component's source, and gives the template and the scoped stylesheet. -/
def extract (source scope : Text) : Checked (Text × Text) := do
  let styles := Block.named "style"
  let sheets ← (Pattern.values styles source).mapM fun css => itemsFrom scope (Pattern.erase comment css) 0
  .ok (Text.trim (Pattern.erase styles source), sheets.flatten)

/-- The offset behind the element at the front of a text. -/
def elementEnd (text : Text) : Checked (Option Nat) :=
  match RootElement.openingName text with
  | none => .ok none
  | some (name, _) => do
    let headStart := name.length + 1
    match ← tagEnd text headStart with
    | none => .ok none
    | some stop =>
      if TagHead.closesItself (Text.slice text headStart stop) || RootElement.voidNames.contains (Text.lower name) then
        .ok (some (stop + 1))
      else (matchingClose text name (stop + 1)).map fun close? => close?.map Span.stop

/-- Whether the markup is one element, not counting comments, script blocks and white space around it. -/
def isSingle (html : Text) : Checked Bool := do
  let bare := Text.trim (Pattern.erase (Block.named "script") (Pattern.erase RootElement.comment html))
  match ← elementEnd bare with
  | none => .ok false
  | some stop => .ok ((bare.drop stop).all isBlank)

/-- Builds a component from its name and source. -/
def load (name source : Text) (path : Option Text) (addScope : Bool) : Guarded (Except Failure) Component := do
  if !isPascalCase name then
    let shown := match path with
      | none | some [] => name
      | some path => path
    embed (.error (.componentName shown name))
  let scopeId := Component.scopeIdFor name
  let (styleless, css) ← check (extract source scopeId)
  let (props, propless) ← readProps styleless
  let template := Slot.normalize propless
  if !(← check (isSingle template)) then embed (.error (.componentRoot name))
  let template := if addScope then RootElement.addAttribute template scopeId else template
  pure { name, template, props, scopeId, css, path }

/-- The component of a name. That there is none is noticed by the lookup that fails. -/
def find (registry : Registry) (name : Text) : Guarded (Except Failure) Component :=
  match require .key (registry.find? name) with
  | .ok component => pure component
  | .error _ => embed (.error (.componentMissing name))

theorem closingBrace_eq {css rest : Text} {start : Nat} (stands : css.drop start = '\x7b' :: rest) :
    ∃ closing, closingBrace css start = .ok closing ∧ start < closing ∧ closing ≤ css.length ∧
      Text.slice css (start + 1) closing = (block 1 rest).1 ∧ css.drop (closing + 1) = (block 1 rest).2 := by
  have read : closingBrace css start = .ok ((fun depth index rest =>
      if (block depth rest).1 = rest then css.length else index + (block depth rest).1.length) 0 start (css.drop start)) := by
    refine each_eq (fun depth index rest =>
      if (block depth rest).1 = rest then css.length else index + (block depth rest).1.length) (fun _ _ => rfl)
      (fun depth index c rest _ => ?_) 0 start
    by_cases closes : c = '\x7d' ∧ depth = 1
    · obtain ⟨rfl, rfl⟩ := closes
      rfl
    · have later (depth' : Nat) : (if (prepend [c] (block depth' rest)).1 = c :: rest then css.length
          else index + (prepend [c] (block depth' rest)).1.length) =
          if (block depth' rest).1 = rest then css.length else index + 1 + (block depth' rest).1.length := by
        change (if c :: (block depth' rest).1 = c :: rest then css.length
          else index + (c :: (block depth' rest).1).length) = _
        simp only [List.cons.injEq, true_and, List.length_cons]
        congr 1
        omega
      rw [Stylesheet.block_cons closes, braceTurn, later]
      by_cases opens : c = '\x7b'
      · rw [if_pos opens, if_pos opens]
        rfl
      · rw [if_neg opens, if_neg opens]
        by_cases brace : c = '\x7d'
        · rw [if_pos brace, if_pos brace, if_neg fun outermost => closes ⟨brace, outermost⟩]
          rfl
        · rw [if_neg brace, if_neg brace]
          rfl
  have behind : css.drop (start + 1) = rest := Text.drop_succ_of_cons stands
  have size := congrArg List.length stands
  rw [List.length_drop, List.length_cons] at size
  have first : block 0 ('\x7b' :: rest) = ('\x7b' :: (block 1 rest).1, (block 1 rest).2) :=
    Stylesheet.block_cons (by simp) rest
  rw [read, stands]
  dsimp only
  rw [first]
  rcases Stylesheet.block_cases 1 rest with whole | ⟨ends, nothing⟩
  · have open_ : (block 1 rest).1 ≠ rest := by
      intro same
      have sizes := congrArg List.length whole
      rw [same, List.length_append, List.length_cons] at sizes
      omega
    have place := behind.trans whole
    have sizes := congrArg List.length whole
    rw [List.length_append, List.length_cons] at sizes
    rw [if_neg fun same => open_ (List.cons.inj same).2, List.length_cons]
    refine ⟨_, rfl, by omega, by omega, ?_, ?_⟩
    · rw [show start + ((block 1 rest).1.length + 1) = start + 1 + (block 1 rest).1.length by omega]
      exact Text.slice_of_drop place
    · rw [show start + ((block 1 rest).1.length + 1) + 1 = start + 1 + (block 1 rest).1.length + 1 by omega]
      exact Text.drop_succ_of_drop place
  · rw [ends, nothing, if_pos rfl]
    refine ⟨css.length, rfl, by omega, Nat.le_refl _, ?_, List.drop_eq_nil_of_le (Nat.le_succ _)⟩
    rw [Text.slice, List.take_length, behind]

theorem attach_eq (scope selector : Text) : attach scope selector = .ok (Stylesheet.attach scope selector) := by
  have sought : each selector pseudoTurn (fun _ _ => none) 0 (compoundStart 0 0 0 selector) =
      .ok ((fun depth index rest => if (splitPseudo depth rest).2 = [] then none
        else some (index + (splitPseudo depth rest).1.length)) 0 (compoundStart 0 0 0 selector)
          (selector.drop (compoundStart 0 0 0 selector))) := by
    refine each_eq (fun depth index rest => if (splitPseudo depth rest).2 = [] then none
      else some (index + (splitPseudo depth rest).1.length)) (fun _ _ => rfl) (fun depth index c rest _ => ?_) 0 _
    rw [splitPseudo, pseudoTurn]
    split
    · rfl
    · dsimp only
      rw [Turn.result, List.length_cons, Nat.add_right_comm index 1, Nat.add_assoc]
  rw [attach, Stylesheet.attach, sought]
  generalize compoundStart 0 0 0 selector = start
  have whole := Stylesheet.eq_of_splitPseudo 0 (selector.drop start)
  dsimp only
  generalize splitPseudo 0 (selector.drop start) = parts at whole
  obtain ⟨plain, pseudo⟩ := parts
  dsimp only at whole ⊢
  by_cases bare : pseudo = []
  · subst bare
    rw [List.append_nil] at whole
    rw [if_pos rfl, List.append_nil, whole, List.take_append_drop]
    rfl
  · have place : start ≤ selector.length := by
      by_contra beyond
      rw [List.drop_eq_nil_of_le (by omega)] at whole
      exact bare (List.append_eq_nil_iff.1 whole).2
    have front : selector.take (start + plain.length) = selector.take start ++ plain := by
      rw [List.take_add, ← whole, List.take_left]
    rw [if_neg bare, ok_bind]
    dsimp only
    rw [front, Text.drop_of_drop whole.symm]

theorem scopedSelector_eq (scope selector : Text) :
    scopedSelector scope selector = .ok (Stylesheet.scopedSelector scope selector) := by
  rw [scopedSelector, attach_eq]
  rfl

theorem keyword_eq {before rest : Text} (prelude : Text.trim before = '@' :: rest) :
    keyword ('@' :: rest) = .ok (Stylesheet.keyword ('@' :: rest)) := by
  rw [keyword, Stylesheet.keyword]
  cases rest with
  | nil =>
    rw [List.drop_one, List.tail_cons, if_neg (by simp), Text.words]
    rfl
  | cons c rest =>
    rw [if_pos (by simp), List.drop_one, List.tail_cons, first]
    cases found : Text.words (c :: rest) with
    | nil => exact absurd found (Stylesheet.words_of_prelude prelude)
    | cons word words => rfl

theorem scopedItem_eq {scope before body items : Text} {inner : Checked Text} (sound : inner = .ok items) :
    scopedItem scope (Text.trim before) body inner =
      .ok (if Stylesheet.holdsRules (Text.trim before) body then written (Text.trim before) ("\n" ++ items)
        else Stylesheet.flatItem scope (Text.trim before) body) := by
  rw [scopedItem, Stylesheet.holdsRules]
  cases prelude : Text.trim before with
  | nil => rfl
  | cons c rest =>
    rw [if_neg (List.cons_ne_nil c rest), List.head?_cons]
    by_cases at_ : c = '@'
    · subst at_
      rw [if_pos rfl, keyword_eq prelude, ok_bind, sound, beq_self_eq_true, Bool.true_and]
      cases conditionalRules.contains (Stylesheet.keyword ('@' :: rest)) && body.elem '\x7b' with
      | true => rfl
      | false =>
        rw [Stylesheet.flatItem_at rfl]
        rfl
    · have other : (some c == some '@') = false := beq_eq_false_iff_ne.2 fun same => at_ (Option.some.inj same)
      have confined : (selectors (c :: rest)).mapM (scopedSelector scope) =
          .ok ((selectors (c :: rest)).map (Stylesheet.scopedSelector scope)) :=
        mapM_eq fun selector _ => scopedSelector_eq scope selector
      rw [if_neg fun same => at_ (Option.some.inj same), other, Bool.false_and, Bool.false_and, confined,
        Stylesheet.flatItem_rule rfl at_]
      rfl

theorem itemsFrom_eq (scope css : Text) (index : Nat) :
    itemsFrom scope css index = .ok (Stylesheet.scopeItems scope (css.drop index)) := by
  rw [itemsFrom, Stylesheet.scopeItems]
  cases cut : Text.cut? '\x7b' (css.drop index) with
  | none => rw [Text.indexFrom_eq_none cut]
  | some parts =>
    obtain ⟨before, afterBrace⟩ := parts
    have place := Text.eq_of_cut? cut
    obtain ⟨closing, reads, onward, within, body, behind⟩ := closingBrace_eq (Text.drop_of_drop place)
    have shorter : (Pattern.erase comment (block 1 afterBrace).1).length < css.length := by
      have sizes := congrArg List.length place
      have inner := (Stylesheet.length_block_le 1 afterBrace).1
      have erased := Pattern.length_erase_le comment (block 1 afterBrace).1
      rw [List.length_drop, List.length_append, List.length_cons] at sizes
      omega
    have guard : index ≤ closing ∧ closing ≤ css.length ∧
        (Pattern.erase comment (block 1 afterBrace).1).length < css.length := ⟨by omega, within, shorter⟩
    rw [Text.indexFrom_eq_some cut]
    dsimp only
    rw [reads, ok_bind, Text.slice_of_drop place, body, dif_pos guard,
      scopedItem_eq (itemsFrom_eq scope (Pattern.erase comment (block 1 afterBrace).1) 0), ok_bind,
      itemsFrom_eq scope css (closing + 1), ok_bind, behind, List.drop_zero]
termination_by (css.length, css.length + 1 - index)
decreasing_by
  · exact Prod.Lex.left _ _ shorter
  · exact Prod.Lex.right _ (by omega)

theorem extract_eq (source scope : Text) : extract source scope = .ok (Stylesheet.extract source scope) := by
  have sheets : ((Pattern.values (Block.named "style") source).mapM fun css => itemsFrom scope (Pattern.erase comment css) 0) =
      .ok ((Pattern.values (Block.named "style") source).map (Stylesheet.confine · scope)) :=
    mapM_eq fun css _ => itemsFrom_eq scope (Pattern.erase comment css) 0
  rw [extract, sheets, ok_bind, Stylesheet.extract, List.flatMap_def]

/-- What follows a name that begins a tag. -/
theorem drop_of_openingName {text name after : Text} (opens : RootElement.openingName text = some (name, after)) :
    text = '<' :: name ++ after := by
  rw [RootElement.openingName] at opens
  obtain ⟨inside, begins, opens⟩ := Option.bind_eq_some_iff.1 opens
  cases inside with
  | nil => cases opens
  | cons c rest =>
    dsimp only at opens
    split at opens
    · cases opens
      rw [Text.eq_of_after? begins, List.cons_append, List.cons_append, List.takeWhile_append_dropWhile]
      rfl
    · cases opens

theorem elementEnd_eq (text : Text) :
    ∃ stop?, elementEnd text = .ok stop? ∧ stop?.map (fun stop => text.drop stop) = RootElement.afterElement? text := by
  rw [elementEnd, RootElement.afterElement?]
  cases opens : RootElement.openingName text with
  | none => exact ⟨none, rfl, rfl⟩
  | some parts =>
    obtain ⟨name, after⟩ := parts
    have place : text.drop (name.length + 1) = after := by
      rw [drop_of_openingName opens, List.drop_left' (by simp)]
    dsimp only [Option.bind_eq_bind, Option.bind_some]
    cases read : TagHead.read? after with
    | none =>
      rw [tagEnd_of_unread (by rw [place]; exact read)]
      exact ⟨none, rfl, rfl⟩
    | some found =>
      obtain ⟨head, body⟩ := found
      have inside := place.trans (TagHead.eq_of_split? read)
      have bodyPlace := Text.drop_succ_of_drop inside
      rw [@tagEnd_of_read text head body _ (by rw [place]; exact read), ok_bind]
      dsimp only [Option.bind_some]
      rw [Text.slice_of_drop inside]
      by_cases itself : (TagHead.closesItself head || RootElement.voidNames.contains (Text.lower name)) = true
      · rw [if_pos itself, if_pos itself]
        exact ⟨_, rfl, congrArg some bodyPlace⟩
      · have sizes := congrArg List.length inside
        rw [List.length_drop, List.length_append, List.length_cons] at sizes
        have bodyStart : text.length - body.length = name.length + 1 + head.length + 1 := by omega
        rw [if_neg itself, if_neg itself, matchingClose_eq, bodyStart]
        cases Tag.close? text name (name.length + 1 + head.length + 1) with
        | none => exact ⟨none, rfl, rfl⟩
        | some close => exact ⟨some close.stop, rfl, rfl⟩

theorem isSingle_eq (html : Text) : isSingle html = .ok (RootElement.isSingle html) := by
  rw [isSingle, RootElement.isSingle]
  generalize Text.trim (Pattern.erase (Block.named "script") (Pattern.erase RootElement.comment html)) = bare
  obtain ⟨stop?, reads, same⟩ := elementEnd_eq bare
  rw [reads, ok_bind, ← same]
  cases stop? <;> rfl

theorem load_eq (name source : Text) (path : Option Text) (addScope : Bool) :
    load name source path addScope = embed (Component.load name source path addScope) := by
  unfold load Component.load
  cases isPascalCase name with
  | false => rfl
  | true =>
    dsimp only
    rw [Bool.not_true, if_neg Bool.false_ne_true, if_neg Bool.false_ne_true, Guarded.check_ok (extract_eq source (Component.scopeIdFor name)),
      pure_bind, readProps_eq, Guarded.embed_bind]
    refine bind_congr fun parts => ?_
    rw [Guarded.check_ok (isSingle_eq _), pure_bind]
    cases RootElement.isSingle (Slot.normalize parts.2) <;> rfl

theorem find_eq (registry : Registry) (name : Text) : find registry name = embed (registry.require name) := by
  rw [find, Registry.require]
  cases registry.find? name <;> rfl

end Checked

end ComponentPages
