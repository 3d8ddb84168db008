import ComponentPages.Proofs.Fetch.Body
import ComponentPages.Proofs.Markup.Finished
import ComponentPages.Proofs.Markup.Inside

/-!
A page that is one fetch element comes out of compilation with its body as it was written, whatever stands between the
braces of the body and whatever the scope holds.
-/
namespace ComponentPages

open Compile (LeadsTo)

namespace Fetch

/-- The characters of a URL that is written between double quotes and read as one word. -/
def isAddressPart (c : Char) : Bool := !isBlank c && !isQuote c && !Placeholder.isBrace c && c != '<'

def isAddress (url : Text) : Bool := url != [] && url.all isAddressPart

/-- The attribute that makes an element fetch. -/
def requestAttribute (url : Text) : PlainAttribute := .quoted [' '] "fetch" [] [] '"' url

/-- An element that fetches from a URL. -/
def fetching (name url body : Text) : Text :=
  openTag name (requestAttribute url).print ++ (body ++ (Piece.closing name).print)

/-- What it becomes: an element with an id, and the script that fetches its data. -/
def fetched (name url body id : Text) : Text :=
  openTag name (" id=\"" ++ id ++ "\"") ++ body ++ (Piece.closing name).print ++ '\n' ::
    ScriptTexts.fetchScript {} { id, method := "GET", url, binding := "data" }

theorem address_of_isAddress {url : Text} (address : isAddress url = true) :
    url ≠ [] ∧ ∀ c ∈ url, isBlank c = false ∧ isQuote c = false ∧ Placeholder.isBrace c = false ∧ c ≠ '<' := by
  simp only [isAddress, isAddressPart, Bool.and_eq_true, Bool.not_eq_true', bne_iff_ne, List.all_eq_true] at address
  refine ⟨address.1, fun c member => ?_⟩
  obtain ⟨⟨⟨solid, unquoted⟩, braceless⟩, angleless⟩ := address.2 c member
  exact ⟨solid, unquoted, braceless, angleless⟩

end Fetch

theorem isUpper_of_isLower {c : Char} (lower : c.isLower = true) : isUpper c = false := by
  have ascii := toNat_of_isTagNamePart (c := c) (by simp [isTagNamePart, Char.isAlphanum, Char.isAlpha, lower])
  have outside : ¬128 ≤ c.toNat := by omega
  simp [isUpper, not_isUpper_of_isLower lower, outside]

/-! ### Passes on text without upper-case tags -/

/-- Where no tag begins in upper case, no offset lies in the tag of a component. -/
theorem insideComponentTag_of_absent {html : Text} (absent : Pattern.Absent Tag.capital html) (offset : Nat) :
    insideComponentTag html offset = false := by
  rw [insideComponentTag]
  induction offset with
  | zero => rfl
  | succ offset ih =>
    cases here : html[offset]? with
    | none =>
      have beyond : html.length ≤ offset := List.getElem?_eq_none_iff.1 here
      rw [here, List.take_of_length_le beyond] at ih
      rw [List.getElem?_eq_none_iff.2 (by omega), List.take_of_length_le (by omega)]
      exact ih
    | some c =>
      rw [opensTag_take_succ here]
      split
      · rfl
      · split
        · next angle =>
          subst angle
          have front := absent.drop offset
          rw [List.drop_eq_getElem?_toList_append, here, Option.toList_some, List.singleton_append] at front
          have lower := (Pattern.passes_cons_iff.1 front).1
          rw [List.append_nil, Tag.capital_cons_angle, List.head?_drop] at lower
          exact lower
        · exact ih

namespace ComponentTag

theorem closing_of_mem_marksFrom {blocks : List Span} {offset : Nat} {text : Text} {mark : Mark}
    (absent : Pattern.Absent Tag.capital text) (member : mark ∈ marksFrom blocks offset text) : mark.closing = true := by
  induction text generalizing offset with
  | nil => cases member
  | cons c text ih =>
    obtain ⟨here, later⟩ := Pattern.passes_cons_iff.1 absent
    rw [List.append_nil] at here
    rw [marksFrom] at member
    split at member
    · next first read =>
      rcases List.mem_cons.1 member with rfl | behind
      · have marked : mark? offset (c :: text) = some mark := by
          split at read
          · cases read
          · exact (Option.filter_eq_some_iff.1 read).1
        unfold mark? at marked
        split at marked
        · exact (length_of_named? marked).2.1
        · next rest noSlash whole =>
          obtain ⟨rfl, rfl⟩ := List.cons.inj whole
          rw [Tag.capital_cons_angle] at here
          cases text with
          | nil => cases marked
          | cons d text =>
            rw [named?] at marked
            split at marked
            · next upper => simp [isUpper, upper] at here
            · cases marked
        · cases marked
      · exact ih later behind
    · exact ih later member

/-- Where no tag begins in upper case, no component is found. -/
theorem next?_of_absent {html : Text} (absent : Pattern.Absent Tag.capital html) (start : Nat) :
    next? html start = .ok none := by
  have passed : (marks html start).dropWhile Mark.closing = [] :=
    List.dropWhile_eq_nil_iff.2 fun mark member => closing_of_mem_marksFrom (absent.drop start) member
  rw [next?, passed]

end ComponentTag

namespace Fetch

/-! ### The fetch element as it is read -/

section Reading

variable {name url body : Text} (named : isElementName name = true) (address : isAddress url = true)
include address

theorem isSound_requestAttribute : (requestAttribute url).isSound = true := by
  have unquoted : ∀ c ∈ url, c ≠ '"' := by
    rintro c member rfl
    exact absurd ((address_of_isAddress address).2 '"' member).2.1 (by decide)
  simp only [requestAttribute, PlainAttribute.isSound, PlainAttribute.isValued, PlainAttribute.gap, PlainAttribute.name,
    Bool.and_eq_true, List.all_eq_true, bne_iff_ne]
  exact ⟨by decide, ⟨by decide, by decide⟩, unquoted⟩

omit address in
theorem print_request (url : Text) : (requestAttribute url).print = [requestAttribute url].flatMap PlainAttribute.print ++ [] := by
  rw [List.flatMap_singleton, List.append_nil]

theorem read?_request (rest : Text) :
    TagHead.read? ((requestAttribute url).print ++ '>' :: rest) = some ((requestAttribute url).print, rest) := by
  rw [print_request]
  exact TagHead.read?_print (List.forall_mem_singleton.2 (isSound_requestAttribute address)) (List.forall_mem_nil _) rest

theorem tokenize_request : Attribute.tokenize (requestAttribute url).print = [(requestAttribute url).scanned] := by
  rw [print_request]
  exact Attribute.tokenize_print (List.forall_mem_singleton.2 (isSound_requestAttribute address)) (List.forall_mem_nil _)

theorem request?_request : request? (requestAttribute url).print = some url := by
  rw [request?, tokenize_request address, Attribute.find?, List.find?_cons_of_pos (by rfl), Option.bind_some]
  rfl

omit address in
theorem closesItself_request (url : Text) : TagHead.closesItself (requestAttribute url).print = false := by
  have last : (requestAttribute url).print = (" fetch=\"" ++ url) ++ ['"'] := by
    simp [PlainAttribute.print, requestAttribute, PlainAttribute.gap, PlainAttribute.name, PlainAttribute.ending]
  rw [last, TagHead.closesItself, Text.trimRight_concat_of_not_blank (by decide), List.getLast?_concat]
  rfl

theorem readRequest_address : readRequest url = .ok ("GET", url) := by
  obtain ⟨nonempty, solid⟩ := address_of_isAddress address
  have word : ∀ c ∈ url, (!isBlank c) = true := fun c member => by rw [(solid c member).1, Bool.not_false]
  have taken : url.takeWhile (!isBlank ·) = url := List.takeWhile_eq_self_iff.2 word
  have dropped : url.dropWhile (!isBlank ·) = [] := List.dropWhile_eq_nil_iff.2 word
  cases url with
  | nil => exact absurd rfl nonempty
  | cons c url =>
    rw [readRequest, Text.trimLeft_cons_of_not_blank (solid c List.mem_cons_self).1]
    dsimp only
    rw [dropped, taken]
    rfl

/-- A tag that a pattern begins with nowhere in its body stays out of the whole element. -/
theorem absent_fetching {α : Type} {read : Pattern α} (begins : ∀ c text, c ≠ '<' → read (c :: text) = none)
    (opening : ∀ rest, read ('<' :: (name ++ ' ' :: rest)) = none) (closing : ∀ rest, read ('<' :: '/' :: rest) = none)
    (stops : ∀ c text more, read (c :: text) = none → read (c :: text ++ '<' :: more) = none)
    (parts : ∀ c ∈ name, isTagNamePart c = true) (absent : Pattern.Absent read body) :
    Pattern.Absent read (fetching name url body) := by
  have angleless {text : Text} (free : ∀ c ∈ text, c ≠ '<') (rest : Text) : Pattern.Passes read text rest :=
    Pattern.passes_of_begins rest fun c member more => begins c more (free c member)
  have nameFree : ∀ c ∈ name, c ≠ '<' := fun c member => ne_of_isTagNamePart (parts c member) (by decide)
  have front : (requestAttribute url).print = ' ' :: ("fetch=\"" ++ url ++ "\"") := by
    simp [PlainAttribute.print, requestAttribute, PlainAttribute.gap, PlainAttribute.name, PlainAttribute.ending]
  have headFree : ∀ c ∈ (requestAttribute url).print ++ ['>'], c ≠ '<' := by
    intro c member
    rw [front] at member
    simp only [List.cons_append, List.mem_cons, List.mem_append, List.not_mem_nil, or_false] at member
    rcases member with rfl | ((word | inUrl) | quote) | rfl
    · decide
    · exact (by decide : ∀ c ∈ ("fetch=\"" : Text), c ≠ '<') c word
    · exact ((address_of_isAddress address).2 c inUrl).2.2.2
    · exact (by decide : ∀ c ∈ ("\"" : Text), c ≠ '<') c quote
    · decide
  rw [fetching, openTag]
  refine Pattern.absent_append_iff.2 ⟨?_, Pattern.absent_append_iff.2 ⟨Pattern.passes_border stops absent _, ?_⟩⟩
  · rw [List.cons_append, List.cons_append]
    refine Pattern.passes_cons_iff.2 ⟨?_, ?_⟩
    · have read := opening ("fetch=\"" ++ url ++ "\"" ++ ['>'] ++ (body ++ (Piece.closing name).print))
      simpa [front] using read
    · rw [List.append_assoc]
      exact Pattern.passes_append_iff.2 ⟨angleless nameFree _, angleless headFree _⟩
  · rw [Piece.print]
    refine Pattern.passes_cons_iff.2 ⟨?_, ?_⟩
    · exact closing _
    · refine angleless (fun c member => ?_) []
      rcases List.mem_append.1 member with inFront | last
      · rcases List.mem_cons.1 inFront with rfl | inName
        · decide
        · exact nameFree c inName
      · rw [List.mem_singleton.1 last]
        decide

end Reading

/-! ### Tags and blocks of the page -/

section Page

variable {name url body : Text} (named : isElementName name = true)
  (blockless : Text.afterFolded? "script" name = none ∧ Text.afterFolded? "style" name = none)
  (address : isAddress url = true)

include blockless in
theorem front_name (rest : Text) : Block.front ('<' :: (name ++ ' ' :: rest)) = none := by
  rw [Block.front_eq_none_iff, Text.afterFolded?_append_border (by decide), Text.afterFolded?_append_border (by decide),
    blockless.1, blockless.2]
  exact ⟨rfl, rfl⟩

include named blockless address in
theorem absent_front_fetching (absent : Pattern.Absent Block.front body) :
    Pattern.Absent Block.front (fetching name url body) :=
  absent_fetching address Block.front_of_ne (front_name blockless)
    (fun _ => Block.front_eq_none_iff.2 ⟨rfl, rfl⟩) Block.front_append_border (isElementName_parts named) absent

include named address in
theorem absent_capital_fetching (absent : Pattern.Absent Tag.capital body) :
    Pattern.Absent Tag.capital (fetching name url body) := by
  refine absent_fetching address Tag.capital_of_ne (fun rest => ?_)
    (fun _ => (Tag.capital_cons_angle _).2 rfl) Tag.capital_append_border (isElementName_parts named) absent
  cases name with
  | nil => cases named
  | cons c name =>
    rw [isElementName, Bool.and_eq_true] at named
    rw [List.cons_append, Tag.capital_cons_angle, List.head?_cons, Option.any_some]
    exact isUpper_of_isLower named.1

end Page

/-! ### Handlers -/

section Handlers

open Signal (Quiet)

variable {name url body : Text}

/-- In a body without handlers none starts, behind the tag that opens it and in front of the one that closes it. -/
theorem quiet_body {blocks : List Span} {html : Text} {offset : Nat} (unhandled : Pattern.Absent Signal.spacedHandler body)
    (more : Text) : Quiet blocks html offset (some '>') body ('<' :: more) := by
  intro part c after whole
  rw [Option.eq_none_iff_forall_ne_some]
  rintro ⟨event, rest⟩ starts
  obtain ⟨blank, found, -, -⟩ := Signal.handlerHere?_eq_some_iff.1 starts
  have reads : Signal.SpellsHandler (c :: after ++ '<' :: more) := by
    rw [Signal.spellsHandler_iff, found]
    exact Option.some_ne_none _
  have spelled := Signal.spellsHandler_of_border (by decide) reads
  rcases part.eq_nil_or_concat with rfl | ⟨earlier, d, rfl⟩
  · exact absurd blank (by decide)
  · rw [List.concat_eq_append, List.getLast?_concat, Option.some_or, Option.any_some] at blank
    have here := unhandled earlier d (c :: after) (by rw [whole]; simp)
    rw [List.append_nil, Signal.spacedHandler, if_pos blank] at here
    exact Signal.spellsHandler_iff.1 spelled here

theorem parts_fetching (named : isElementName name = true) (address : isAddress url = true)
    (spans : Block.spans (fetching name url body) = []) (unhandled : Pattern.Absent Signal.spacedHandler body) :
    Signal.parts (fetching name url body) = (fetching name url body).map Signal.Part.plain := by
  have solidName : ∀ c ∈ name, isBlank c = false :=
    fun c member => isBlank_of_isTagNamePart (isElementName_parts named c member)
  have solidUrl : ∀ c ∈ url, isBlank c = false := fun c member => ((address_of_isAddress address).2 c member).1
  have shape : fetching name url body =
      ('<' :: name) ++ ([' '] ++ (("fetch=\"" ++ url ++ ['"', '>']) ++ (body ++ ('<' :: '/' :: name ++ ['>'])))) := by
    simp [fetching, openTag, PlainAttribute.print, requestAttribute, PlainAttribute.gap, PlainAttribute.name,
      PlainAttribute.ending, Piece.print]
  have unread {offset : Nat} {last : Option Char} {c : Char} {text : Text} (other : c ≠ 'o') :
      Signal.handlerHere? [] (fetching name url body) offset last (c :: text) = none := by
    rw [Option.eq_none_iff_forall_ne_some]
    rintro ⟨event, rest⟩ starts
    have found := (Signal.handlerHere?_eq_some_iff.1 starts).2.1
    rw [Signal.handlerStart_of_ne other] at found
    cases found
  have quiet : Quiet [] (fetching name url body) 0 none (fetching name url body) [] := by
    conv => arg 5; rw [shape]
    refine Quiet.append ?_ (Quiet.append ?_ (Quiet.append ?_ (Quiet.append ?_ ?_)))
    · exact Signal.quiet_of_solid (List.forall_mem_cons.2 ⟨by decide, solidName⟩) (unread (by decide))
    · exact Signal.quiet_of_ne (by decide)
    · refine Signal.quiet_of_solid (fun c member => ?_) (unread (by decide))
      rcases List.mem_append.1 member with inFront | inEnd
      · rcases List.mem_append.1 inFront with word | inUrl
        · exact (by decide : ∀ c ∈ ("fetch=\"" : Text), isBlank c = false) c word
        · exact solidUrl c inUrl
      · exact (by decide : ∀ c ∈ ['"', '>'], isBlank c = false) c inEnd
    · rw [List.getLast?_append, show (['"', '>'] : Text).getLast? = some '>' from rfl, Option.some_or, Option.some_or]
      exact quiet_body unhandled _
    · refine Signal.quiet_of_solid (fun c member => ?_) (unread (by decide))
      simp only [List.cons_append, List.mem_cons, List.mem_append, List.not_mem_nil, or_false] at member
      rcases member with rfl | rfl | inName | rfl
      · decide
      · decide
      · exact solidName c inName
      · decide
  have parts := Signal.partsFrom_append quiet
  rw [List.append_nil, Signal.partsFrom, List.append_nil] at parts
  rw [Signal.parts, spans]
  exact parts

end Handlers

/-! ### Masking -/

section Masking

variable {html : Text} {spans : List Span}

theorem maskFrom_of_uncovered {offset : Nat} {text : Text}
    (outside : ∀ place, offset ≤ place → place < offset + text.length → covered spans place = false) (rest : Text) :
    maskFrom spans html offset (text ++ rest) = text ++ maskFrom spans html (offset + text.length) rest := by
  induction text generalizing offset with
  | nil => rfl
  | cons c text ih =>
    rw [List.length_cons] at outside
    have later := @ih (offset + 1) fun place behind before => outside place (by omega) (by omega)
    rw [List.cons_append, maskFrom, outside offset (Nat.le_refl _) (by omega), Bool.and_false, Bool.false_and,
      if_neg Bool.false_ne_true, later, List.length_cons, Nat.add_right_comm, Nat.add_assoc, List.cons_append]

theorem maskFrom_of_covered {offset : Nat} {text : Text}
    (inside : ∀ place, offset ≤ place → place < offset + text.length → covered spans place = true)
    (outside : ∀ place, insideComponentTag html place = false) (rest : Text) :
    maskFrom spans html offset (text ++ rest) = text.map maskChar ++ maskFrom spans html (offset + text.length) rest := by
  induction text generalizing offset with
  | nil => rfl
  | cons c text ih =>
    rw [List.length_cons] at inside
    have later := @ih (offset + 1) fun place behind before => inside place (by omega) (by omega)
    have here : (if (c == '\x7b' || c == '\x7d') && true && !false then maskChar c else c) = maskChar c := by
      rw [Bool.and_true, Bool.not_false, Bool.and_true]
      split
      · rfl
      · next plain => exact (maskChar_of_not_isBrace (Bool.not_eq_true _ ▸ plain)).symm
    rw [List.cons_append, maskFrom, inside offset (Nat.le_refl _) (by omega), outside offset]
    rw [here, later, List.length_cons, Nat.add_right_comm, Nat.add_assoc, List.map_cons, List.cons_append]

end Masking

/-! ### The passes over the element -/

theorem bodies_of_closed {html : Text} {start : Nat} {site : Site} {close : Span} (found : next? html start = some site)
    (opens : TagHead.closesItself site.head = false)
    (closed : Tag.close? html site.name site.bodyStart = some close) :
    bodies html start = (bodies html close.stop).map (⟨site.bodyStart, close.start⟩ :: ·) := by
  rw [bodies]
  split
  · next nothing =>
    rw [found] at nothing
    cases nothing
  · next other found' =>
    obtain rfl := Option.some.inj (found.symm.trans found')
    rw [opens, if_neg Bool.false_ne_true]
    split
    · next unclosed =>
      rw [closed] at unclosed
      cases unclosed
    · next close' closed' =>
      obtain rfl := Option.some.inj (closed.symm.trans closed')
      rfl

section Passes

variable {name url body : Text} (named : isElementName name = true) (address : isAddress url = true)
  (enclosed : IsEnclosed name body) (spans : Block.spans (fetching name url body) = [])

/-- The element as it is found on its page. -/
def site (name url body : Text) : Site := ⟨0, name, (requestAttribute url).print, body ++ (Piece.closing name).print⟩

theorem bodyStart_site (name url body : Text) :
    (site name url body).bodyStart = (openTag name (requestAttribute url).print).length := by
  simp only [Site.bodyStart, site, openTag, List.length_append, List.length_cons, List.length_nil]
  omega

include named address spans in
theorem next?_fetching : next? (fetching name url body) 0 = some (site name url body) := by
  cases name with
  | nil => cases named
  | cons c name =>
    simp only [isElementName, Bool.and_eq_true, List.all_eq_true] at named
    have whole : fetching (c :: name) url body =
        '<' :: (c :: name ++ ((requestAttribute url).print ++ '>' :: (body ++ (Piece.closing (c :: name)).print))) := by
      simp [fetching, openTag]
    have marked := @mark?_append Char.isLower isTagNamePart c name
      ((requestAttribute url).print ++ '>' :: (body ++ (Piece.closing (c :: name)).print)) named.1 named.2 rfl rfl 0
    rw [next?, elementMarks, spans, List.drop_zero, whole, marksFrom_cons]
    change siteOf? ((mark? Char.isLower isTagNamePart 0 _).toList ++ _) = _
    rw [marked, Option.toList_some, List.singleton_append, siteOf?]
    dsimp only
    rw [read?_request address]
    dsimp only
    rw [request?_request address]
    rfl

omit named in
theorem next?_end (html : Text) : next? html html.length = none := by
  rw [next?, elementMarks, List.drop_length]
  rfl

theorem named?_closing (name : Text) : Tag.named? name (Piece.closing name).print = some (true, ['>']) := by
  have closing : Text.after? (['<', '/'] ++ name) (Piece.closing name).print = some ['>'] :=
    Text.after?_append (['<', '/'] ++ name) ['>']
  rw [Tag.named?, closing]
  rfl

include named enclosed spans in
theorem close?_fetching : Tag.close? (fetching name url body) name (site name url body).bodyStart =
    some ⟨(site name url body).bodyStart + body.length, (fetching name url body).length⟩ := by
  have tagged := enclosed.tagged
  rw [tagMarks, Block.spans_of_front (Pattern.absent_of_seek? enclosed.unblocked)] at tagged
  have behind := closeFrom?_append named enclosed.nested tagged (by simp : '>' ∈ '/' :: name ++ ['>'])
    (site name url body).bodyStart
  have dropped : (fetching name url body).drop (site name url body).bodyStart = body ++ (Piece.closing name).print := by
    rw [bodyStart_site, fetching, List.drop_left]
  have stop : (site name url body).bodyStart + body.length + name.length + 0 + 3 = (fetching name url body).length := by
    simp only [bodyStart_site, fetching, Piece.print, List.length_append, List.length_cons, List.length_nil]
    omega
  have closing := named?_closing name
  have shape : (Piece.closing name).print = '<' :: ('/' :: name ++ ['>']) := rfl
  rw [shape] at closing dropped
  rw [Tag.close?, spans, dropped, behind, Tag.closeFrom?, covered_nil, if_neg Bool.false_ne_true, closing]
  dsimp only
  have cut : Text.cut? '>' ['>'] = some ([], []) := rfl
  rw [cut]
  dsimp only
  rw [if_pos (Nat.le_refl 1), List.length_nil, stop]

include named address enclosed spans in
theorem mask_fetching (capital : ∀ place, insideComponentTag (fetching name url body) place = false) :
    mask (fetching name url body) = .ok (fetching name url (body.map maskChar)) := by
  have bodies' : bodies (fetching name url body) 0 =
      .ok [⟨(site name url body).bodyStart, (site name url body).bodyStart + body.length⟩] := by
    rw [bodies_of_closed (next?_fetching named address spans) (closesItself_request url)
      (close?_fetching named enclosed spans), bodies_of_none (next?_end _)]
    rfl
  have covers (place : Nat) :
      covered [⟨(site name url body).bodyStart, (site name url body).bodyStart + body.length⟩] place =
        decide ((site name url body).bodyStart ≤ place ∧ place < (site name url body).bodyStart + body.length) := by
    simp [covered, Span.covers]
  have place := bodyStart_site name url body
  have masked (html : Text) (outside : ∀ place, insideComponentTag html place = false) :
      maskFrom [⟨(site name url body).bodyStart, (site name url body).bodyStart + body.length⟩] html 0
          (openTag name (requestAttribute url).print ++ (body ++ ((Piece.closing name).print ++ []))) =
        openTag name (requestAttribute url).print ++ (body.map maskChar ++ ((Piece.closing name).print ++ [])) := by
    rw [maskFrom_of_uncovered, maskFrom_of_covered _ outside, maskFrom_of_uncovered, maskFrom]
    all_goals
      intro at_ behind before
      rw [covers, place]
      simp only [decide_eq_true_eq, decide_eq_false_iff_not]
      omega
  rw [mask, bodies', Except.map]
  have whole := masked (fetching name url body) capital
  rw [List.append_nil] at whole
  exact congrArg Except.ok whole

end Passes

end Fetch

namespace Fetch

section Lowering

variable {name url body : Text} (named : isElementName name = true) (address : isAddress url = true)
  (enclosed : IsEnclosed name body) (spans : Block.spans (fetching name url body) = [])

include enclosed in
/-- A body holds no element that fetches. -/
theorem next?_body : next? body 0 = none := by
  have blockless := Block.spans_of_front (Pattern.absent_of_seek? enclosed.unblocked)
  have tagged := enclosed.tagged
  rw [tagMarks, blockless] at tagged
  rw [next?, elementMarks, blockless, List.drop_zero]
  exact siteOf?_of_plain fun mark member => tagged mark (mem_tagMarksFrom_of_mem_elementMarksFrom member)

include address enclosed in
/-- Writing the element draws an id and keeps the body. -/
theorem leadsTo_writeElement :
    (writeElement {} name (requestAttribute url).print body (Piece.closing name).print).LeadsTo (do
      let id ← Compile.nextId "gtml-fetch"
      pure (fetched name url body id)) := by
  have tokens := tokenize_request address
  have attrName : (requestAttribute url).scanned.name = "fetch" := rfl
  generalize (requestAttribute url).scanned = attr at tokens attrName
  have other {word : Text} (different : ("fetch" : Text) ≠ word) : Attribute.find? word [attr] = none := by
    rw [Attribute.find?, List.find?_cons_of_neg (by simpa [attrName] using different), List.find?_nil]
  have binding : bindingName [attr] = "data" := by
    rw [bindingName, other (by decide)]
    rfl
  have kept : keptAttributes [attr] = [] := by
    rw [keptAttributes, List.filter_cons_of_neg (by simp [attrName]), List.filter_nil, List.map_nil]
  have drawn : identify [attr] = (do
      let id ← Compile.nextId "gtml-fetch"
      pure (id, [("id=\"" ++ id ++ "\"" : Text)])) := by
    rw [identify, other (by decide), kept]
    rfl
  rw [writeElement, tokens, request?_request address, Option.getD_some, readRequest_address address, Compile.lift_ok,
    pure_bind, binding, drawn]
  dsimp only
  rw [show isScriptName "data" = true by decide, Bool.not_true, if_neg Bool.false_ne_true]
  simp only [bind_assoc, pure_bind]
  refine LeadsTo.nextId fun id => ?_
  refine LeadsTo.bind_pure (leadsTo_directivesFrom enclosed.tagged) (LeadsTo.note ?_ _)
  have written : "<" ++ name ++ " " ++ List.intercalate [' '] [("id=\"" ++ id ++ "\"" : Text)] ++ ">" ++ body ++
      (Piece.closing name).print ++ "\n" ++ ScriptTexts.fetchScript {} { id, method := "GET", url, binding := "data" } =
        fetched name url body id := by
    simp [fetched, openTag]
  dsimp only
  rw [written]
  exact LeadsTo.refl _

include named address enclosed spans in
theorem leadsTo_lower : (lower {} (fetching name url body)).LeadsTo (do
    let id ← Compile.nextId "gtml-fetch"
    pure (fetched name url body id)) := by
  have found := next?_fetching named address spans
  have closed := close?_fetching named enclosed spans
  have inside : Text.slice (fetching name url body) (site name url body).bodyStart
      ((site name url body).bodyStart + body.length) = body := by
    rw [Text.slice, bodyStart_site, fetching, ← List.append_assoc, ← List.length_append, List.take_left, List.drop_left]
  have behind : Text.slice (fetching name url body) ((site name url body).bodyStart + body.length)
      (fetching name url body).length = (Piece.closing name).print := by
    rw [Text.slice, bodyStart_site, List.take_length, fetching, ← List.append_assoc, ← List.length_append, List.drop_left]
  refine (lowerFrom_of_closed found (closesItself_request url) closed {}).trans ?_
  dsimp only
  rw [inside, behind]
  have kept := lowerFrom_of_none (next?_body enclosed) {}
  rw [List.drop_zero] at kept
  refine LeadsTo.bind_pure kept (((leadsTo_writeElement address enclosed).bind _).trans ?_)
  rw [bind_assoc]
  refine LeadsTo.nextId fun id => ?_
  rw [pure_bind]
  have ended := lowerFrom_of_none (next?_end (fetching name url body)) {}
  rw [List.drop_length] at ended
  refine LeadsTo.bind_pure ended ?_
  rw [show (site name url body).offset = 0 from rfl, List.append_nil]
  exact LeadsTo.refl _

end Lowering

/-! ### What comes back in the end -/

theorem unmask_append (first second : Text) : unmask (first ++ second) = unmask first ++ unmask second := List.map_append

theorem unmask_of_kept {text : Text} (kept : ∀ c ∈ text, unmaskChar c = c) : unmask text = text := by
  rw [unmask]
  conv => rhs; rw [← List.map_id text]
  exact List.map_congr_left kept

theorem kept_of_unmask {text : Text} (same : unmask text = text) : ∀ c ∈ text, unmaskChar c = c :=
  List.map_inj_left.1 ((same : text.map unmaskChar = text).trans (List.map_id text).symm)

theorem unmaskChar_of_isTagNamePart {c : Char} (part : isTagNamePart c = true) : unmaskChar c = c := by
  rw [unmaskChar, if_neg (ne_of_isTagNamePart part (by decide)), if_neg (ne_of_isTagNamePart part (by decide))]

end Fetch

namespace Text

/-- Quoting a text for a script adds nothing but escapes. -/
theorem mem_of_mem_scriptQuoted {text : Text} {c : Char} (member : c ∈ scriptQuoted text) :
    c ∈ ("\\n'r</" : Text) ∨ c ∈ text := by
  have wider {new : Text} (part : ∀ d ∈ new, d ∈ ("\\n'r</" : Text)) {inner : Text} (found : c ∈ new ∨ c ∈ inner)
      (next : c ∈ inner → c ∈ ("\\n'r</" : Text) ∨ c ∈ text) : c ∈ ("\\n'r</" : Text) ∨ c ∈ text :=
    found.elim (fun written => .inl (part c written)) next
  refine wider (by decide) (mem_of_mem_replace member) fun inReturn => ?_
  refine wider (by decide) (mem_of_mem_replaceChar inReturn) fun inBreak => ?_
  refine wider (by decide) (mem_of_mem_replaceChar inBreak) fun inQuote => ?_
  refine wider (by decide) (mem_of_mem_replaceChar inQuote) fun inSlash => ?_
  exact wider (by decide) (mem_of_mem_replaceChar inSlash) .inr

end Text

namespace ScriptTexts

theorem mem_of_mem_lines {parts : List Text} {c : Char} (member : c ∈ lines parts) : c = '\n' ∨ ∃ line ∈ parts, c ∈ line := by
  induction parts with
  | nil => cases member
  | cons line parts ih =>
    cases parts with
    | nil =>
      rw [lines, List.intercalate_singleton] at member
      exact .inr ⟨line, List.mem_cons_self, member⟩
    | cons other parts =>
      rw [lines, List.intercalate_cons_cons] at member
      rcases List.mem_append.1 member with inFront | later
      · rcases List.mem_append.1 inFront with inLine | inBreak
        · exact .inr ⟨line, List.mem_cons_self, inLine⟩
        · exact .inl (List.mem_singleton.1 inBreak)
      · refine (ih later).imp_right ?_
        rintro ⟨found, listed, inside⟩
        exact ⟨found, List.mem_cons_of_mem line listed, inside⟩

/-- A literal is looked at character by character. -/
theorem kept_of_spelled {text : String} {characters : List Char} (spelled : String.ofList characters = text)
    (kept : (characters.all fun c => Fetch.unmaskChar c == c) = true) : ∀ c ∈ text.toList, Fetch.unmaskChar c = c := by
  subst spelled
  rw [String.toList_ofList]
  intro c member
  exact beq_iff_eq.1 (List.all_eq_true.1 kept c member)

theorem kept_scriptQuoted {text : Text} (kept : ∀ c ∈ text, Fetch.unmaskChar c = c) :
    ∀ c ∈ Text.scriptQuoted text, Fetch.unmaskChar c = c := by
  intro c member
  rcases Text.mem_of_mem_scriptQuoted member with escape | inText
  · exact @kept_of_spelled "\\n'r</" _ rfl (by decide +kernel) c escape
  · exact kept c inText

set_option maxRecDepth 4000 in
/-- The bundled script of an element has no masked brace but in its URL. -/
theorem unmask_fetchScript {url : Text} (kept : Fetch.unmask url = url) :
    Fetch.unmask (fetchScript {} { id := "gtml-fetch-1", method := "GET", url, binding := "data" }) =
      fetchScript {} { id := "gtml-fetch-1", method := "GET", url, binding := "data" } := by
  have address := kept_scriptQuoted (Fetch.kept_of_unmask kept)
  have id := kept_scriptQuoted (@kept_of_spelled "gtml-fetch-1" _ rfl (by decide +kernel))
  obtain ⟨parts, whole, each⟩ : ∃ parts, bundledFetch { id := "gtml-fetch-1", method := "GET", url, binding := "data" } =
      lines parts ∧ ∀ line ∈ parts, ∀ c ∈ line, Fetch.unmaskChar c = c := by
    refine ⟨_, rfl, ?_⟩
    simp only [fetchHelpers, fetchFailure, List.map_cons, List.map_nil, if_true, List.forall_mem_append,
      List.forall_mem_cons]
    -- The lines are literals, but for the quoted id and the quoted URL.
    and_intros
    all_goals first
      | exact kept_of_spelled rfl (by decide +kernel)
      | exact address
      | exact id
      | exact List.forall_mem_nil _
  refine Fetch.unmask_of_kept fun c member => ?_
  rw [fetchScript, whole] at member
  rcases mem_of_mem_lines (Text.mem_of_mem_trim member) with rfl | ⟨line, listed, inLine⟩
  · decide
  · exact each line listed c inLine

end ScriptTexts

namespace Signal

theorem marker_append_quote (c : Char) (text more : Text) (nothing : marker (c :: text) = none) :
    marker (c :: text ++ '"' :: more) = none := by
  by_cases opens : c = markerOpen
  · subst opens
    have behind (rest : Text) : Text.after? [markerOpen] (markerOpen :: rest) = some rest := rfl
    rw [marker, behind, Option.bind_eq_bind, Option.bind_some] at nothing
    rw [List.cons_append, marker, behind, Option.bind_eq_bind, Option.bind_some, Pattern.run_append_border (by decide)]
    cases ran : Pattern.run (fun c => c.isAlphanum || c == '_') text with
    | none => rfl
    | some found =>
      obtain ⟨name, rest⟩ := found
      rw [ran, Option.bind_eq_bind, Option.bind_some] at nothing
      rw [Option.map_some, Option.bind_eq_bind, Option.bind_some]
      dsimp only at nothing ⊢
      rw [Text.after?_append_border (by decide)]
      cases closed : Text.after? [markerClose] rest with
      | none => rfl
      | some behind =>
        rw [closed] at nothing
        cases nothing
  · exact marker_of_ne c _ opens

end Signal

namespace Fetch

section Page

variable {name url body : Text} (named : isElementName name = true) (address : isAddress url = true)

theorem shown_of_isTagNamePart {c : Char} (part : isTagNamePart c = true) :
    Placeholder.isBrace c = false ∧ isReserved c = false := by
  have constant := isConstantPart_of_isMentionPart (isMentionPart_of_isTagNamePart part)
  simp only [isConstantPart, Bool.and_eq_true, Bool.not_eq_true'] at constant
  exact ⟨constant.1.1.2, constant.2⟩

theorem fetching_eq (name url body : Text) : fetching name url body =
    ('<' :: name ++ " fetch=\"") ++ (url ++ '"' :: ('>' :: body ++ ('<' :: '/' :: name ++ ['>']))) := by
  simp [fetching, openTag, PlainAttribute.print, requestAttribute, PlainAttribute.gap, PlainAttribute.name,
    PlainAttribute.ending, Piece.print]

include named address in
/-- With its body masked the element has no braces. -/
theorem isBrace_of_mem_fetching (masked : ∀ c ∈ body, Placeholder.isBrace c = false) :
    ∀ c ∈ fetching name url body, Placeholder.isBrace c = false := by
  have nameFree : ∀ c ∈ name, Placeholder.isBrace c = false :=
    fun c member => (shown_of_isTagNamePart (isElementName_parts named c member)).1
  have urlFree : ∀ c ∈ url, Placeholder.isBrace c = false :=
    fun c member => ((address_of_isAddress address).2 c member).2.2.1
  rw [fetching_eq]
  refine List.forall_mem_append.2 ⟨List.forall_mem_append.2 ⟨List.forall_mem_cons.2 ⟨rfl, nameFree⟩, by decide⟩, ?_⟩
  refine List.forall_mem_append.2 ⟨urlFree, List.forall_mem_cons.2 ⟨rfl, ?_⟩⟩
  refine List.forall_mem_append.2 ⟨List.forall_mem_cons.2 ⟨rfl, masked⟩, ?_⟩
  exact List.forall_mem_append.2
    ⟨List.forall_mem_cons.2 ⟨rfl, List.forall_mem_cons.2 ⟨rfl, nameFree⟩⟩, by decide⟩

include named in
/-- Where neither the URL nor the body marks a signal, the element does not. -/
theorem absent_marker_fetching (unmarked : Pattern.Absent Signal.marker url) (unmarkedBody : ∀ c ∈ body, c ≠ Signal.markerOpen) :
    Pattern.Absent Signal.marker (fetching name url body) := by
  have passed {text : Text} (free : ∀ c ∈ text, c ≠ Signal.markerOpen) (rest : Text) :
      Pattern.Passes Signal.marker text rest :=
    Pattern.passes_of_begins rest fun c member more => Signal.marker_of_ne c more (free c member)
  have nameFree : ∀ c ∈ name, c ≠ Signal.markerOpen :=
    fun c member => ne_of_isTagNamePart (isElementName_parts named c member) (by decide)
  rw [fetching_eq]
  refine Pattern.absent_append_iff.2 ⟨passed ?_ _, Pattern.absent_append_iff.2
    ⟨Pattern.passes_border Signal.marker_append_quote unmarked _, passed ?_ []⟩⟩
  · exact List.forall_mem_append.2 ⟨List.forall_mem_cons.2 ⟨by decide, nameFree⟩, by decide⟩
  · refine List.forall_mem_cons.2 ⟨by decide, List.forall_mem_append.2
      ⟨List.forall_mem_cons.2 ⟨by decide, unmarkedBody⟩, ?_⟩⟩
    exact List.forall_mem_append.2
      ⟨List.forall_mem_cons.2 ⟨by decide, List.forall_mem_cons.2 ⟨by decide, nameFree⟩⟩, by decide⟩

include named in
theorem unmask_fetched (kept : unmask url = url) (free : ∀ c ∈ body, isReserved c = false) :
    unmask (fetched name url (body.map maskChar) "gtml-fetch-1") = fetched name url body "gtml-fetch-1" := by
  have nameKept : ∀ c ∈ name, unmaskChar c = c :=
    fun c member => unmaskChar_of_isTagNamePart (isElementName_parts named c member)
  have opening : unmask (openTag name (" id=\"" ++ "gtml-fetch-1" ++ "\"")) = openTag name (" id=\"" ++ "gtml-fetch-1" ++ "\"") := by
    refine unmask_of_kept ?_
    rw [openTag]
    exact List.forall_mem_append.2
      ⟨List.forall_mem_append.2 ⟨List.forall_mem_cons.2 ⟨rfl, nameKept⟩, by decide⟩, by decide⟩
  have closing : unmask (Piece.closing name).print = (Piece.closing name).print :=
    unmask_of_kept (List.forall_mem_append.2
      ⟨List.forall_mem_cons.2 ⟨rfl, List.forall_mem_cons.2 ⟨rfl, nameKept⟩⟩, by decide⟩)
  have break_ (text : Text) : unmask ('\n' :: text) = '\n' :: unmask text := rfl
  rw [fetched, unmask_append, unmask_append, unmask_append, opening, unmask_map_maskChar free, closing, break_,
    ScriptTexts.unmask_fetchScript kept]
  rfl

end Page

end Fetch

section Survival

variable {name url body : Text} (named : Fetch.isElementName name = true)
  (blockless : Text.afterFolded? "script" name = none ∧ Text.afterFolded? "style" name = none)
  (address : Fetch.isAddress url = true) (sound : Fetch.IsBody name body)

include named blockless address sound in
/-- With its body masked the element passes through compilation up to the lowering of signals and requests. -/
theorem leadsTo_lower_fetching (registry : Registry) (strict : Bool) {limit : Int} (stack : ExpansionStack limit)
    (scope : Scope) :
    (compilePage { registry, strict } stack scope true (Fetch.fetching name url body)).LeadsTo (do
      let fetched ← Fetch.lower {} (Signal.resolve (Fetch.fetching name url (body.map Fetch.maskChar)))
      pure (Fetch.unmask fetched)) := by
  have masked := sound.toIsEnclosed.map_maskChar named
  have front := Fetch.absent_front_fetching named blockless address (Pattern.absent_of_seek? sound.unblocked)
  have capital := Fetch.absent_capital_fetching named address (Pattern.absent_of_seek? sound.uncapital)
  have maskedFront := Fetch.absent_front_fetching named blockless address (Pattern.absent_of_seek? masked.unblocked)
  have maskedCapital := Fetch.absent_capital_fetching named address (Pattern.absent_of_seek? masked.uncapital)
  have unscripted := Block.absent_of_front (fun _ => Block.signal_of_front) front
  have spans := Block.spans_of_front front
  have lowered : Signal.lower (Fetch.fetching name url body) scope = pure (Fetch.fetching name url body) :=
    Signal.lower_of_quiet (Pattern.values_of_absent unscripted) (Pattern.erase_of_absent unscripted)
      (Fetch.parts_fetching named address spans (Pattern.absent_of_seek? sound.unhandled)) scope
  have hidden : (Expansion.mask (Fetch.fetching name url body)).LeadsTo
      (pure (Fetch.fetching name url (body.map Fetch.maskChar))) := by
    refine LeadsTo.note ?_ _
    rw [Fetch.mask_fetching named address sound.toIsEnclosed spans (insideComponentTag_of_absent capital)]
    exact LeadsTo.refl _
  -- No brace is left, so neither a conditional nor a placeholder is found, and no component either.
  have braceless : ∀ offset < (Fetch.fetching name url (body.map Fetch.maskChar)).length,
      (Fetch.fetching name url (body.map Fetch.maskChar))[offset]? = some '\x7b' →
        covered (Block.spans (Fetch.fetching name url (body.map Fetch.maskChar))) offset = true := by
    intro offset _ brace
    have plain := @Fetch.isBrace_of_mem_fetching name url (body.map Fetch.maskChar) named address
      (fun c member => by
        obtain ⟨d, -, rfl⟩ := List.mem_map.1 member
        exact Fetch.isBrace_maskChar d) '\x7b' (List.mem_of_getElem? brace)
    cases plain
  have unsought : Conditional.seek? (Fetch.fetching name url (body.map Fetch.maskChar)) = none := by
    refine Conditional.seekFrom?_of_covered fun place within brace => ?_
    rw [Nat.zero_add]
    exact braceless place within brace
  have expanded : (Expansion.expandFrom { registry, strict } stack scope
      (Fetch.fetching name url (body.map Fetch.maskChar)) 0).LeadsTo
        (pure (Fetch.fetching name url (body.map Fetch.maskChar))) := by
    rw [Expansion.expandFrom_of_none (ComponentTag.next?_of_absent maskedCapital 0), List.drop_zero,
      Placeholder.substitute_of_covered braceless]
    exact LeadsTo.note (LeadsTo.refl _) _
  rw [compilePage, if_pos rfl, lowered, pure_bind]
  refine LeadsTo.bind_pure hidden ?_
  rw [Expansion.expand, Conditional.settle_of_none unsought, Compile.lift_ok, pure_bind]
  exact LeadsTo.bind_pure expanded (LeadsTo.refl _)

include named blockless address sound in
/-- Compiling the element masks its body, draws an id, writes the element and brings the braces back. -/
theorem leadsTo_compilePage_fetching (unmarked : Pattern.seek? Signal.marker url = none) (registry : Registry)
    (strict : Bool) {limit : Int} (stack : ExpansionStack limit) (scope : Scope) :
    (compilePage { registry, strict } stack scope true (Fetch.fetching name url body)).LeadsTo (do
      let id ← Compile.nextId "gtml-fetch"
      pure (Fetch.unmask (Fetch.fetched name url (body.map Fetch.maskChar) id))) := by
  have masked := sound.toIsEnclosed.map_maskChar named
  have maskedFront := Fetch.absent_front_fetching named blockless address (Pattern.absent_of_seek? masked.unblocked)
  have resolved : Signal.resolve (Fetch.fetching name url (body.map Fetch.maskChar)) =
      Fetch.fetching name url (body.map Fetch.maskChar) := by
    refine Pattern.replace_of_absent (Fetch.absent_marker_fetching named (Pattern.absent_of_seek? unmarked) ?_) _
    rintro c member rfl
    obtain ⟨d, inBody, same⟩ := List.mem_map.1 member
    have shown := sound.unreserved d inBody
    by_cases brace : Placeholder.isBrace d = true
    · simp only [Placeholder.isBrace, Bool.or_eq_true, beq_iff_eq] at brace
      rcases brace with rfl | rfl <;> exact absurd same (by decide)
    · rw [Fetch.maskChar_of_not_isBrace (Bool.eq_false_of_not_eq_true brace)] at same
      rw [same] at shown
      exact absurd shown (by decide)
  refine (leadsTo_lower_fetching named blockless address sound registry strict stack scope).trans ?_
  rw [resolved]
  refine ((Fetch.leadsTo_lower named address masked (Block.spans_of_front maskedFront)).bind _).trans ?_
  rw [bind_assoc]
  exact LeadsTo.refl _

/-- An element that fetches compiles to itself with an id and its script behind it: its body is unchanged character for
character, whatever stands between its braces, in every scope and over every registry. The URL is one word, and holds
neither a masked brace nor a marked signal. -/
theorem compileFresh_fetching {name url body : Text} (named : Fetch.isElementName name = true)
    (blockless : Text.afterFolded? "script" name = none ∧ Text.afterFolded? "style" name = none)
    (address : Fetch.isAddress url = true) (unmasked : Fetch.unmask url = url)
    (unmarked : Pattern.seek? Signal.marker url = none) (sound : Fetch.IsBody name body) (registry : Registry)
    (strict : Bool) (limit : Int) (scope : Scope) :
    ∃ notes, compileFresh { registry, strict } limit scope (Fetch.fetching name url body) =
      (.ok (Fetch.fetched name url body "gtml-fetch-1"), { ids := [("gtml-fetch", 1)], notes }) := by
  obtain ⟨notes, reached⟩ := leadsTo_compilePage_fetching named blockless address sound unmarked registry strict
    (ExpansionStack.empty limit) scope {}
  have drawn : Counters.next [] "gtml-fetch" = (("gtml-fetch-1" : Text), [(("gtml-fetch" : Text), 1)]) := by decide
  refine ⟨notes, reached.trans ?_⟩
  change (Except.ok (Fetch.unmask (Fetch.fetched name url (body.map Fetch.maskChar) (Counters.next [] "gtml-fetch").1)),
    ({ ids := (Counters.next [] "gtml-fetch").2, notes := [] ++ notes } : Page)) = _
  rw [drawn, List.nil_append, Fetch.unmask_fetched named unmasked sound.unreserved]

/-- Conditionals, elements in each other and attributes with braces, and a URL with an angle bracket. -/
theorem compileFresh_fetching_list :
    let body : Text := "<li title=\"\x7ba ? (b) : (c)\x7d\" hidden>\x7bx\x7d<ul>\x7b y ? ('<') \x7d</ul></li></Card> a < b"
    Fetch.IsBody "ul" body ∧
      ∃ notes, compileFresh {} 0 [("x", .int 1)] (Fetch.fetching "ul" "/items?a>1" body) =
        (.ok (Fetch.fetched "ul" "/items?a>1" body "gtml-fetch-1"), { ids := [("gtml-fetch", 1)], notes }) := by
  intro body
  have afters : (Fetch.tagMarks body).map Fetch.Mark.after =
      [(" title=\"\x7ba ? (b) : (c)\x7d\" hidden" ++ '>' :: body.drop 35 : Text), '>' :: body.drop 42] := by decide +kernel
  have sound : Fetch.IsBody "ul" body := {
    uncapital := by decide +kernel
    unblocked := by decide +kernel
    unhandled := by decide +kernel
    unreserved := by decide +kernel
    nested := by decide +kernel
    tagged := by
      intro mark member _
      have listed := List.mem_map_of_mem (f := Fetch.Mark.after) member
      rw [afters] at listed
      rcases List.mem_cons.1 listed with first | listed
      · refine ⟨_, _, ⟨[.quoted [' '] "title" [] [] '"' "\x7ba ? (b) : (c)\x7d", .bare [' '] "hidden"], [], ?_, ?_, ?_⟩, first⟩
        all_goals decide
      · refine ⟨[], body.drop 42, ⟨[], [], ?_, ?_, rfl⟩, List.mem_singleton.1 listed⟩
        all_goals decide }
  exact ⟨sound, compileFresh_fetching (by decide) (by decide) (by decide) (by decide) (by decide +kernel) sound {} false 0
    [("x", .int 1)]⟩

deriving instance DecidableEq for Fetch.Site

/-- A URL that holds a marked signal is not read back as one word. -/
theorem compileFresh_fetching_marker :
    let url : Text := "\ue002a\ue003"
    Fetch.isElementName "p" = true ∧
      (Text.afterFolded? "script" "p" = none ∧ Text.afterFolded? "style" "p" = none) ∧
      Fetch.isAddress url = true ∧ Fetch.IsBody "p" "x" ∧
      (compileFresh {} 64 [] (Fetch.fetching "p" url "x")).1 =
        .error (.fetchMethod "<span" "<span data-signal-value='a'></span>") := by
  have sound : Fetch.IsBody "p" "x" := {
    uncapital := rfl
    unblocked := rfl
    unhandled := rfl
    unreserved := by decide
    nested := by decide
    tagged := by
      have none : Fetch.tagMarks "x" = [] := List.eq_nil_of_length_eq_zero (by decide +kernel)
      rw [none]
      exact List.forall_mem_nil _ }
  have resolved : Signal.resolve (Fetch.fetching "p" "\ue002a\ue003" (("x" : Text).map Fetch.maskChar)) =
      "<p fetch=\"<span data-signal-value='a'></span>\">x</p>" := by decide +kernel
  have found : Fetch.next? "<p fetch=\"<span data-signal-value='a'></span>\">x</p>" 0 =
      some ⟨0, "p", " fetch=\"<span data-signal-value='a'></span>\"", "x</p>"⟩ := by decide +kernel
  have closed : Tag.close? "<p fetch=\"<span data-signal-value='a'></span>\">x</p>" "p" 47 = some ⟨48, 52⟩ := by
    decide +kernel
  have nothing : Fetch.next? "x" 0 = none := by decide +kernel
  have unread : Fetch.readRequest "<span data-signal-value='a'></span>" =
      .error (.fetchMethod "<span" "<span data-signal-value='a'></span>") := by decide +kernel
  have request : Fetch.request? " fetch=\"<span data-signal-value='a'></span>\"" =
      some ("<span data-signal-value='a'></span>" : Text) := by decide +kernel
  have unwritten (body closeTag : Text) :
      Fetch.writeElement {} "p" " fetch=\"<span data-signal-value='a'></span>\"" body closeTag =
        throw (.fetchMethod "<span" "<span data-signal-value='a'></span>") := by
    rw [Fetch.writeElement, request, Option.getD_some, unread]
    rfl
  have failed : (Fetch.lower {} "<p fetch=\"<span data-signal-value='a'></span>\">x</p>").LeadsTo
      (throw (.fetchMethod "<span" "<span data-signal-value='a'></span>")) := by
    refine (Fetch.lowerFrom_of_closed found (by decide +kernel) closed {}).trans ?_
    refine LeadsTo.bind_pure (Fetch.lowerFrom_of_none nothing {}) ?_
    rw [unwritten]
    exact LeadsTo.refl _
  obtain ⟨notes, reached⟩ := leadsTo_lower_fetching (by decide) (by decide)
    (by decide : Fetch.isAddress "\ue002a\ue003" = true) sound {} false (ExpansionStack.empty 64) [] {}
  rw [resolved] at reached
  obtain ⟨others, thrown⟩ := (failed.bind fun fetched => pure (Fetch.unmask fetched)) { notes := [] ++ notes }
  refine ⟨by decide, by decide, by decide, sound, ?_⟩
  exact congrArg Prod.fst (reached.trans thrown)

end Survival

end ComponentPages
