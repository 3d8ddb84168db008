import ComponentPages.Proofs.Fetch.Element
import ComponentPages.Proofs.Fetch.Survival

/-!
Lowering a forest of elements. Every fetch element becomes an element without a request, followed by its script; the ids
that are drawn differ from each other; and the text that comes out has nothing left to lower.
-/
namespace ComponentPages

namespace Fetch

/-! ### Sequences of tags -/

/-- An element that fetched, and its script. -/
def elementTokens (name : Text) (head : PlainHead) (marked : List Token) (tag : Token) (element : FetchElement) : List Token :=
  Token.opening name head :: (marked ++ [tag, .words "\n", .script element])

/-- A text with its fetch elements lowered, the ids drawn for elements and those drawn for loops. -/
inductive Rewritten : List Token → List Token → List Text → List Text → Prop
  | nil : Rewritten [] [] [] []
  | keep {token : Token} {tokens lowered : List Token} {ids loops : List Text} (quiet : token.fetches = false)
      (later : Rewritten tokens lowered ids loops) : Rewritten (token :: tokens) (token :: lowered) ids loops
  | single {name : Text} {head other : PlainHead} {element : FetchElement} {tokens lowered : List Token}
      {drawn ids loops : List Text} (closes : TagHead.closesItself head.print = true)
      (written : Written head other element drawn) (loopless : element.loops = [])
      (later : Rewritten tokens lowered ids loops) :
      Rewritten (Token.opening name head :: tokens) (elementTokens name other [] (.closing name) element ++ lowered)
        (drawn ++ ids) loops
  | paired {name : Text} {head other : PlainHead} {element : FetchElement} {tokens inner marked lowered : List Token}
      {found : Enclosure} {innerIds innerLoops drawn ids loops : List Text}
      (opens : TagHead.closesItself head.print = false) (closed : enclosure? name 1 tokens = some found)
      (inside : Rewritten found.inner inner innerIds innerLoops) (directed : Marked inner marked element.loops)
      (written : Written head other element drawn) (later : Rewritten found.rest lowered ids loops) :
      Rewritten (Token.opening name head :: tokens) (elementTokens name other marked found.tag element ++ lowered)
        (innerIds ++ drawn ++ ids) (innerLoops ++ element.loops.map Loop.templateId ++ loops)

theorem Alike.isSound {token other : Token} (alike : Alike token other) (sound : token.isSound = true) :
    other.isSound = true := by
  cases alike with
  | refl => exact sound
  | opening otherSound same =>
    simp only [Token.isSound, Bool.and_eq_true] at sound ⊢
    exact ⟨sound.1, otherSound⟩

theorem Alike.fetches {token other : Token} (alike : Alike token other) : other.fetches = token.fetches := by
  cases alike with
  | refl => rfl
  | opening otherSound same =>
    simp only [Token.fetches, Token.head?, Option.bind_some]
    rw [value?_of_identity same (.inl rfl)]

theorem Marked.exists_alike {tokens marked : List Token} {loops : List Loop} (directed : Marked tokens marked loops)
    {other : Token} (member : other ∈ marked) : ∃ token ∈ tokens, Alike token other := by
  obtain ⟨place, inside, rfl⟩ := List.mem_iff_getElem.1 member
  have size := directed.alike.length_eq
  exact ⟨tokens[place], List.getElem_mem _, directed.alike.get (by omega) inside⟩

theorem Written.fetches {head other : PlainHead} {element : FetchElement} {drawn : List Text}
    (written : Written head other element drawn) (name : Text) : (Token.opening name other).fetches = false := by
  rw [Token.fetches, Token.head?, Option.bind_some, written.quiet]
  rfl

theorem forall_mem_elementTokens {P : Token → Prop} {name : Text} {head : PlainHead} {marked : List Token} {tag : Token}
    {element : FetchElement} (opening : P (.opening name head)) (inside : ∀ token ∈ marked, P token) (closing : P tag)
    (line : P (.words "\n")) (script : P (.script element)) : ∀ token ∈ elementTokens name head marked tag element, P token := by
  simp only [elementTokens, List.forall_mem_cons, List.forall_mem_append]
  exact ⟨opening, inside, closing, line, script, List.forall_mem_nil P⟩

namespace Rewritten

variable {tokens lowered : List Token} {ids loops : List Text}

theorem keeps {before : List Token} (quiet : ∀ token ∈ before, token.fetches = false)
    (later : Rewritten tokens lowered ids loops) : Rewritten (before ++ tokens) (before ++ lowered) ids loops := by
  induction before with
  | nil => exact later
  | cons token before ih =>
    obtain ⟨here, rest⟩ := List.forall_mem_cons.1 quiet
    exact .keep here (ih rest)

theorem isSound (rewritten : Rewritten tokens lowered ids loops) (sound : ∀ token ∈ tokens, token.isSound = true) :
    ∀ token ∈ lowered, token.isSound = true := by
  induction rewritten with
  | nil => exact sound
  | keep _ _ ih =>
    obtain ⟨here, later⟩ := List.forall_mem_cons.1 sound
    exact List.forall_mem_cons.2 ⟨here, ih later⟩
  | single _ written _ _ ih =>
    obtain ⟨here, later⟩ := List.forall_mem_cons.1 sound
    simp only [Token.isSound, Bool.and_eq_true] at here
    refine List.forall_mem_append.2 ⟨forall_mem_elementTokens ?_ (List.forall_mem_nil _) ?_ (by decide) written.script, ih later⟩
    · rw [Token.isSound, here.1, written.sound]
      rfl
    · rw [Token.isSound, here.1]
      rfl
  | paired _ closed _ directed written _ ihInner ihLater =>
    obtain ⟨here, later⟩ := List.forall_mem_cons.1 sound
    simp only [Token.isSound, Bool.and_eq_true] at here
    rw [(enclosure?_eq_some (Nat.le_refl 1) closed).2] at later
    obtain ⟨inside, behind⟩ := List.forall_mem_append.1 later
    obtain ⟨tag, rest⟩ := List.forall_mem_cons.1 behind
    refine List.forall_mem_append.2 ⟨forall_mem_elementTokens ?_ ?_ tag (by decide) written.script, ihLater rest⟩
    · rw [Token.isSound, here.1, written.sound]
      rfl
    · intro other member
      obtain ⟨token, listed, alike⟩ := directed.exists_alike member
      exact alike.isSound (ihInner inside token listed)

/-- Nothing is left to lower. -/
theorem quiet (rewritten : Rewritten tokens lowered ids loops) : ∀ token ∈ lowered, token.fetches = false := by
  induction rewritten with
  | nil => exact List.forall_mem_nil _
  | keep quiet _ ih => exact List.forall_mem_cons.2 ⟨quiet, ih⟩
  | single _ written _ _ ih =>
    exact List.forall_mem_append.2 ⟨forall_mem_elementTokens (written.fetches _) (List.forall_mem_nil _) rfl rfl rfl, ih⟩
  | paired _ closed _ directed written _ ihInner ihLater =>
    obtain ⟨gap, tag⟩ := (enclosure?_eq_some (Nat.le_refl 1) closed).1
    refine List.forall_mem_append.2 ⟨forall_mem_elementTokens (written.fetches _) ?_ (by rw [tag]; rfl) rfl rfl, ihLater⟩
    intro other member
    obtain ⟨token, listed, alike⟩ := directed.exists_alike member
    rw [alike.fetches]
    exact ihInner token listed

theorem templatesOf_elementTokens (name : Text) (head : PlainHead) (marked : List Token) (gap : Text) (element : FetchElement) :
    templatesOf (elementTokens name head marked (.closing name gap) element) = templates head.scanned ++ templatesOf marked := by
  simp [elementTokens, Token.head?]

/-- The templates are those that were there and those that were drawn. -/
theorem templates (rewritten : Rewritten tokens lowered ids loops) :
    (templatesOf lowered).Perm (templatesOf tokens ++ loops) := by
  induction rewritten with
  | nil => exact List.Perm.refl _
  | keep _ _ ih =>
    rw [templatesOf_cons, templatesOf_cons, List.append_assoc]
    exact ih.append_left _
  | single _ written _ _ ih =>
    rw [templatesOf_append, templatesOf_elementTokens, templatesOf_cons, templatesOf_nil, List.append_nil, written.templates,
      List.append_assoc]
    exact ih.append_left _
  | @paired name head other element tokens inner marked lowered found innerIds innerLoops drawn ids loops _ closed _ directed
      written _ ihInner ihLater =>
    obtain ⟨⟨gap, tag⟩, whole⟩ := enclosure?_eq_some (Nat.le_refl 1) closed
    rw [whole, tag, templatesOf_append, templatesOf_elementTokens, templatesOf_cons, templatesOf_append, templatesOf_cons,
      written.templates]
    refine List.perm_iff_count.2 fun id => ?_
    have marking := List.perm_iff_count.1 directed.templates id
    have inside := List.perm_iff_count.1 ihInner id
    have later := List.perm_iff_count.1 ihLater id
    simp only [Token.head?, Option.elim_some, Option.elim_none, List.count_append, List.count_nil] at marking inside later ⊢
    omega

end Rewritten

/-- A text fetches nothing, or has a first tag that fetches. -/
theorem exists_first (tokens : List Token) :
    (∀ token ∈ tokens, token.fetches = false) ∨
      ∃ before name head rest, tokens = before ++ Token.opening name head :: rest ∧
        (∀ token ∈ before, token.fetches = false) ∧ (Token.opening name head).fetches = true := by
  induction tokens with
  | nil => exact .inl (List.forall_mem_nil _)
  | cons token tokens ih =>
    cases fetches : token.fetches with
    | true =>
      cases token with
      | words | closing | script => cases fetches
      | opening name head => exact .inr ⟨[], name, head, tokens, rfl, List.forall_mem_nil _, fetches⟩
    | false =>
      rcases ih with quiet | ⟨before, name, head, rest, rfl, quiet, found⟩
      · exact .inl (List.forall_mem_cons.2 ⟨fetches, quiet⟩)
      · exact .inr ⟨token :: before, name, head, rest, rfl, List.forall_mem_cons.2 ⟨fetches, quiet⟩, found⟩

/-! ### Running -/

/-- Where nothing is marked no loop starts. -/
theorem Marked.of_nil {marked : List Token} {loops : List Loop} (directed : Marked [] marked loops) : marked = [] ∧ loops = [] := by
  have none := List.forall₂_nil_left_iff.1 directed.alike
  refine ⟨none, ?_⟩
  have templates := directed.templates
  rw [none] at templates
  exact List.map_eq_nil_iff.1 (List.append_eq_nil_iff.1 templates.symm.eq_nil).2

theorem length_print_opening (name : Text) (head : PlainHead) :
    (Token.opening name head).print.length = name.length + head.print.length + 2 := by
  simp only [Token.print, openTag, List.length_append, List.length_cons, List.length_nil]
  omega

theorem bodyStart_printTokens (before : List Token) (name : Text) (head : PlainHead) (body : Text) :
    Site.bodyStart ⟨(printTokens before).length, name, head.print, body⟩ =
      (printTokens (before ++ [Token.opening name head])).length := by
  have size := length_print_opening name head
  rw [printTokens_append, List.length_append, printTokens_cons, printTokens_nil, List.append_nil, size, Site.bodyStart]
  dsimp only
  omega

theorem printTokens_elementTokens (name : Text) (head : PlainHead) (marked : List Token) (tag : Token)
    (element : FetchElement) :
    printTokens (elementTokens name head marked tag element) =
      openTag name head.print ++ printTokens marked ++ tag.print ++ "\n" ++ ScriptTexts.fetchScript {} element := by
  simp [elementTokens, Token.print]

section Steps

variable {front before rest : List Token} {name : Text} {head : PlainHead}
  (sound : ∀ token ∈ front ++ before ++ [Token.opening name head] ++ rest, token.isSound = true)
  (quiet : ∀ token ∈ before, token.fetches = false) (fetches : (Token.opening name head).fetches = true)

theorem split_opening (front before rest : List Token) (name : Text) (head : PlainHead) :
    front ++ before ++ [Token.opening name head] ++ rest = front ++ (before ++ Token.opening name head :: rest) := by
  simp

include sound quiet fetches in
theorem next?_opening : next? (printTokens (front ++ before ++ [Token.opening name head] ++ rest)) (printTokens front).length =
    some ⟨(printTokens (front ++ before)).length, name, head.print, printTokens rest⟩ := by
  rw [split_opening] at sound ⊢
  exact next?_of_fetches sound quiet fetches

include sound quiet fetches in
/-- An element that closes itself is written, and lowering goes on behind it. -/
theorem leadsTo_single (closes : TagHead.closesItself head.print = true) :
    (lowerFrom {} (printTokens (front ++ before ++ [Token.opening name head] ++ rest)) (printTokens front).length).LeadsTo (do
      let written ← writeElement {} name head.print (printTokens []) (Token.closing name).print
      let others ← lowerFrom {} (printTokens (front ++ before ++ [Token.opening name head] ++ rest))
        (printTokens (front ++ before ++ [Token.opening name head])).length
      pure (printTokens before ++ written ++ others)) := by
  have leads := lowerFrom_of_single (next?_opening sound quiet fetches) closes {}
  have copied := slice_printTokens front before (Token.opening name head :: rest)
  have closing : ("</" ++ name ++ ">" : Text) = (Token.closing name).print := by simp [Token.print, Tag.closeTag]
  rw [bodyStart_printTokens, closing] at leads
  dsimp only at leads
  rw [← split_opening] at copied
  rw [copied] at leads
  exact leads

include sound quiet fetches in
/-- A pair is written once its body is lowered, and lowering goes on behind the closing tag. -/
theorem leadsTo_paired (plain : ∀ token ∈ front ++ before ++ [Token.opening name head] ++ rest, token.isScript = false)
    (opens : TagHead.closesItself head.print = false) {closed : Enclosure} (enclosed : enclosure? name 1 rest = some closed) :
    (lowerFrom {} (printTokens (front ++ before ++ [Token.opening name head] ++ rest)) (printTokens front).length).LeadsTo (do
      let body ← lowerFrom {} (printTokens closed.inner) 0
      let written ← writeElement {} name head.print body closed.tag.print
      let others ← lowerFrom {} (printTokens (front ++ before ++ [Token.opening name head] ++ rest))
        (printTokens (front ++ before ++ [Token.opening name head] ++ (closed.inner ++ [closed.tag]))).length
      pure (printTokens before ++ written ++ others)) := by
  have isName : Tag.IsName name := by
    have here := sound (.opening name head) (by simp)
    simp only [Token.isSound, Bool.and_eq_true] at here
    exact Token.isName_of_isPlainName here.1
  have search := close?_printTokens isName sound plain
  have found := next?_opening sound quiet fetches
  have copied := slice_printTokens front before (Token.opening name head :: rest)
  rw [← split_opening] at copied
  obtain ⟨-, whole⟩ := enclosure?_eq_some (Nat.le_refl 1) enclosed
  rw [enclosed, ← bodyStart_printTokens (front ++ before) name head (printTokens rest)] at search
  have leads := lowerFrom_of_closed found opens search {}
  rw [bodyStart_printTokens] at leads
  subst whole
  generalize front ++ before ++ [Token.opening name head] = start at copied leads ⊢
  have inside := slice_printTokens start closed.inner (closed.tag :: closed.rest)
  have tag : Text.slice (printTokens (start ++ (closed.inner ++ closed.tag :: closed.rest)))
      (printTokens (start ++ closed.inner)).length (printTokens (start ++ (closed.inner ++ [closed.tag]))).length =
      closed.tag.print := by
    have tag := slice_printTokens (start ++ closed.inner) [closed.tag] closed.rest
    rw [List.append_assoc, List.append_assoc] at tag
    rw [printTokens_cons, printTokens_nil, List.append_nil] at tag
    exact tag
  have span : Enclosure.span (printTokens start).length closed =
      ⟨(printTokens (start ++ closed.inner)).length, (printTokens (start ++ (closed.inner ++ [closed.tag]))).length⟩ := by
    simp [Enclosure.span, Nat.add_assoc]
  rw [span] at leads
  dsimp only at leads
  rw [copied, inside, tag] at leads
  exact leads

end Steps

/-- Lowering a text of tags writes its elements again, from the inside out. -/
theorem run_lowerFrom {tokens front : List Token} (sound : ∀ token ∈ front ++ tokens, token.isSound = true)
    (plain : ∀ token ∈ front ++ tokens, token.isScript = false) {page after : Page} {text : Text}
    (ran : (lowerFrom {} (printTokens (front ++ tokens)) (printTokens front).length).run page = (.ok text, after)) :
    ∃ lowered ids loops, text = printTokens lowered ∧ Rewritten tokens lowered ids loops ∧
      Drawn page.ids after.ids (ids ++ loops) := by
  induction size : tokens.length using Nat.strong_induction_on generalizing tokens front page after text with
  | _ n ih =>
  rcases exists_first tokens with quiet | ⟨before, name, head, rest, rfl, quiet, fetches⟩
  · obtain ⟨noted, same, ran⟩ := (lowerFrom_of_none (next?_of_quiet sound quiet) {}).exists_run ran
    cases ran
    refine ⟨tokens, [], [], by rw [printTokens_append, List.drop_left], ?_, same ▸ .refl _⟩
    have kept := Rewritten.nil.keeps quiet
    rwa [List.append_nil] at kept
  · rw [← split_opening] at sound plain ran
    have restSize : rest.length < n := by
      rw [← size, List.length_append, List.length_cons]
      omega
    have here := sound (.opening name head) (by simp)
    simp only [Token.isSound, Bool.and_eq_true] at here
    cases closes : TagHead.closesItself head.print with
    | true =>
      obtain ⟨noted, same, ran⟩ := (leadsTo_single sound quiet fetches closes).exists_run ran
      obtain ⟨written, between, writes, ran⟩ := Compile.exists_of_run_bind ran
      obtain ⟨others, last, lowers, ran⟩ := Compile.exists_of_run_bind ran
      cases ran
      obtain ⟨lowered, ids, loops, rfl, rewritten, drawn⟩ := ih _ restSize sound plain lowers rfl
      obtain ⟨other, element, marked, drew, rfl, isWritten, directed, elementDrawn⟩ :=
        run_writeElement here.2 fetches (List.forall_mem_nil _) writes
      obtain ⟨rfl, loopless⟩ := directed.of_nil
      refine ⟨before ++ (elementTokens name other [] (.closing name) element ++ lowered), drew ++ ids, loops, ?_,
        .keeps quiet (.single closes isWritten loopless rewritten), ?_⟩
      · rw [← printTokens_elementTokens, printTokens_append, printTokens_append, List.append_assoc]
      · rw [loopless, List.map_nil, List.append_nil] at elementDrawn
        rw [List.append_assoc, ← same]
        exact elementDrawn.trans drawn
    | false =>
      cases enclosed : enclosure? name 1 rest with
      | none =>
        have search := close?_printTokens (Token.isName_of_isPlainName here.1) sound plain
        rw [← bodyStart_printTokens (front ++ before) name head (printTokens rest), enclosed] at search
        have found := next?_opening sound quiet fetches
        obtain ⟨noted, same, ran⟩ := (lowerFrom_of_unclosed found closes search {}).exists_run ran
        cases ran
      | some closed =>
        obtain ⟨⟨gap, tag⟩, whole⟩ := enclosure?_eq_some (Nat.le_refl 1) enclosed
        obtain ⟨noted, same, ran⟩ := (leadsTo_paired sound quiet fetches plain closes enclosed).exists_run ran
        obtain ⟨body, lowering, lowersBody, ran⟩ := Compile.exists_of_run_bind ran
        obtain ⟨written, between, writes, ran⟩ := Compile.exists_of_run_bind ran
        obtain ⟨others, last, lowers, ran⟩ := Compile.exists_of_run_bind ran
        cases ran
        have split : front ++ before ++ [Token.opening name head] ++ rest =
            front ++ before ++ [Token.opening name head] ++ (closed.inner ++ [closed.tag]) ++ closed.rest := by
          rw [whole]
          simp
        have innerListed : ∀ token ∈ closed.inner, token ∈ front ++ before ++ [Token.opening name head] ++ rest :=
          fun token member => by rw [whole]; simp [member]
        have innerSize : closed.inner.length < n := by
          rw [whole, List.length_append, List.length_cons] at restSize
          omega
        have behindSize : closed.rest.length < n := by
          rw [whole, List.length_append, List.length_cons] at restSize
          omega
        have innerSound := fun token member => sound token (innerListed token member)
        obtain ⟨inner, innerIds, innerLoops, rfl, innerRewritten, innerDrawn⟩ := ih _ innerSize
          (show ∀ token ∈ [] ++ closed.inner, token.isSound = true from innerSound) (fun token member => plain token (innerListed token member)) lowersBody rfl
        obtain ⟨other, element, marked, drew, rfl, isWritten, directed, elementDrawn⟩ :=
          run_writeElement here.2 fetches (innerRewritten.isSound innerSound) writes
        rw [split] at sound plain lowers
        obtain ⟨lowered, ids, loops, rfl, rewritten, drawn⟩ := ih _ behindSize sound plain lowers rfl
        refine ⟨before ++ (elementTokens name other marked closed.tag element ++ lowered), innerIds ++ drew ++ ids,
          innerLoops ++ element.loops.map Loop.templateId ++ loops, ?_,
          .keeps quiet (.paired closes enclosed innerRewritten directed isWritten rewritten), ?_⟩
        · rw [← printTokens_elementTokens, printTokens_append, printTokens_append, List.append_assoc]
        · rw [← same]
          refine ((innerDrawn.trans elementDrawn).trans drawn).perm ?_
          refine List.perm_iff_count.2 fun id => ?_
          simp only [List.count_append]
          omega

/-! ### Forests of elements -/

/-- Text with elements in it; each element comes with the text before it. A single element is void or closes itself. -/
inductive Markup where
  | done (words : Text)
  | single (words name : Text) (head : PlainHead) (rest : Markup)
  | paired (words name : Text) (head : PlainHead) (inner : Markup) (gap : Text) (rest : Markup)
deriving DecidableEq

namespace Markup

def tokens : Markup → List Token
  | done words => [.words words]
  | single words name head rest => .words words :: Token.opening name head :: rest.tokens
  | paired words name head inner gap rest =>
    .words words :: Token.opening name head :: (inner.tokens ++ .closing name gap :: rest.tokens)

def print (markup : Markup) : Text := printTokens markup.tokens

def isSound : Markup → Bool
  | done words => !words.elem '<'
  | single words name head rest =>
    !words.elem '<' && (isPlainName name && head.isSound) &&
      (RootElement.voidNames.contains name || TagHead.closesItself head.print) && rest.isSound
  | paired words name head inner gap rest =>
    !words.elem '<' && (isPlainName name && head.isSound) &&
      !(RootElement.voidNames.contains name || TagHead.closesItself head.print) && inner.isSound && gap.all isBlank &&
      rest.isSound

end Markup

/-- A forest with its fetch elements lowered: a script follows each of them. -/
inductive Lowered : Markup → List Token → List Text → List Text → Prop
  | done (words : Text) : Lowered (.done words) [.words words] [] []
  | keepSingle {words name : Text} {head : PlainHead} {rest : Markup} {lowered : List Token} {ids loops : List Text}
      (quiet : head.value? "fetch" = none) (later : Lowered rest lowered ids loops) :
      Lowered (.single words name head rest) (.words words :: Token.opening name head :: lowered) ids loops
  | single {words name : Text} {head other : PlainHead} {element : FetchElement} {rest : Markup} {lowered : List Token}
      {drawn ids loops : List Text} (written : Written head other element drawn) (loopless : element.loops = [])
      (later : Lowered rest lowered ids loops) :
      Lowered (.single words name head rest)
        (.words words :: (elementTokens name other [] (.closing name) element ++ lowered)) (drawn ++ ids) loops
  | keepPaired {words name gap : Text} {head : PlainHead} {inner rest : Markup} {inside lowered : List Token}
      {innerIds innerLoops ids loops : List Text} (quiet : head.value? "fetch" = none)
      (innerLowered : Lowered inner inside innerIds innerLoops) (later : Lowered rest lowered ids loops) :
      Lowered (.paired words name head inner gap rest)
        (.words words :: Token.opening name head :: (inside ++ .closing name gap :: lowered)) (innerIds ++ ids) (innerLoops ++ loops)
  | paired {words name gap : Text} {head other : PlainHead} {element : FetchElement} {inner rest : Markup}
      {inside marked lowered : List Token} {innerIds innerLoops drawn ids loops : List Text}
      (innerLowered : Lowered inner inside innerIds innerLoops) (directed : Marked inside marked element.loops)
      (written : Written head other element drawn) (later : Lowered rest lowered ids loops) :
      Lowered (.paired words name head inner gap rest)
        (.words words :: (elementTokens name other marked (.closing name gap) element ++ lowered))
        (innerIds ++ drawn ++ ids) (innerLoops ++ element.loops.map Loop.templateId ++ loops)

namespace Markup

theorem tokens_done_append (words : Text) (behind : List Token) : (done words).tokens ++ behind = .words words :: behind := rfl

theorem tokens_single_append (words name : Text) (head : PlainHead) (rest : Markup) (behind : List Token) :
    (single words name head rest).tokens ++ behind = .words words :: Token.opening name head :: (rest.tokens ++ behind) := rfl

theorem tokens_paired_append (words name : Text) (head : PlainHead) (inner : Markup) (gap : Text) (rest : Markup)
    (behind : List Token) :
    (paired words name head inner gap rest).tokens ++ behind =
      .words words :: Token.opening name head :: (inner.tokens ++ .closing name gap :: (rest.tokens ++ behind)) := by
  simp [tokens]

theorem isSound_tokens {markup : Markup} (sound : markup.isSound = true) : ∀ token ∈ markup.tokens, token.isSound = true := by
  induction markup with
  | done words => exact List.forall_mem_singleton.2 sound
  | single words name head rest ih =>
    simp only [isSound, Bool.and_eq_true] at sound
    obtain ⟨⟨⟨words, opening⟩, -⟩, rest⟩ := sound
    exact List.forall_mem_cons.2 ⟨words, List.forall_mem_cons.2 ⟨by rw [Token.isSound, opening.1, opening.2]; rfl, ih rest⟩⟩
  | paired words name head inner gap rest ihInner ihRest =>
    simp only [isSound, Bool.and_eq_true] at sound
    obtain ⟨⟨⟨⟨⟨words, opening⟩, -⟩, inner⟩, gap⟩, rest⟩ := sound
    refine List.forall_mem_cons.2 ⟨words, List.forall_mem_cons.2 ⟨by rw [Token.isSound, opening.1, opening.2]; rfl, ?_⟩⟩
    refine List.forall_mem_append.2 ⟨ihInner inner, List.forall_mem_cons.2 ⟨?_, ihRest rest⟩⟩
    rw [Token.isSound, opening.1, gap]
    rfl

theorem isScript_tokens (markup : Markup) : ∀ token ∈ markup.tokens, token.isScript = false := by
  induction markup with
  | done words => exact List.forall_mem_singleton.2 rfl
  | single words name head rest ih => exact List.forall_mem_cons.2 ⟨rfl, List.forall_mem_cons.2 ⟨rfl, ih⟩⟩
  | paired words name head inner gap rest ihInner ihRest =>
    refine List.forall_mem_cons.2 ⟨rfl, List.forall_mem_cons.2 ⟨rfl, ?_⟩⟩
    exact List.forall_mem_append.2 ⟨ihInner, List.forall_mem_cons.2 ⟨rfl, ihRest⟩⟩

/-- No void element is closed. -/
def Closable (tokens : List Token) : Prop := ∀ name gap, .closing name gap ∈ tokens → RootElement.voidNames.contains name = false

theorem closable_tokens {markup : Markup} (sound : markup.isSound = true) : Closable markup.tokens := by
  induction markup with
  | done words =>
    intro name gap member
    simp [tokens] at member
  | single words name head rest ih =>
    simp only [isSound, Bool.and_eq_true] at sound
    intro other gap member
    simp only [tokens, List.mem_cons, reduceCtorEq, false_or] at member
    exact ih sound.2 other gap member
  | paired words name head inner gap rest ihInner ihRest =>
    simp only [isSound, Bool.and_eq_true, Bool.not_eq_true', Bool.or_eq_false_iff] at sound
    obtain ⟨⟨⟨⟨-, closed⟩, inner⟩, -⟩, rest⟩ := sound
    intro other space member
    simp only [tokens, List.mem_cons, reduceCtorEq, false_or, List.mem_append, Token.closing.injEq] at member
    rcases member with inInner | ⟨rfl, rfl⟩ | inRest
    · exact ihInner inner other space inInner
    · exact closed.1
    · exact ihRest rest other space inRest

/-- A forest leaves the number of open elements as it is. -/
theorem enclosure?_tokens {markup : Markup} (sound : markup.isSound = true) {name : Text}
    (closes : RootElement.voidNames.contains name = false) {depth : Nat} (inside : 1 ≤ depth) {tag : Token}
    {inner rest tokens : List Token} (closed : enclosure? name depth tokens = some ⟨inner, tag, rest⟩) :
    enclosure? name depth (markup.tokens ++ tokens) = some ⟨markup.tokens ++ inner, tag, rest⟩ := by
  have step {token : Token} {depth after : Nat} {tokens inner : List Token} (becomes : token.depthAfter name depth = after)
      (inside : 1 ≤ after) (closed : enclosure? name after tokens = some ⟨inner, tag, rest⟩) :
      enclosure? name depth (token :: tokens) = some ⟨token :: inner, tag, rest⟩ := by
    rw [enclosure?, becomes, if_neg (by omega), closed]
    rfl
  induction markup generalizing depth tokens inner with
  | done words => exact step rfl inside closed
  | single words other head later ih =>
    simp only [isSound, Bool.and_eq_true, Bool.or_eq_true] at sound
    have kept : (Token.opening other head).depthAfter name depth = depth := by
      rw [Token.depthAfter, if_neg]
      rintro ⟨rfl, opens⟩
      rcases sound.1.2 with void | single
      · rw [closes] at void
        cases void
      · rw [opens] at single
        cases single
    exact step rfl inside (step kept inside (ih sound.2 inside closed))
  | paired words other head within gap later ihInner ihLater =>
    simp only [isSound, Bool.and_eq_true, Bool.not_eq_true', Bool.or_eq_false_iff] at sound
    obtain ⟨⟨⟨⟨-, -, opens⟩, within'⟩, -⟩, later'⟩ := sound
    have behind := ihLater later' inside closed
    rw [tokens_paired_append, tokens_paired_append]
    refine step rfl inside ?_
    -- The pair raises the number for what is in it if it has the name that is searched for, and lowers it again.
    by_cases same : other = name
    · have raised : (Token.opening other head).depthAfter name depth = depth + 1 := if_pos ⟨same, opens⟩
      have lowered : (Token.closing other gap).depthAfter name (depth + 1) = depth := if_pos same
      have deeper : 1 ≤ depth + 1 := Nat.le_add_left 1 depth
      exact step raised deeper (ihInner within' deeper (step lowered inside behind))
    · have kept : (Token.opening other head).depthAfter name depth = depth := if_neg fun both => same both.1
      have still : (Token.closing other gap).depthAfter name depth = depth := if_neg same
      exact step kept inside (ihInner within' inside (step still inside behind))

end Markup

theorem Rewritten.words {text : Text} {tokens lowered : List Token} {ids loops : List Text}
    (rewritten : Rewritten (.words text :: tokens) lowered ids loops) :
    ∃ later, lowered = .words text :: later ∧ Rewritten tokens later ids loops := by
  cases rewritten with
  | keep _ later => exact ⟨_, rfl, later⟩

theorem Rewritten.closing {name gap : Text} {tokens lowered : List Token} {ids loops : List Text}
    (rewritten : Rewritten (.closing name gap :: tokens) lowered ids loops) :
    ∃ later, lowered = .closing name gap :: later ∧ Rewritten tokens later ids loops := by
  cases rewritten with
  | keep _ later => exact ⟨_, rfl, later⟩

theorem value?_of_quiet {name : Text} {head : PlainHead} (quiet : (Token.opening name head).fetches = false) :
    head.value? "fetch" = none :=
  Option.not_isSome_iff_eq_none.1 (Bool.not_eq_true _ ▸ quiet)

/-- A forest is lowered, and then what stands behind it. -/
theorem exists_lowered {markup : Markup} (sound : markup.isSound = true) {behind lowered : List Token}
    (closable : Markup.Closable behind) {ids loops : List Text} (rewritten : Rewritten (markup.tokens ++ behind) lowered ids loops) :
    ∃ first second firstIds secondIds firstLoops secondLoops, lowered = first ++ second ∧ ids = firstIds ++ secondIds ∧
      loops = firstLoops ++ secondLoops ∧ Lowered markup first firstIds firstLoops ∧
      Rewritten behind second secondIds secondLoops := by
  induction markup generalizing behind lowered ids loops with
  | done words =>
    rw [Markup.tokens_done_append] at rewritten
    obtain ⟨later, rfl, others⟩ := rewritten.words
    exact ⟨_, later, [], ids, [], loops, rfl, rfl, rfl, .done words, others⟩
  | single words name head rest ih =>
    simp only [Markup.isSound, Bool.and_eq_true, Bool.or_eq_true] at sound
    rw [Markup.tokens_single_append] at rewritten
    obtain ⟨later, rfl, opening⟩ := rewritten.words
    cases opening with
    | keep quiet later =>
      obtain ⟨first, second, firstIds, secondIds, firstLoops, secondLoops, rfl, rfl, rfl, isLowered, others⟩ :=
        ih sound.2 closable later
      exact ⟨_, second, firstIds, secondIds, firstLoops, secondLoops, rfl, rfl, rfl,
        .keepSingle (value?_of_quiet quiet) isLowered, others⟩
    | @single _ _ _ _ _ _ drawn _ _ _ written loopless later =>
      obtain ⟨first, second, firstIds, secondIds, firstLoops, secondLoops, rfl, rfl, rfl, isLowered, others⟩ :=
        ih sound.2 closable later
      exact ⟨_, second, drawn ++ firstIds, secondIds, firstLoops, secondLoops, by simp, by simp, rfl,
        .single written loopless isLowered, others⟩
    | paired opens closed =>
      -- Nothing closes a void element.
      obtain ⟨⟨gap, tag⟩, whole⟩ := enclosure?_eq_some (Nat.le_refl 1) closed
      have void : RootElement.voidNames.contains name = true := by
        rcases sound.1.2 with void | closes
        · exact void
        · rw [opens] at closes
          cases closes
      have member : Token.closing name gap ∈ rest.tokens ++ behind := by
        rw [whole, tag]
        simp
      rcases List.mem_append.1 member with inRest | inBehind
      · rw [Markup.closable_tokens sound.2 name gap inRest] at void
        cases void
      · rw [closable name gap inBehind] at void
        cases void
  | paired words name head inner gap rest ihInner ihRest =>
    simp only [Markup.isSound, Bool.and_eq_true, Bool.not_eq_true', Bool.or_eq_false_iff] at sound
    obtain ⟨⟨⟨⟨-, closes, opens⟩, innerSound⟩, -⟩, restSound⟩ := sound
    rw [Markup.tokens_paired_append] at rewritten
    obtain ⟨later, rfl, opening⟩ := rewritten.words
    have restClosable : Markup.Closable (.closing name gap :: (rest.tokens ++ behind)) := by
      intro other space member
      simp only [List.mem_cons, List.mem_append, Token.closing.injEq] at member
      rcases member with ⟨rfl, rfl⟩ | inRest | inBehind
      · exact closes
      · exact Markup.closable_tokens restSound other space inRest
      · exact closable other space inBehind
    cases opening with
    | keep quiet later =>
      obtain ⟨inside, after, innerIds, afterIds, innerLoops, afterLoops, rfl, rfl, rfl, innerLowered, closing⟩ :=
        ihInner innerSound restClosable later
      obtain ⟨later, rfl, others⟩ := closing.closing
      obtain ⟨first, second, firstIds, secondIds, firstLoops, secondLoops, rfl, rfl, rfl, isLowered, others⟩ :=
        ihRest restSound closable others
      exact ⟨_, second, innerIds ++ firstIds, secondIds, innerLoops ++ firstLoops, secondLoops, by simp, by simp, by simp,
        .keepPaired (value?_of_quiet quiet) innerLowered isLowered, others⟩
    | single itself =>
      rw [opens] at itself
      cases itself
    | @paired _ _ _ element _ _ _ _ found _ _ drawn _ _ _ closed inside directed written later =>
      have own : enclosure? name 1 (.closing name gap :: (rest.tokens ++ behind)) =
          some ⟨[], .closing name gap, rest.tokens ++ behind⟩ := by
        rw [enclosure?, Token.depthAfter, if_pos rfl, if_pos rfl]
      have passed := Markup.enclosure?_tokens innerSound closes (Nat.le_refl 1) own
      rw [List.append_nil] at passed
      obtain rfl := Option.some.inj (closed.symm.trans passed)
      rw [← List.append_nil inner.tokens] at inside
      obtain ⟨first, none, innerIds, noIds, innerLoops, noLoops, rfl, rfl, rfl, innerLowered, nothing⟩ :=
        ihInner innerSound (by intro other space member; cases member) inside
      cases nothing
      obtain ⟨first, second, firstIds, secondIds, firstLoops, secondLoops, rfl, rfl, rfl, isLowered, others⟩ :=
        ihRest restSound closable later
      rw [List.append_nil] at directed
      exact ⟨_, second, innerIds ++ drawn ++ firstIds, secondIds,
        innerLoops ++ element.loops.map Loop.templateId ++ firstLoops, secondLoops, by simp, by simp, by simp,
        .paired innerLowered directed written isLowered, others⟩

/-- A result in which every fetch element is lowered and which is lowered no further. -/
structure Settled (markup : Markup) (result : Text) (tokens : List Token) (ids loops : List Text) : Prop where
  printed : result = printTokens tokens
  lowered : Lowered markup tokens ids loops
  sound : ∀ token ∈ tokens, token.isSound = true
  quiet : ∀ token ∈ tokens, token.fetches = false
  templates : (templatesOf tokens).Perm (templatesOf markup.tokens ++ loops)
  distinct : (ids ++ loops).Nodup
  sought : next? result 0 = none
  again : ∀ page : Page, ∃ after : Page, (lower {} result).run page = (.ok result, after) ∧ after.ids = page.ids

theorem again_of_sought {html : Text} (sought : next? html 0 = none) (page : Page) :
    ∃ after : Page, (lower {} html).run page = (.ok html, after) ∧ after.ids = page.ids := by
  obtain ⟨notes, reached⟩ := lowerFrom_of_none sought {} page
  exact ⟨{ page with notes := page.notes ++ notes }, reached, rfl⟩

/-- What lowering gives for a forest of elements has a script behind each element that fetched, no element that fetches, and
no id twice among those that were drawn. Lowering it again gives the same and draws no id. -/
theorem settled_lower {markup : Markup} (sound : markup.isSound = true) {page after : Page} {result : Text}
    (ran : (lower {} markup.print).run page = (.ok result, after)) :
    ∃ tokens ids loops, Settled markup result tokens ids loops := by
  have tokensSound := Markup.isSound_tokens sound
  obtain ⟨tokens, ids, loops, rfl, rewritten, drawn⟩ :=
    @run_lowerFrom markup.tokens [] tokensSound markup.isScript_tokens _ _ _ ran
  have lowered : Lowered markup tokens ids loops := by
    have whole := rewritten
    rw [← List.append_nil markup.tokens] at whole
    obtain ⟨first, none, firstIds, noIds, firstLoops, noLoops, rfl, rfl, rfl, lowered, nothing⟩ :=
      exists_lowered sound (by intro name gap member; cases member) whole
    cases nothing
    rw [List.append_nil, List.append_nil, List.append_nil]
    exact lowered
  have sought := @next?_of_quiet _ [] (rewritten.isSound tokensSound) rewritten.quiet
  exact ⟨tokens, ids, loops, rfl, lowered, rewritten.isSound tokensSound, rewritten.quiet, rewritten.templates, drawn.nodup,
    sought, again_of_sought sought⟩

/-- A paragraph that fetches. -/
def fetchingParagraph : Markup := .paired [] "p" ⟨[requestAttribute "/x"], []⟩ (.done "hi") [] (.done [])

theorem settled_lower_fetchingParagraph :
    fetchingParagraph.isSound = true ∧ fetchingParagraph.print = "<p fetch=\"/x\">hi</p>" ∧
      (∃ after, (lower {} fetchingParagraph.print).run {} = (.ok (fetched "p" "/x" "hi" "gtml-fetch-1"), after)) ∧
      ∃ tokens ids loops, Settled fetchingParagraph (fetched "p" "/x" "hi" "gtml-fetch-1") tokens ids loops := by
  have sound : fetchingParagraph.isSound = true := by decide
  have printed : fetchingParagraph.print = fetching "p" "/x" "hi" := by decide
  have spans : Block.spans (fetching "p" "/x" "hi") = [] := by
    rw [← printed]
    exact (spans_printTokens (Markup.isSound_tokens sound)).trans (scriptSpans_of_plain fetchingParagraph.isScript_tokens 0)
  have untagged : tagMarks "hi" = [] := @tagMarks_printTokens [.words "hi"] (by decide)
  have enclosed : IsEnclosed "p" "hi" :=
    ⟨by decide, by decide, by decide, by rw [untagged]; exact List.forall_mem_nil _⟩
  have first : (Counters.next [] "gtml-fetch").1 = "gtml-fetch-1" := by decide
  obtain ⟨notes, ran⟩ := leadsTo_lower (by decide) (by decide) enclosed spans {}
  rw [← printed, Compile.run_bind, Compile.run_nextId] at ran
  dsimp only at ran
  rw [first] at ran
  exact ⟨sound, by decide, ⟨_, ran⟩, settled_lower sound ran⟩

/-- A paragraph with two fetch attributes, of which the first has no value. -/
def repeated : Markup :=
  .paired [] "p" ⟨[.bare [' '] "fetch", .quoted [' '] "fetch" [] [] '"' "/x"], []⟩ (.done []) [] (.done [])

/-- Only the first fetch attribute counts, so the second one stays where it is. -/
theorem lower_repeated :
    repeated.isSound = true ∧ repeated.print = "<p fetch fetch=\"/x\"></p>" ∧
      (∃ after, (lower {} repeated.print).run {} = (.ok repeated.print, after)) ∧
      ∃ head, Token.opening "p" head ∈ repeated.tokens ∧
        ∃ attr ∈ Attribute.tokenize head.print, attr.name = "fetch" ∧ attr.text? = some "/x" := by
  have sound : repeated.isSound = true := by decide
  have sought := @next?_of_quiet _ [] (Markup.isSound_tokens sound) (by decide)
  obtain ⟨after, ran, -⟩ := again_of_sought sought {}
  refine ⟨sound, by decide, ⟨after, ran⟩, ⟨[.bare [' '] "fetch", .quoted [' '] "fetch" [] [] '"' "/x"], []⟩, by decide, ?_⟩
  rw [PlainHead.tokenize_print (by decide)]
  exact ⟨(PlainAttribute.quoted [' '] "fetch" [] [] '"' "/x").scanned, by decide, rfl, rfl⟩

end Fetch

end ComponentPages
