import ComponentPages.Attribute
import ComponentPages.Markup.ComponentTag

/-!
Fetch elements in page text: elements with a valued `fetch` attribute. Their bodies are for the browser, so the
braces in them are masked while a page is compiled. A component tag inside keeps its braces, since its
arguments belong to the compilation.
-/
namespace ComponentPages

namespace Fetch

/-- A place where an element's tag begins, with what follows its name. -/
structure Mark where
  offset : Nat
  name : Text
  after : Text

/-- Reads `<` and a name that ends there; the classes tell which characters may begin and continue it. -/
def mark? (first part : Char → Bool) (offset : Nat) : Text → Option Mark
  | '<' :: c :: tail =>
    if first c && Tag.nameEnds (tail.dropWhile part) then
      some ⟨offset, c :: tail.takeWhile part, tail.dropWhile part⟩
    else none
  | _ => none

/-- The marks outside script and style blocks. -/
def marksFrom (first part : Char → Bool) (blocks : List Span) (offset : Nat) : Text → List Mark
  | [] => []
  | c :: rest =>
    match if covered blocks offset then none else mark? first part offset (c :: rest) with
    | some mark => mark :: marksFrom first part blocks (offset + 1) rest
    | none => marksFrom first part blocks (offset + 1) rest

/-- The tags of elements with a lower-case name, from an offset on. -/
def elementMarks (html : Text) (start : Nat) : List Mark :=
  marksFrom Char.isLower (fun c => c.isAlphanum || c == '-') (Block.spans html) start (html.drop start)

/-- The tags of elements with any name. -/
def tagMarks (html : Text) : List Mark :=
  marksFrom Char.isAlpha isSlugPart (Block.spans html) 0 html

/-- An element's open tag and what follows it. -/
structure Site where
  offset : Nat
  name : Text
  head : Text
  body : Text

namespace Site

/-- Where the body starts. -/
def bodyStart (site : Site) : Nat := site.offset + site.name.length + site.head.length + 2

def attributes (site : Site) : List Attribute := Attribute.tokenize site.head

end Site

/-- The value of the `fetch` attribute, where there is one. -/
def request? (head : Text) : Option Text :=
  (Attribute.find? "fetch" (Attribute.tokenize head)).bind Attribute.text?

/-- The first tag with a valued `fetch` attribute. A tag that does not end stops the search. -/
def siteOf? : List Mark → Option Site
  | [] => none
  | mark :: rest =>
    match TagHead.read? mark.after with
    | none => none
    | some (head, body) =>
      if (request? head).isSome then some ⟨mark.offset, mark.name, head, body⟩ else siteOf? rest

/-- The heads that `siteOf?` reads. -/
def headsRead : List Mark → List Text
  | [] => []
  | mark :: rest =>
    match TagHead.read? mark.after with
    | none => []
    | some (head, _) => head :: (if (request? head).isSome then [] else headsRead rest)

/-- The first fetch element at or after an offset. -/
def next? (html : Text) (start : Nat) : Option Site := siteOf? (elementMarks html start)

theorem bounds_of_mem_marksFrom {first part : Char → Bool} {blocks : List Span} {offset : Nat} {text : Text}
    {mark : Mark} (member : mark ∈ marksFrom first part blocks offset text) :
    offset ≤ mark.offset ∧ mark.offset + 1 + mark.name.length + mark.after.length = offset + text.length := by
  induction text generalizing offset with
  | nil => simp [marksFrom] at member
  | cons c rest ih =>
    unfold marksFrom at member
    simp only [List.length_cons]
    split at member
    · next found read =>
      have marked : mark? first part offset (c :: rest) = some found := by
        split at read
        · simp at read
        · exact read
      rcases List.mem_cons.1 member with rfl | later
      · unfold mark? at marked
        split at marked
        · next d tail whole =>
          split at marked
          · obtain rfl := Option.some.inj marked
            have sizes := congrArg List.length (List.takeWhile_append_dropWhile (p := part) (l := tail))
            have same := congrArg List.length whole
            simp only [List.length_append, List.length_cons] at sizes same ⊢
            omega
          · simp at marked
        · simp at marked
      · have bound := ih later
        omega
    · have bound := ih member
      omega

theorem bounds_of_siteOf? {marks : List Mark} {site : Site} (found : siteOf? marks = some site) :
    ∃ mark ∈ marks, site.offset = mark.offset ∧
      mark.after.length = site.head.length + 1 + site.body.length ∧ site.name = mark.name := by
  induction marks with
  | nil => simp [siteOf?] at found
  | cons mark rest ih =>
    unfold siteOf? at found
    split at found
    · simp at found
    · next head body read =>
      have size := congrArg List.length (TagHead.eq_of_split? read)
      simp only [List.length_append, List.length_cons] at size
      split at found
      · obtain rfl := Option.some.inj found
        refine ⟨mark, List.mem_cons_self, rfl, ?_, rfl⟩
        dsimp only
        omega
      · obtain ⟨other, member, facts⟩ := ih found
        exact ⟨other, List.mem_cons_of_mem _ member, facts⟩

/-- The search moves on, and the body of what it finds lies in the text. -/
theorem bounds_of_next? {html : Text} {start : Nat} {site : Site} (found : next? html start = some site) :
    start < site.bodyStart ∧ site.bodyStart + site.body.length = html.length := by
  obtain ⟨mark, member, place, size, name⟩ := bounds_of_siteOf? found
  have bounds := bounds_of_mem_marksFrom member
  have within : start ≤ html.length := by
    rcases Nat.lt_or_ge html.length start with beyond | inside
    · have empty : html.drop start = [] := List.drop_eq_nil_of_le (Nat.le_of_lt beyond)
      rw [elementMarks, empty] at member
      simp [marksFrom] at member
    · exact inside
  simp only [List.length_drop] at bounds
  simp only [Site.bodyStart, name, place]
  omega

/-- The bodies of the outermost fetch elements. An element that closes itself has none. -/
def bodies (html : Text) (start : Nat) : Except Failure (List Span) :=
  match _found : next? html start with
  | none => .ok []
  | some site =>
    have _bounds := bounds_of_next? _found
    if TagHead.closesItself site.head then bodies html site.bodyStart
    else
      match _closed : Tag.close? html site.name site.bodyStart with
      | none => .error (.unclosedFetch site.name)
      | some close =>
        have _inside := Tag.bounds_of_closeFrom? _closed
        (bodies html close.stop).map (⟨site.bodyStart, close.start⟩ :: ·)
termination_by html.length + 1 - start
decreasing_by
  · omega
  · simp only [List.length_drop] at _inside
    omega

/-- The heads that `bodies` reads before it fails or ends. -/
def bodiesHeads (html : Text) (start : Nat) : List Text :=
  headsRead (elementMarks html start) ++
    match _found : next? html start with
    | none => []
    | some site =>
      have _bounds := bounds_of_next? _found
      if TagHead.closesItself site.head then bodiesHeads html site.bodyStart
      else
        match _closed : Tag.close? html site.name site.bodyStart with
        | none => []
        | some close =>
          have _inside := Tag.bounds_of_closeFrom? _closed
          bodiesHeads html close.stop
termination_by html.length + 1 - start
decreasing_by
  · omega
  · simp only [List.length_drop] at _inside
    omega

def maskOpen : Char := '\ue000'

def maskClose : Char := '\ue001'

/-- The character that hides a brace. -/
def maskChar (c : Char) : Char := if c = '\x7b' then maskOpen else if c = '\x7d' then maskClose else c

def unmaskChar (c : Char) : Char := if c = maskOpen then '\x7b' else if c = maskClose then '\x7d' else c

/-- The rest of a text with the braces masked that lie in a body and in no component tag. -/
def maskFrom (bodies : List Span) (html : Text) (offset : Nat) : Text → Text
  | [] => []
  | c :: rest =>
    let brace := c == '\x7b' || c == '\x7d'
    let masked := if brace && covered bodies offset && !insideComponentTag html offset then maskChar c else c
    masked :: maskFrom bodies html (offset + 1) rest

/-- Hides the braces in the bodies of fetch elements. -/
def mask (html : Text) : Except Failure Text :=
  (bodies html 0).map fun bodies => maskFrom bodies html 0 html

/-- Brings masked braces back. -/
def unmask (html : Text) : Text := html.map unmaskChar

end Fetch

end ComponentPages
