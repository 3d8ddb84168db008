import ComponentPages.Text.Nesting

/-!
The head of a tag: what stands between its name and the `>` that ends it. Quotations and braces hide a `>`.
-/
namespace ComponentPages

namespace TagHead

/-- Splits a text at the `>` that ends a tag, given the quotation and the number of braces it starts in. -/
def split? (quote : Option Char) (braces : Nat) : Text → Option (Text × Text)
  | [] => none
  | c :: rest =>
    match quote with
    | some q =>
      (split? (if c = q then none else some q) braces rest).map fun (head, body) => (c :: head, body)
    | none =>
      if c = '>' ∧ braces = 0 then some ([], rest)
      else
        let quote := if isQuote c then some c else none
        let braces := if c = '\x7b' then braces + 1 else if c = '\x7d' then braces - 1 else braces
        (split? quote braces rest).map fun (head, body) => (c :: head, body)

/-- The head of a tag and what follows its `>`. -/
def read? (text : Text) : Option (Text × Text) := split? none 0 text

/-- Offset of the `>` that ends a tag whose head starts at the given offset. -/
def stop? (html : Text) (start : Nat) : Option Nat :=
  (read? (html.drop start)).map fun (head, _) => start + head.length

/-- Whether a head closes its own tag. -/
def closesItself (head : Text) : Bool := (Text.trimRight head).getLast? = some '/'

theorem eq_of_split? {quote : Option Char} {braces : Nat} {text head body : Text}
    (found : split? quote braces text = some (head, body)) : text = head ++ '>' :: body := by
  induction text generalizing quote braces head with
  | nil => simp [split?] at found
  | cons c rest ih =>
    unfold split? at found
    split at found
    · obtain ⟨⟨before, after⟩, later, same⟩ := Option.map_eq_some_iff.1 found
      simp only [Prod.mk.injEq] at same
      obtain ⟨rfl, rfl⟩ := same
      simp [ih later]
    · split at found
      · next here =>
        simp only [Option.some.injEq, Prod.mk.injEq] at found
        obtain ⟨rfl, rfl⟩ := found
        simp [here.1]
      · obtain ⟨⟨before, after⟩, later, same⟩ := Option.map_eq_some_iff.1 found
        simp only [Prod.mk.injEq] at same
        obtain ⟨rfl, rfl⟩ := same
        simp [ih later]

end TagHead

/-- Whether the nearest angle bracket read backwards opens a tag whose first character is accepted;
`following` is the character after the text. -/
def opensTag (accepts : Char → Bool) (following : Option Char) : (backwards : Text) → Bool
  | [] => false
  | c :: before =>
    if c = '>' then false
    else if c = '<' then following.any accepts
    else opensTag accepts (some c) before

/-- Whether an offset lies within an open tag with an upper-case name, going by angle brackets alone. -/
def insideComponentTag (html : Text) (offset : Nat) : Bool :=
  opensTag isUpper (html[offset]?) (html.take offset).reverse

/-- Whether an offset lies within an open tag whose name starts with a letter that is not upper case. -/
def insideElementTag (html : Text) (offset : Nat) : Bool :=
  opensTag (fun c => isLetter c && !isUpper c) (html[offset]?) (html.take offset).reverse

end ComponentPages
