import ComponentPages.Text.Basic
import Mathlib

/-!
Characters of words, trimming, and texts that stand at the front of longer ones.
-/
namespace ComponentPages

-- Without this instance the decision would go over all characters there are.
instance decidableForallMem (text : Text) (accepts : Char → Prop) [DecidablePred accepts] :
    Decidable (∀ c ∈ text, accepts c) := List.decidableBAll accepts text

/-- A text of white space. -/
def IsSpace (text : Text) : Prop := ∀ c ∈ text, isBlank c = true

instance decidableIsSpace (text : Text) : Decidable (IsSpace text) := decidableForallMem text _

/-- What is left of a run of a class begins with no member of it. -/
theorem stop_of_dropWhile {α : Type} {class_ : α → Bool} {list rest : List α} {a : α}
    (dropped : list.dropWhile class_ = a :: rest) : class_ a = false := by
  have head := List.head?_dropWhile_not class_ list
  rw [dropped] at head
  simpa using head

theorem all_head?_dropWhile {α : Type} (class_ : α → Bool) (list : List α) :
    (list.dropWhile class_).head?.all (fun a => !class_ a) = true := by
  cases dropped : list.dropWhile class_ with
  | nil => rfl
  | cons a rest => simpa using stop_of_dropWhile dropped

theorem toNat_of_isAlphanum {c : Char} (alphanumeric : c.isAlphanum = true) :
    (48 ≤ c.toNat ∧ c.toNat ≤ 57) ∨ (65 ≤ c.toNat ∧ c.toNat ≤ 90) ∨ (97 ≤ c.toNat ∧ c.toNat ≤ 122) := by
  simp only [Char.isAlphanum, Char.isAlpha, Char.isUpper, Char.isLower, Char.isDigit, Bool.or_eq_true,
    Bool.and_eq_true, decide_eq_true_eq, UInt32.le_iff_toNat_le, ge_iff_le, Char.toNat] at *
  simp at *
  omega

/-- The codes of white space. -/
def blankCodes : List Nat :=
  List.range' 9 5 ++ List.range' 28 5 ++ List.range' 0x2000 11 ++
    [0x85, 0xA0, 0x1680, 0x2028, 0x2029, 0x202F, 0x205F, 0x3000]

theorem mem_blankCodes {c : Char} (blank : isBlank c = true) : c.toNat ∈ blankCodes := by
  simp only [isBlank, Bool.or_eq_true, Bool.and_eq_true, decide_eq_true_eq, beq_iff_eq] at blank
  simp only [blankCodes, List.mem_append, List.mem_cons, List.mem_range'_1]
  omega

/-- A character of a class is none that is not of it. -/
theorem ne_of_class {class_ : Char → Bool} {c d : Char} (is : class_ c = true) (foreign : class_ d = false) : c ≠ d := by
  rintro rfl
  rw [foreign] at is
  cases is

theorem isWord_of_isBlank {c : Char} (blank : isBlank c = true) : isWord c = false := by
  have plain : ∀ code ∈ blankCodes, isWord (Char.ofNat code) = false := by decide +kernel
  rw [← Char.ofNat_toNat c]
  exact plain c.toNat (mem_blankCodes blank)

/-- White space does not continue a name. -/
theorem isSlugPart_of_isBlank {c : Char} (blank : isBlank c = true) : isSlugPart c = false := by
  rw [isSlugPart, isWord_of_isBlank blank, Bool.false_or, beq_eq_false_iff_ne]
  rintro rfl
  exact absurd blank (by decide)

theorem isBlank_of_isIdentifierPart {c : Char} (part : isIdentifierPart c = true) : isBlank c = false := by
  have code : 33 ≤ c.toNat ∧ c.toNat ≤ 122 := by
    rcases Bool.or_eq_true _ _ ▸ part with alphanumeric | underscore
    · have ranges := toNat_of_isAlphanum alphanumeric
      omega
    · obtain rfl : c = '_' := by simpa using underscore
      decide
  simp only [isBlank, Bool.or_eq_false_iff, Bool.and_eq_false_iff, decide_eq_false_iff_not, beq_eq_false_iff_ne]
  omega

theorem isBlank_of_isAlpha {c : Char} (letter : c.isAlpha = true) : isBlank c = false :=
  isBlank_of_isIdentifierPart (by simp [isIdentifierPart, Char.isAlphanum, letter])

theorem isQuote_iff {c : Char} : isQuote c = true ↔ c = '\'' ∨ c = '"' := by simp [isQuote]

theorem isBlank_of_isQuote {c : Char} (quotes : isQuote c = true) : isBlank c = false := by
  rcases isQuote_iff.1 quotes with rfl | rfl <;> decide

theorem isIdentifierPart_of_isDigit {c : Char} (digit : c.isDigit = true) : isIdentifierPart c = true := by
  simp [isIdentifierPart, Char.isAlphanum, digit]

theorem isIdentifierStart_of_isDigit {c : Char} (digit : c.isDigit = true) : isIdentifierStart c = false := by
  simp only [isIdentifierStart, Char.isAlpha, Char.isUpper, Char.isLower, Char.isDigit, Bool.or_eq_false_iff,
    Bool.and_eq_true, Bool.and_eq_false_iff, decide_eq_true_eq, decide_eq_false_iff_not, beq_eq_false_iff_ne,
    UInt32.le_iff_toNat_le, ge_iff_le] at *
  simp at *
  refine ⟨by omega, ?_⟩
  rintro rfl
  simp at digit

theorem isIdentifierPart_of_isIdentifier {name : Text} (identifier : Text.isIdentifier name = true) :
    name ≠ [] ∧ ∀ c ∈ name, isIdentifierPart c = true := by
  cases name with
  | nil => simp [Text.isIdentifier] at identifier
  | cons c rest =>
    simp only [Text.isIdentifier, Bool.and_eq_true, List.all_eq_true] at identifier
    refine ⟨List.cons_ne_nil c rest, ?_⟩
    intro d member
    rcases List.mem_cons.1 member with rfl | later
    · have start := identifier.1
      simp only [isIdentifierStart, isIdentifierPart, Char.isAlphanum, Bool.or_eq_true] at start ⊢
      rcases start with letter | underscore
      · exact .inl (.inl letter)
      · exact .inr underscore
    · exact identifier.2 d later

/-- A place in a text that ends in a given character lies before that end. -/
theorem exists_of_append_concat {part after body : Text} {c last : Char}
    (whole : part ++ c :: after = body ++ [last]) : ∃ inside, c :: after = inside ++ [last] ∧ body = part ++ inside := by
  rcases List.append_eq_append_iff.1 whole with ⟨gap, longer, remains⟩ | ⟨gap, longer, remains⟩
  · exact ⟨gap, remains, longer⟩
  · cases gap with
    | nil => exact ⟨[], remains.symm, by rw [longer, List.append_nil, List.append_nil]⟩
    | cons d gap =>
      have size := congrArg List.length remains
      simp at size

/-- What a scan does with the text it passed over. -/
def prepend (text : Text) : Text × Text → Text × Text := Prod.map (text ++ ·) id

theorem map_prepend_nil (found : Option (Text × Text)) : found.map (prepend []) = found := by
  cases found <;> rfl

theorem map_prepend_prepend (first second : Text) (found : Option (Text × Text)) :
    (found.map (prepend second)).map (prepend first) = found.map (prepend (first ++ second)) := by
  cases found <;> simp [prepend, Prod.map]

namespace Text

/-- A run of characters of a class ends where the next character is none of it. -/
theorem takeWhile_append_of_stop {class_ : Char → Bool} {run rest : Text} (parts : ∀ c ∈ run, class_ c = true)
    (stops : rest.head?.all (fun c => !class_ c) = true) :
    (run ++ rest).takeWhile class_ = run ∧ (run ++ rest).dropWhile class_ = rest := by
  rw [List.takeWhile_append_of_pos parts, List.dropWhile_append_of_pos parts]
  cases rest with
  | nil => simp
  | cons c rest =>
    have other : class_ c = false := by simpa using stops
    simp [other]

theorem takeWhile_append_cons {class_ : Char → Bool} {run : Text} (parts : ∀ c ∈ run, class_ c = true) {c : Char}
    (stops : class_ c = false) (rest : Text) :
    (run ++ c :: rest).takeWhile class_ = run ∧ (run ++ c :: rest).dropWhile class_ = c :: rest :=
  takeWhile_append_of_stop parts (by simp [stops])

theorem trimLeft_append_of_space {space : Text} (blank : IsSpace space) (text : Text) :
    trimLeft (space ++ text) = trimLeft text :=
  List.dropWhile_append_of_pos blank

theorem trimLeft_trimLeft (text : Text) : trimLeft (trimLeft text) = trimLeft text := by
  have space : IsSpace (text.takeWhile isBlank) := fun c member => List.mem_takeWhile_imp member
  have whole : text.takeWhile isBlank ++ trimLeft text = text := List.takeWhile_append_dropWhile
  rw [← trimLeft_append_of_space space (trimLeft text), whole]

theorem trimRight_append_of_space (text : Text) {space : Text} (blank : IsSpace space) :
    trimRight (text ++ space) = trimRight text := by
  unfold trimRight
  rw [List.reverse_append, List.dropWhile_append_of_pos]
  intro c member
  exact blank c (List.mem_reverse.1 member)

theorem trimLeft_cons_of_not_blank {c : Char} (solid : isBlank c = false) (text : Text) :
    trimLeft (c :: text) = c :: text :=
  List.dropWhile_cons_of_neg (by simp [solid])

theorem trimRight_concat_of_not_blank {c : Char} (solid : isBlank c = false) (text : Text) :
    trimRight (text ++ [c]) = text ++ [c] := by
  unfold trimRight
  rw [List.reverse_append, List.reverse_singleton, List.singleton_append,
    List.dropWhile_cons_of_neg (by simp [solid])]
  simp

theorem trimLeft_append {text : Text} (solid : trimLeft text ≠ []) (rest : Text) :
    trimLeft (text ++ rest) = trimLeft text ++ rest := by
  unfold trimLeft at *
  rw [List.dropWhile_append, if_neg]
  simpa using solid

theorem trimRight_append (text : Text) {rest : Text} (solid : trimRight rest ≠ []) :
    trimRight (text ++ rest) = text ++ trimRight rest := by
  unfold trimRight at *
  rw [List.reverse_append, List.dropWhile_append, if_neg]
  · simp
  · simpa using solid

/-- Trimming does not go into a text that ends in no white space. -/
theorem trimRight_append_of_ended {text : Text} (ended : trimRight text = text) (rest : Text) :
    trimRight (text ++ rest) = text ++ trimRight rest := by
  by_cases blank : trimRight rest = []
  · have space : IsSpace rest := fun c member =>
      List.dropWhile_eq_nil_iff.1 (List.reverse_eq_nil_iff.1 blank) c (List.mem_reverse.2 member)
    rw [trimRight_append_of_space text space, ended, blank, List.append_nil]
  · exact trimRight_append text blank

theorem all_isBlank_trimRight (text : Text) : (trimRight text).all isBlank = text.all isBlank := by
  have space : (text.reverse.takeWhile isBlank).all isBlank = true :=
    List.all_eq_true.2 fun c member => List.mem_takeWhile_imp member
  calc
    (trimRight text).all isBlank = (text.reverse.dropWhile isBlank).all isBlank := List.all_reverse
    _ = (text.reverse.takeWhile isBlank ++ text.reverse.dropWhile isBlank).all isBlank := by
      rw [List.all_append, space, Bool.true_and]
    _ = text.all isBlank := by rw [List.takeWhile_append_dropWhile, List.all_reverse]

/-- Trimming a text that ends in no white space is trimming its front. -/
theorem trim_of_trimRight {text : Text} (ended : trimRight text = text) : trim text = trimLeft text := by
  have whole : text.takeWhile isBlank ++ trimLeft text = text := List.takeWhile_append_dropWhile
  cases start : trimLeft text with
  | nil => rw [trim, start]; rfl
  | cons c rest =>
    have solid : trimRight (trimLeft text) ≠ [] := by
      intro empty
      have blank : ∀ d ∈ trimLeft text, isBlank d = true := by
        intro d member
        have all := List.dropWhile_eq_nil_iff.1 (List.reverse_eq_nil_iff.1 empty)
        exact all d (List.mem_reverse.2 member)
      have solid := stop_of_dropWhile start
      rw [start] at blank
      rw [blank c List.mem_cons_self] at solid
      cases solid
    have parts := trimRight_append (text.takeWhile isBlank) solid
    rw [whole, ended] at parts
    rw [trim, ← start]
    exact List.append_cancel_left (parts.symm.trans whole.symm)

/-- A text is white space and what trimming its front leaves. -/
theorem exists_eq_trimLeft (text : Text) : ∃ space, IsSpace space ∧ text = space ++ trimLeft text :=
  ⟨text.takeWhile isBlank, fun _ member => List.mem_takeWhile_imp member, List.takeWhile_append_dropWhile.symm⟩

/-- White space before a solid character is all that trimming takes. -/
theorem trimLeft_append_cons {space : Text} (blank : IsSpace space) {c : Char} (solid : isBlank c = false)
    (text : Text) : trimLeft (space ++ c :: text) = c :: text := by
  rw [trimLeft_append_of_space blank, trimLeft_cons_of_not_blank solid]

/-- A text is what trimming leaves of it, between white space. -/
theorem exists_eq_trim (text : Text) :
    ∃ before after, IsSpace before ∧ IsSpace after ∧ text = before ++ trim text ++ after := by
  refine ⟨text.takeWhile isBlank, ((trimLeft text).reverse.takeWhile isBlank).reverse, ?_, ?_, ?_⟩
  · intro c member
    exact List.mem_takeWhile_imp member
  · intro c member
    exact List.mem_takeWhile_imp (List.mem_reverse.1 member)
  · have right : trim text ++ ((trimLeft text).reverse.takeWhile isBlank).reverse = trimLeft text := by
      rw [trim, trimRight, ← List.reverse_append, List.takeWhile_append_dropWhile, List.reverse_reverse]
    rw [List.append_assoc, right]
    exact List.takeWhile_append_dropWhile.symm

theorem trimLeft_trim (text : Text) : trimLeft (trim text) = trim text := by
  cases start : trimLeft text with
  | nil => rw [trim, start]; rfl
  | cons c rest =>
    have solid := stop_of_dropWhile start
    have kept : c :: rest = [c] ++ rest := rfl
    by_cases blank : trimRight rest = []
    · have space : IsSpace rest := by
        intro d member
        have all := List.dropWhile_eq_nil_iff.1 (List.reverse_eq_nil_iff.1 blank)
        exact all d (List.mem_reverse.2 member)
      have single := trimRight_concat_of_not_blank solid []
      rw [trim, start, kept, trimRight_append_of_space _ space]
      rw [List.nil_append] at single
      rw [single, trimLeft_cons_of_not_blank solid]
    · rw [trim, start, kept, trimRight_append _ blank, List.singleton_append, trimLeft_cons_of_not_blank solid]

theorem toNat?_eq_some_iff {text : Text} {n : Nat} :
    toNat? text = some n ↔ text ≠ [] ∧ (∀ c ∈ text, c.isDigit = true) ∧ n = Nat.ofDigitChars 10 text 0 := by
  have value : text.foldl (fun n c => 10 * n + (c.toNat - 48)) 0 = Nat.ofDigitChars 10 text 0 :=
    Nat.ofDigitChars_eq_foldl.symm
  unfold toNat?
  rw [value]
  split
  · next bad =>
    simp only [Bool.or_eq_true, List.isEmpty_iff, Bool.not_eq_true', List.all_eq_false] at bad
    constructor
    · simp
    · rintro ⟨nonempty, decimal, -⟩
      rcases bad with empty | ⟨c, member, other⟩
      · exact absurd empty nonempty
      · exact absurd (decimal c member) other
  · next good =>
    simp only [Bool.or_eq_true, List.isEmpty_iff, Bool.not_eq_true', List.all_eq_false, not_or, not_exists,
      not_and, not_not] at good
    constructor
    · intro found
      exact ⟨good.1, good.2, (Option.some.inj found).symm⟩
    · rintro ⟨-, -, rfl⟩
      rfl

theorem ofNat_injective : Function.Injective ofNat := by
  intro first second same
  have value (n : Nat) : Nat.ofDigitChars 10 (ofNat n) 0 = n := Nat.ofDigitChars_toDigits (by decide) (by decide)
  rw [← value first, same, value]

theorem isDigit_of_mem_ofNat {n : Nat} {c : Char} (member : c ∈ ofNat n) : c.isDigit = true :=
  Nat.isDigit_of_mem_toDigits (by decide) (by decide) member

/-- White space at the end does not change what trimming leaves. -/
theorem trim_append_of_space (text : Text) {space : Text} (blank : IsSpace space) :
    trim (text ++ space) = trim text := by
  by_cases solid : trimLeft text = []
  · have first : trimLeft (text ++ space) = trimLeft space :=
      trimLeft_append_of_space (List.dropWhile_eq_nil_iff.1 solid) space
    have second : trimLeft space = [] := List.dropWhile_eq_nil_iff.2 blank
    rw [trim, trim, first, second, solid]
  · rw [trim, trim, trimLeft_append solid, trimRight_append_of_space _ blank]

theorem trim_trimRight (text : Text) : trim (trimRight text) = trim text := by
  have whole : text = trimRight text ++ (text.reverse.takeWhile isBlank).reverse := by
    rw [trimRight, ← List.reverse_append, List.takeWhile_append_dropWhile, List.reverse_reverse]
  have blank : IsSpace (text.reverse.takeWhile isBlank).reverse :=
    fun c member => List.mem_takeWhile_imp (List.mem_reverse.1 member)
  have padded := trim_append_of_space (trimRight text) blank
  rw [← whole] at padded
  exact padded.symm

theorem after?_append (beginning rest : Text) : after? beginning (beginning ++ rest) = some rest := by
  induction beginning with
  | nil => rfl
  | cons c beginning ih => simpa [after?] using ih

theorem eq_of_after? {beginning text rest : Text} (found : after? beginning text = some rest) :
    text = beginning ++ rest := by
  induction beginning generalizing text with
  | nil => simpa [after?] using found
  | cons c beginning ih =>
    cases text with
    | nil => simp [after?] at found
    | cons d text =>
      simp only [after?] at found
      split at found
      · next same => rw [same, ih found, List.cons_append]
      · simp at found

theorem after?_eq_some_iff {beginning text rest : Text} :
    after? beginning text = some rest ↔ text = beginning ++ rest := by
  constructor
  · exact eq_of_after?
  · rintro rfl
    exact after?_append beginning rest

/-- More text behind does not take a beginning away. -/
theorem after?_append_of_some {beginning text rest : Text} (found : after? beginning text = some rest)
    (more : Text) : after? beginning (text ++ more) = some (rest ++ more) := by
  rw [eq_of_after? found, List.append_assoc]
  exact after?_append beginning (rest ++ more)

/-- A text that is long enough to hold a beginning has it if a longer one has it. -/
theorem exists_after?_of_append {beginning text more rest : Text}
    (found : after? beginning (text ++ more) = some rest) (long : beginning.length ≤ text.length) :
    ∃ shorter, after? beginning text = some shorter := by
  rcases List.append_eq_append_iff.1 (eq_of_after? found) with ⟨gap, within, -⟩ | ⟨gap, within, -⟩
  · have sizes := congrArg List.length within
    simp only [List.length_append] at sizes
    have empty : gap = [] := List.length_eq_zero_iff.1 (by omega)
    rw [empty, List.append_nil] at within
    exact ⟨[], after?_eq_some_iff.2 (by rw [within, List.append_nil])⟩
  · exact ⟨gap, after?_eq_some_iff.2 within⟩

theorem cut?_append {stop : Char} {before : Text} (free : ∀ c ∈ before, c ≠ stop) (after : Text) :
    cut? stop (before ++ stop :: after) = some (before, after) := by
  induction before with
  | nil => simp [cut?]
  | cons c before ih =>
    have other : c ≠ stop := free c List.mem_cons_self
    rw [List.cons_append, cut?, if_neg other, ih fun d member => free d (List.mem_cons_of_mem c member)]
    rfl

theorem eq_of_cut? {stop : Char} {text before after : Text} (found : cut? stop text = some (before, after)) :
    text = before ++ stop :: after := by
  induction text generalizing before with
  | nil => cases found
  | cons c rest ih =>
    unfold cut? at found
    split at found
    · next same =>
      cases found
      rw [same, List.nil_append]
    · obtain ⟨⟨first, second⟩, later, same⟩ := Option.map_eq_some_iff.1 found
      cases same
      rw [ih later, List.cons_append]

theorem free_of_cut? {stop : Char} {text before after : Text} (found : cut? stop text = some (before, after)) :
    ∀ c ∈ before, c ≠ stop := by
  induction text generalizing before with
  | nil => cases found
  | cons c rest ih =>
    unfold cut? at found
    split at found
    · cases found
      simp
    · next other =>
      obtain ⟨⟨first, second⟩, later, same⟩ := Option.map_eq_some_iff.1 found
      cases same
      exact List.forall_mem_cons.2 ⟨other, ih later⟩

theorem eq_of_afterFolded? {word text rest : Text} (found : afterFolded? word text = some rest) :
    ∃ written, text = written ++ rest ∧ List.Forall₂ (fun letter c => matchesLetter letter c = true) word written := by
  induction word generalizing text with
  | nil =>
    obtain rfl := Option.some.inj found
    exact ⟨[], rfl, .nil⟩
  | cons letter word ih =>
    cases text with
    | nil => simp [afterFolded?] at found
    | cons c text =>
      rw [afterFolded?] at found
      split at found
      · next matches_ =>
        obtain ⟨written, whole, letters⟩ := ih found
        exact ⟨c :: written, by rw [whole, List.cons_append], .cons matches_ letters⟩
      · simp at found

/-- A word is read in front of a character that it does not have exactly if it is read before that. -/
theorem after?_append_border {border : Char} {word : Text} (foreign : border ∉ word) (text more : Text) :
    after? word (text ++ border :: more) = (after? word text).map (· ++ border :: more) := by
  induction word generalizing text with
  | nil => rfl
  | cons c word ih =>
    simp only [List.mem_cons, not_or] at foreign
    obtain ⟨other, later⟩ := foreign
    cases text with
    | nil => exact if_neg (Ne.symm other)
    | cons d text =>
      rw [List.cons_append, after?, after?, ih later]
      split <;> rfl

theorem afterFolded?_append_border {border : Char} {word : Text} (foreign : ∀ letter ∈ word, matchesLetter letter border = false)
    (text more : Text) :
    afterFolded? word (text ++ border :: more) = (afterFolded? word text).map (· ++ border :: more) := by
  induction word generalizing text with
  | nil => rfl
  | cons letter word ih =>
    have later := ih fun other member => foreign other (List.mem_cons_of_mem letter member)
    cases text with
    | nil =>
      have unmatched : ¬matchesLetter letter border = true := by rw [foreign letter List.mem_cons_self]; exact Bool.false_ne_true
      exact if_neg unmatched
    | cons d text =>
      rw [List.cons_append, afterFolded?, afterFolded?, later]
      split <;> rfl

theorem exists_of_mem_cut {stop : Char} {text : Text} (member : stop ∈ text) :
    ∃ before after, cut? stop text = some (before, after) := by
  obtain ⟨before, after, rfl, first⟩ := List.eq_append_cons_of_mem member
  refine ⟨before, after, cut?_append ?_ after⟩
  rintro c inside rfl
  exact first inside

theorem mem_of_mem_trimRight {text : Text} {c : Char} (member : c ∈ trimRight text) : c ∈ text := by
  have suffix := (List.dropWhile_suffix isBlank).subset (List.mem_reverse.1 member)
  exact List.mem_reverse.1 suffix

theorem mem_of_mem_trim {text : Text} {c : Char} (member : c ∈ trim text) : c ∈ text :=
  (List.dropWhile_suffix _).subset (mem_of_mem_trimRight member)

theorem mem_of_mem_replaceChar {old c : Char} {new text : Text} (member : c ∈ replaceChar old new text) :
    c ∈ new ∨ c ∈ text := by
  obtain ⟨d, inText, written⟩ := List.mem_flatMap.1 member
  split at written
  · exact .inl written
  · rw [List.mem_singleton.1 written]
    exact .inr inText

theorem mem_of_mem_replace {old new text : Text} {c : Char} (member : c ∈ replace old new text) : c ∈ new ∨ c ∈ text := by
  fun_induction replace old new text with
  | case1 => cases member
  | case2 d rest remainder found shorter ih =>
    rcases List.mem_append.1 member with written | later
    · exact .inl written
    · refine (ih later).imp_right fun behind => ?_
      rw [eq_of_after? found]
      exact List.mem_append_right old behind
  | case3 d rest remainder found longer ih =>
    rcases List.mem_cons.1 member with rfl | later
    · exact .inr List.mem_cons_self
    · exact (ih later).imp_right (List.mem_cons_of_mem d)
  | case4 d rest missing ih =>
    rcases List.mem_cons.1 member with rfl | later
    · exact .inr List.mem_cons_self
    · exact (ih later).imp_right (List.mem_cons_of_mem d)

/-! ### Places in a text -/

theorem slice_of_drop {text before after : Text} {start : Nat} (stands : text.drop start = before ++ after) :
    slice text start (start + before.length) = before := by
  rw [slice, List.drop_take, stands, Nat.add_sub_cancel_left, List.take_left]

theorem drop_of_drop {text before after : Text} {start : Nat} (stands : text.drop start = before ++ after) :
    text.drop (start + before.length) = after := by
  rw [← List.drop_drop, stands, List.drop_left]

theorem drop_succ_of_drop {text before after : Text} {start : Nat} {c : Char}
    (stands : text.drop start = before ++ c :: after) : text.drop (start + before.length + 1) = after := by
  rw [← List.drop_drop, drop_of_drop stands, List.drop_one, List.tail_cons]

theorem drop_succ_of_cons {text rest : Text} {start : Nat} {c : Char} (stands : text.drop start = c :: rest) :
    text.drop (start + 1) = rest := by
  rw [← List.tail_drop, stands, List.tail_cons]

/-! ### Pieces between separators -/

theorem pieces_ne_nil (separator : Char) (text : Text) : pieces separator text ≠ [] := by
  cases text with
  | nil => exact List.cons_ne_nil [] []
  | cons c text =>
    rw [pieces]
    split
    · exact List.cons_ne_nil _ _
    · split <;> exact List.cons_ne_nil _ _

theorem pieces_cons {separator c : Char} (other : c ≠ separator) (text : Text) :
    ∃ piece rest, pieces separator text = piece :: rest ∧ pieces separator (c :: text) = (c :: piece) :: rest := by
  obtain ⟨piece, rest, same⟩ := List.exists_cons_of_ne_nil (pieces_ne_nil separator text)
  refine ⟨piece, rest, same, ?_⟩
  rw [pieces, if_neg other, same]

theorem pieces_of_not_mem {separator : Char} {text : Text} (free : separator ∉ text) : pieces separator text = [text] := by
  induction text with
  | nil => rfl
  | cons c text ih =>
    rw [List.mem_cons, not_or] at free
    rw [pieces, if_neg (Ne.symm free.1), ih free.2]

/-- A separator between two texts parts their pieces. -/
theorem pieces_append_cons (separator : Char) (text rest : Text) :
    pieces separator (text ++ separator :: rest) = pieces separator text ++ pieces separator rest := by
  induction text with
  | nil =>
    rw [List.nil_append, pieces, pieces, if_pos rfl]
    rfl
  | cons c text ih =>
    rw [List.cons_append]
    by_cases same : c = separator
    · rw [pieces, if_pos same, ih, pieces, if_pos same, List.cons_append]
    · rw [pieces, if_neg same, ih, pieces, if_neg same]
      obtain ⟨piece, others, whole⟩ := List.exists_cons_of_ne_nil (pieces_ne_nil separator text)
      rw [whole]
      rfl

theorem pieces_append {separator : Char} {text : Text} (free : separator ∉ text) (rest : Text) :
    pieces separator (text ++ separator :: rest) = text :: pieces separator rest := by
  rw [pieces_append_cons, pieces_of_not_mem free, List.singleton_append]

/-- The pieces of texts that separators join are the pieces of these texts. -/
theorem pieces_intercalate_flatMap {separator : Char} {parts : List Text} (some : parts ≠ []) :
    pieces separator (List.intercalate [separator] parts) = parts.flatMap (pieces separator) := by
  induction parts with
  | nil => exact absurd rfl some
  | cons part parts ih =>
    cases parts with
    | nil => rw [List.intercalate_singleton, List.flatMap_singleton]
    | cons next parts =>
      rw [List.intercalate_cons_cons, List.append_assoc, List.singleton_append, pieces_append_cons,
        ih (List.cons_ne_nil next parts), ← List.flatMap_cons]

theorem pieces_intercalate {separator : Char} {parts : List Text} (some : parts ≠ [])
    (free : ∀ part ∈ parts, separator ∉ part) : pieces separator (List.intercalate [separator] parts) = parts := by
  rw [pieces_intercalate_flatMap some, List.flatMap_congr fun part member => pieces_of_not_mem (free part member)]
  exact List.flatMap_singleton' parts

/-- A text behind another without separators in it belongs to the last piece. -/
theorem exists_pieces_append {separator : Char} {more : Text} (free : separator ∉ more) (text : Text) :
    ∃ front last, pieces separator text = front ++ [last] ∧ pieces separator (text ++ more) = front ++ [last ++ more] := by
  induction text with
  | nil => exact ⟨[], [], rfl, by rw [List.nil_append, pieces_of_not_mem free]; rfl⟩
  | cons c text ih =>
    obtain ⟨front, last, before, after⟩ := ih
    by_cases same : c = separator
    · refine ⟨[] :: front, last, ?_, ?_⟩
      · rw [pieces, if_pos same, before, List.cons_append]
      · rw [List.cons_append, pieces, if_pos same, after, List.cons_append]
    · rw [List.cons_append, pieces, if_neg same, pieces, if_neg same, before, after]
      cases front with
      | nil => exact ⟨[], c :: last, rfl, rfl⟩
      | cons piece front => exact ⟨(c :: piece) :: front, last, rfl, rfl⟩

/-- A character of a text stands in one of its pieces, or parts them. -/
theorem exists_mem_pieces {separator c : Char} (other : c ≠ separator) {text : Text} (member : c ∈ text) :
    ∃ piece ∈ pieces separator text, c ∈ piece := by
  induction text with
  | nil => cases member
  | cons d text ih =>
    by_cases same : d = separator
    · obtain ⟨piece, inPieces, inPiece⟩ := ih ((List.mem_cons.1 member).resolve_left fun is => other (is.trans same))
      rw [pieces, if_pos same]
      exact ⟨piece, List.mem_cons_of_mem _ inPieces, inPiece⟩
    · obtain ⟨first, rest, here, whole⟩ := pieces_cons same text
      rw [whole]
      rcases List.mem_cons.1 member with rfl | later
      · exact ⟨c :: first, List.mem_cons_self, List.mem_cons_self⟩
      · obtain ⟨piece, inPieces, inPiece⟩ := ih later
        rw [here] at inPieces
        rcases List.mem_cons.1 inPieces with rfl | inRest
        · exact ⟨d :: piece, List.mem_cons_self, List.mem_cons_of_mem d inPiece⟩
        · exact ⟨piece, List.mem_cons_of_mem _ inRest, inPiece⟩

end Text

end ComponentPages
