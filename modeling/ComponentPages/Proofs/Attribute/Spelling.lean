import ComponentPages.Proofs.Nesting
import ComponentPages.Attribute

/-!
Attributes as a head spells them. Scanning goes step by step, and what a step finds is decided by the spelling of one
attribute: the attribute is found again in front of any text that lets it end, and only the value that is never closed
reaches to the end of the head.
-/
namespace ComponentPages

theorem solid_of_isNamePart {c : Char} (part : Attribute.isNamePart c = true) : isBlank c = false ∧ c ≠ '=' := by
  simp only [Attribute.isNamePart, Bool.and_eq_true, Bool.not_eq_true', bne_iff_ne] at part
  exact ⟨part.1.1.1, part.1.1.2⟩

namespace Attribute

namespace Step

/-- The attribute that a step finds. -/
def taken : Step → List Attribute
  | .found attr _ => [attr]
  | _ => []

/-- What is left to read after a step. -/
def rest : Step → Text
  | .skipped rest => rest
  | .found _ rest => rest
  | _ => []

end Step

theorem step_trimLeft (head : Text) : step (Text.trimLeft head) = step head := by
  unfold step
  rw [Text.trimLeft_trimLeft]

theorem scan_trimLeft (head : Text) : scan (Text.trimLeft head) = scan head := by
  rw [scan, scan, step_trimLeft]

theorem scan_of_skipped {head rest : Text} (skips : step head = .skipped rest) : scan head = scan rest := by
  rw [scan]
  split
  · next other => rw [skips] at other; cases other
  · next other => rw [skips] at other; cases other
  · next other => rw [skips] at other; cases other; rfl
  · next other => rw [skips] at other; cases other

theorem scan_of_found {head rest : Text} {attr : Attribute} (finds : step head = .found attr rest) :
    scan head = (attr :: (scan rest).1, (scan rest).2) := by
  rw [scan]
  split
  · next other => rw [finds] at other; cases other
  · next other => rw [finds] at other; cases other
  · next other => rw [finds] at other; cases other
  · next other => rw [finds] at other; cases other; rfl

theorem scan_nil : scan [] = ([], none) := by
  rw [scan]
  rfl

theorem tokenize_nil : tokenize [] = [] := by rw [tokenize, scan_nil]

theorem tokenize_eq (head : Text) : tokenize head = (step head).taken ++ tokenize (step head).rest := by
  cases steps : step head with
  | finished =>
    rw [tokenize, scan]
    split <;> simp_all [Step.taken, Step.rest, tokenize, scan_nil]
  | valueless name =>
    rw [tokenize, scan]
    split <;> simp_all [Step.taken, Step.rest, tokenize, scan_nil]
  | skipped rest =>
    rw [tokenize, scan_of_skipped steps]
    rfl
  | found attr rest =>
    rw [tokenize, scan_of_found steps]
    rfl

theorem tokenize_of_found {head rest : Text} {attr : Attribute} (finds : step head = .found attr rest) :
    tokenize head = attr :: tokenize rest := by
  rw [tokenize_eq, finds]
  rfl

theorem tokenize_append_of_isSpace {space : Text} (blank : IsSpace space) (head : Text) :
    tokenize (space ++ head) = tokenize head := by
  rw [tokenize, ← scan_trimLeft, Text.trimLeft_append_of_space blank, scan_trimLeft, tokenize]

section Named

variable {head tail : Text} {c : Char} (trimmed : Text.trimLeft head = c :: tail) (named : isNamePart c = true)
include trimmed named

/-- A name that no equals sign follows. -/
theorem step_bare (bare : (Text.trimLeft (tail.dropWhile isNamePart)).head? ≠ some '=') :
    step head = .found ⟨c :: tail.takeWhile isNamePart, none, c :: tail.takeWhile isNamePart⟩ (tail.dropWhile isNamePart) := by
  rw [step, trimmed]
  dsimp only
  rw [if_pos named]
  split
  · next afterEquals equals =>
    rw [equals] at bare
    exact absurd rfl bare
  · rfl

section Valued

variable {afterEquals : Text} (equals : Text.trimLeft (tail.dropWhile isNamePart) = '=' :: afterEquals)
include equals

theorem step_valueless (ends : Text.trimLeft afterEquals = []) :
    step head = .valueless (c :: tail.takeWhile isNamePart) := by
  rw [step, trimmed]
  dsimp only
  rw [if_pos named, equals]
  simp only [ends]

theorem step_valued {first : Char} {rest : Text} (begins : Text.trimLeft afterEquals = first :: rest) :
    step head = .found ⟨c :: tail.takeWhile isNamePart, some (readValue first rest).1,
      (c :: tail).take (tail.length + 1 - (readValue first rest).2.length)⟩ (readValue first rest).2 := by
  rw [step, trimmed]
  dsimp only
  rw [if_pos named, equals]
  simp only [begins]

end Valued

end Named

/-! ### Values -/

theorem readValue_quoted {quote : Char} (quotes : isQuote quote = true) {text : Text} (free : ∀ c ∈ text, c ≠ quote)
    (rest : Text) : readValue quote (text ++ [quote] ++ rest) = ((.quoted quote, text), rest) := by
  have noBrace : quote ≠ '\x7b' := by
    rintro rfl
    exact absurd quotes (by decide)
  rw [readValue, if_neg noBrace, if_pos quotes, List.append_assoc, List.singleton_append, Text.cut?_append free]

theorem readValue_braces {text : Text} (balanced : Nesting.Balanced '\x7b' '\x7d' text) (rest : Text) :
    readValue '\x7b' (text ++ ['\x7d'] ++ rest) = ((.braces, text), rest) := by
  rw [readValue, if_pos rfl, List.append_assoc, List.singleton_append, Nesting.close?_body (by decide) balanced]

/-! ### One attribute -/

/-- One or more characters of a name. -/
def IsName (name : Text) : Prop := name ≠ [] ∧ ∀ c ∈ name, isNamePart c = true

instance (name : Text) : Decidable (IsName name) := inferInstanceAs (Decidable (_ ∧ _))

/-- An attribute by its spelling, in front of a text that lets it end there: behind a name alone neither a character of
a name nor an equals sign may follow, and a value ends where its reader ends. -/
inductive Spelled : Attribute → Text → Prop
  | bare {name rest : Text} (named : IsName name) (stops : rest.head?.all (fun c => !isNamePart c) = true)
    (unassigned : (Text.trimLeft rest).head? ≠ some '=') : Spelled ⟨name, none, name⟩ rest
  | valued {name left right value rest : Text} {first : Char} {read : Quoting × Text} (named : IsName name)
    (leftSpace : IsSpace left) (rightSpace : IsSpace right) (solid : isBlank first = false)
    (reads : readValue first (value ++ rest) = (read, rest)) :
    Spelled ⟨name, some read, name ++ left ++ '=' :: right ++ first :: value⟩ rest

/-- What lets every attribute end whose value is closed: the end of the head, or white space with no equals sign
behind it. -/
def Apart (rest : Text) : Prop := rest.head?.all isBlank = true ∧ (Text.trimLeft rest).head? ≠ some '='

theorem suffix_of_readValue (first : Char) (rest : Text) : (readValue first rest).2 <:+ rest := by
  rw [readValue]
  split
  · split
    · next inside after closed =>
      exact ⟨inside ++ ['\x7d'], by rw [Nesting.eq_of_close? closed, List.append_assoc, List.singleton_append]⟩
    · exact List.nil_suffix
  · split
    · split
      · next inside after closed =>
        exact ⟨inside ++ [first], by rw [Text.eq_of_cut? closed, List.append_assoc, List.singleton_append]⟩
      · exact List.nil_suffix
    · exact List.dropWhile_suffix _

theorem head_of_apart {rest : Text} (apart : Apart rest) : rest.head?.all (fun c => !isNamePart c) = true := by
  cases rest with
  | nil => rfl
  | cons c rest =>
    have blank : isBlank c = true := by simpa using apart.1
    simp [isNamePart, blank]

/-- What a value takes of a text does not depend on what follows, unless it takes everything. -/
theorem readValue_append {first : Char} {value rest more : Text} {read : Quoting × Text}
    (reads : readValue first (value ++ rest) = (read, rest)) (last : rest = [] → more = [])
    (blank : more.head?.all isBlank = true) : readValue first (value ++ more) = (read, more) := by
  -- A value that is not closed ends with the head, and then so does it in front of `more`.
  have unclosed {quoting : Quoting} (whole : ((quoting, value ++ rest), []) = (read, rest)) :
      ((quoting, value ++ more), []) = (read, more) := by
    obtain rfl : rest = [] := (Prod.mk.inj whole).2.symm
    rw [last rfl]
    exact whole
  rw [readValue] at reads ⊢
  split at reads
  · next brace =>
    rw [if_pos brace]
    cases closed : Nesting.close? '\x7b' '\x7d' ⟨none, 1⟩ (value ++ rest) with
    | some found =>
      obtain ⟨inside, after⟩ := found
      rw [closed] at reads
      cases reads
      have taken : value = inside ++ ['\x7d'] := List.append_cancel_right (by simpa using Nesting.eq_of_close? closed)
      rw [taken, List.append_assoc, List.singleton_append, Nesting.close?_append closed]
    | none =>
      rw [closed] at reads
      obtain rfl : rest = [] := (Prod.mk.inj reads).2.symm
      rw [last rfl, closed]
      exact reads
  · next noBrace =>
    rw [if_neg noBrace]
    split at reads
    · next quotes =>
      rw [if_pos quotes]
      cases closed : Text.cut? first (value ++ rest) with
      | some found =>
        obtain ⟨inside, after⟩ := found
        rw [closed] at reads
        cases reads
        have taken : value = inside ++ [first] := List.append_cancel_right (by simpa using Text.eq_of_cut? closed)
        rw [taken, List.append_assoc, List.singleton_append, Text.cut?_append (Text.free_of_cut? closed)]
      | none =>
        rw [closed] at reads
        obtain rfl : rest = [] := (Prod.mk.inj reads).2.symm
        rw [last rfl, closed]
        exact reads
    · next noQuote =>
      rw [if_neg noQuote]
      obtain ⟨rfl, ends⟩ := Prod.mk.inj reads
      have taken : (value ++ rest).takeWhile (!isBlank ·) = value := by
        have whole := List.takeWhile_append_dropWhile (p := (!isBlank ·)) (l := value ++ rest)
        rw [ends] at whole
        exact List.append_cancel_right whole
      have solid : ∀ c ∈ value, (!isBlank c) = true := by
        intro c member
        rw [← taken] at member
        exact List.mem_takeWhile_imp (p := (!isBlank ·)) member
      have stop : more.head?.all (fun c => !(!isBlank c)) = true := by simpa using blank
      obtain ⟨again, behind⟩ := Text.takeWhile_append_of_stop solid stop
      rw [again, behind, taken]

/-- A spelled attribute is what a step finds. -/
theorem Spelled.step_eq {attr : Attribute} {rest : Text} (spelled : Spelled attr rest) :
    step (attr.raw ++ rest) = .found attr rest := by
  cases spelled with
  | @bare name rest named stops unassigned =>
    obtain ⟨c, tail, rfl⟩ := List.exists_cons_of_ne_nil named.1
    have part := named.2 c List.mem_cons_self
    obtain ⟨taken, behind⟩ := Text.takeWhile_append_of_stop (fun d member => named.2 d (List.mem_cons_of_mem c member)) stops
    have trimmed : Text.trimLeft (c :: tail ++ rest) = c :: (tail ++ rest) :=
      Text.trimLeft_cons_of_not_blank (solid_of_isNamePart part).1 _
    have found := step_bare trimmed part (by rw [behind]; exact unassigned)
    rwa [taken, behind] at found
  | @valued name left right value rest first read named leftSpace rightSpace solid reads =>
    obtain ⟨c, tail, rfl⟩ := List.exists_cons_of_ne_nil named.1
    have part := named.2 c List.mem_cons_self
    have spelling : c :: tail ++ left ++ '=' :: right ++ first :: value ++ rest =
        c :: (tail ++ (left ++ '=' :: (right ++ first :: (value ++ rest)))) := by simp
    have stops : (left ++ '=' :: (right ++ first :: (value ++ rest))).head?.all (fun c => !isNamePart c) = true := by
      cases left with
      | nil => rfl
      | cons d left => simp [isNamePart, leftSpace d List.mem_cons_self]
    obtain ⟨taken, behind⟩ := Text.takeWhile_append_of_stop (fun d member => named.2 d (List.mem_cons_of_mem c member)) stops
    have trimmed := Text.trimLeft_cons_of_not_blank (solid_of_isNamePart part).1
      (tail ++ (left ++ '=' :: (right ++ first :: (value ++ rest))))
    have found := step_valued trimmed part (by rw [behind]; exact Text.trimLeft_append_cons leftSpace (by decide) _)
      (Text.trimLeft_append_cons rightSpace solid _)
    have raw : (c :: (tail ++ (left ++ '=' :: (right ++ first :: (value ++ rest))))).take
        ((tail ++ (left ++ '=' :: (right ++ first :: (value ++ rest)))).length + 1 - rest.length) =
          c :: tail ++ left ++ '=' :: right ++ first :: value := by
      rw [← List.length_cons, ← spelling, List.length_append, Nat.add_sub_cancel, List.take_left]
    rw [reads, raw, taken, ← spelling] at found
    exact found

/-- What a step finds is spelled at the front of the head. -/
theorem spelled_of_step {head rest : Text} {attr : Attribute} (finds : step head = .found attr rest) :
    Text.trimLeft head = attr.raw ++ rest ∧ Spelled attr rest := by
  cases trimmed : Text.trimLeft head with
  | nil =>
    rw [step, trimmed] at finds
    cases finds
  | cons c tail =>
    by_cases part : isNamePart c = true
    · have named : IsName (c :: tail.takeWhile isNamePart) :=
        ⟨List.cons_ne_nil _ _, List.forall_mem_cons.2 ⟨part, fun d member => List.mem_takeWhile_imp member⟩⟩
      have split := List.takeWhile_append_dropWhile (p := isNamePart) (l := tail)
      by_cases equals : (Text.trimLeft (tail.dropWhile isNamePart)).head? = some '='
      · obtain ⟨afterEquals, assigned⟩ := List.head?_eq_some_iff.1 equals
        obtain ⟨left, leftSpace, beforeEquals⟩ := Text.exists_eq_trimLeft (tail.dropWhile isNamePart)
        obtain ⟨right, rightSpace, beforeValue⟩ := Text.exists_eq_trimLeft afterEquals
        cases begins : Text.trimLeft afterEquals with
        | nil =>
          rw [step_valueless trimmed part assigned begins] at finds
          cases finds
        | cons first behind =>
          rw [step_valued trimmed part assigned begins] at finds
          obtain ⟨value, taken⟩ := suffix_of_readValue first behind
          obtain ⟨same, rfl⟩ := Step.found.inj finds
          generalize reads : readValue first behind = result at same taken ⊢
          obtain ⟨read, rest⟩ := result
          subst same
          have whole : c :: tail =
              (c :: tail.takeWhile isNamePart ++ left ++ '=' :: right ++ first :: value) ++ rest := by
            conv => lhs; rw [← split, beforeEquals, assigned, beforeValue, begins, ← taken]
            simp
          have raw : (c :: tail).take (tail.length + 1 - rest.length) =
              c :: tail.takeWhile isNamePart ++ left ++ '=' :: right ++ first :: value := by
            rw [← List.length_cons, whole, List.length_append, Nat.add_sub_cancel, List.take_left]
          rw [← taken] at reads
          rw [raw]
          exact ⟨whole, .valued named leftSpace rightSpace (stop_of_dropWhile begins) reads⟩
      · rw [step_bare trimmed part equals] at finds
        cases finds
        exact ⟨by rw [List.cons_append, split], .bare named (all_head?_dropWhile isNamePart tail) equals⟩
    · rw [step, trimmed] at finds
      dsimp only at finds
      rw [if_neg part] at finds
      cases finds

/-- An attribute may be taken to another place if it may end there. -/
theorem Spelled.move {attr : Attribute} {rest more : Text} (spelled : Spelled attr rest) (last : rest = [] → more = [])
    (apart : Apart more) : Spelled attr more := by
  cases spelled with
  | bare named _ _ => exact .bare named (head_of_apart apart) apart.2
  | valued named leftSpace rightSpace solid reads =>
    exact .valued named leftSpace rightSpace solid (readValue_append reads last apart.1)

theorem Spelled.begins {attr : Attribute} {rest : Text} (spelled : Spelled attr rest) :
    ∃ c tail, attr.raw = c :: tail ∧ isNamePart c = true := by
  have first {name : Text} (named : IsName name) : ∃ c tail, name = c :: tail ∧ isNamePart c = true := by
    obtain ⟨c, tail, rfl⟩ := List.exists_cons_of_ne_nil named.1
    exact ⟨c, tail, rfl, named.2 c List.mem_cons_self⟩
  cases spelled with
  | bare named _ _ => exact first named
  | valued named _ _ _ _ =>
    obtain ⟨c, tail, rfl, part⟩ := first named
    exact ⟨c, _, rfl, part⟩

theorem Spelled.tokenize_append {attr : Attribute} {rest : Text} (spelled : Spelled attr rest) :
    tokenize (attr.raw ++ rest) = attr :: tokenize rest := tokenize_of_found spelled.step_eq

theorem spelled_of_mem_tokenize {head : Text} {attr : Attribute} (member : attr ∈ tokenize head) :
    ∃ rest, Spelled attr rest := by
  induction head using scan.induct with
  | case1 head finished =>
    rw [tokenize_eq, finished] at member
    simp [Step.taken, Step.rest, tokenize_nil] at member
  | case2 head name valueless =>
    rw [tokenize_eq, valueless] at member
    simp [Step.taken, Step.rest, tokenize_nil] at member
  | case3 head rest skips ih =>
    rw [tokenize_eq, skips] at member
    exact ih member
  | case4 head first rest finds _ _ _ ih =>
    rw [tokenize_of_found finds] at member
    rcases List.mem_cons.1 member with rfl | later
    · exact ⟨rest, (spelled_of_step finds).2⟩
    · exact ih later

end Attribute

end ComponentPages
