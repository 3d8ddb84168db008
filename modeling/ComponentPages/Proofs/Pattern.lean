import ComponentPages.Text.Pattern
import ComponentPages.Proofs.Text

/-!
The segments of a text that is put together from pieces. Where a pattern begins nowhere inside a piece, the
piece falls into single characters; where it takes a piece whole, the piece is a hit.
-/
namespace ComponentPages

namespace Pattern

variable {α : Type}

theorem run_append {class_ : Char → Bool} {found rest : Text} (nonempty : found ≠ []) (parts : ∀ c ∈ found, class_ c = true)
    (stops : rest.head?.all (fun c => !class_ c) = true) : run class_ (found ++ rest) = some (found, rest) := by
  obtain ⟨taken, left⟩ := Text.takeWhile_append_of_stop parts stops
  rw [run, taken, left]
  cases found with
  | nil => exact absurd rfl nonempty
  | cons c found => rfl

theorem eq_of_run {class_ : Char → Bool} {text found rest : Text} (ran : run class_ text = some (found, rest)) :
    text = found ++ rest ∧ ∀ c ∈ found, class_ c = true := by
  unfold run at ran
  split at ran
  · cases ran
  · obtain ⟨rfl, rfl⟩ := Prod.mk.inj (Option.some.inj ran)
    exact ⟨List.takeWhile_append_dropWhile.symm, fun c member => List.mem_takeWhile_imp member⟩

theorem ne_nil_of_run {class_ : Char → Bool} {text found rest : Text} (ran : run class_ text = some (found, rest)) :
    found ≠ [] := by
  unfold run at ran
  split at ran
  · cases ran
  · next nonempty =>
    obtain ⟨rfl, -⟩ := Prod.mk.inj (Option.some.inj ran)
    exact nonempty

theorem eq_of_identifier {text name rest : Text} (named : identifier text = some (name, rest)) :
    text = name ++ rest ∧ Text.isIdentifier name = true := by
  unfold identifier at named
  split at named
  · cases named
  · split at named
    · next start =>
      cases named
      rw [List.cons_append, List.takeWhile_append_dropWhile, Text.isIdentifier, start, Bool.true_and, List.all_eq_true]
      exact ⟨rfl, fun c member => List.mem_takeWhile_imp member⟩
    · cases named

theorem identifier_append {name rest : Text} (is : Text.isIdentifier name = true)
    (stops : rest.head?.all (fun c => !isIdentifierPart c) = true) : identifier (name ++ rest) = some (name, rest) := by
  cases name with
  | nil => cases is
  | cons c name =>
    rw [Text.isIdentifier, Bool.and_eq_true, List.all_eq_true] at is
    obtain ⟨taken, dropped⟩ := Text.takeWhile_append_of_stop is.2 stops
    rw [List.cons_append, identifier, if_pos is.1, taken, dropped]

/-- The pattern begins nowhere inside the piece when the rest follows it. -/
def Passes (read : Pattern α) (piece rest : Text) : Prop :=
  ∀ before c after, piece = before ++ c :: after → read (c :: after ++ rest) = none

/-- The pattern begins nowhere in the text. -/
def Absent (read : Pattern α) (text : Text) : Prop := Passes read text []

theorem passes_nil (read : Pattern α) (rest : Text) : Passes read [] rest := by
  intro before c after whole
  simp at whole

theorem passes_cons_iff {read : Pattern α} {c : Char} {piece rest : Text} :
    Passes read (c :: piece) rest ↔ read (c :: piece ++ rest) = none ∧ Passes read piece rest := by
  constructor
  · intro passes
    refine ⟨passes [] c piece rfl, ?_⟩
    intro before d after whole
    exact passes (c :: before) d after (by rw [whole, List.cons_append])
  · rintro ⟨here, later⟩ before d after whole
    cases before with
    | nil =>
      obtain ⟨rfl, rfl⟩ := List.cons.inj whole
      exact here
    | cons e before =>
      exact later before d after (List.cons.inj whole).2

theorem passes_append_iff {read : Pattern α} {first second rest : Text} :
    Passes read (first ++ second) rest ↔ Passes read first (second ++ rest) ∧ Passes read second rest := by
  induction first with
  | nil => simp [passes_nil]
  | cons c first ih =>
    rw [List.cons_append, passes_cons_iff, passes_cons_iff, ih, and_assoc]
    simp

theorem absent_append_iff {read : Pattern α} {first second : Text} :
    Absent read (first ++ second) ↔ Passes read first second ∧ Absent read second := by
  unfold Absent
  rw [passes_append_iff, List.append_nil]

/-- A pattern begins nowhere in a piece that has none of the characters it can begin with. -/
theorem passes_of_begins {read : Pattern α} {piece : Text} (rest : Text)
    (free : ∀ c ∈ piece, ∀ text, read (c :: text) = none) : Passes read piece rest := by
  intro before c after whole
  have member : c ∈ piece := by
    rw [whole]
    exact List.mem_append_right before List.mem_cons_self
  exact free c member (after ++ rest)

theorem segments_append {read : Pattern α} {piece rest : Text} (passes : Passes read piece rest) :
    segments read (piece ++ rest) = piece.map Segment.plain ++ segments read rest := by
  induction piece with
  | nil => rfl
  | cons c piece ih =>
    obtain ⟨here, later⟩ := passes_cons_iff.1 passes
    rw [List.cons_append] at here
    rw [List.cons_append, segments, here, List.map_cons, List.cons_append]
    dsimp only
    rw [ih later]

theorem mem_of_mem_located {offset place : Nat} {segments : List (Segment α)} {segment : Segment α}
    (member : (place, segment) ∈ located offset segments) : segment ∈ segments := by
  induction segments generalizing offset with
  | nil => cases member
  | cons first segments ih =>
    rcases List.mem_cons.1 member with same | later
    · rw [(Prod.mk.inj same).2]
      exact List.mem_cons_self
    · exact List.mem_cons_of_mem first (ih later)

/-- A segment begins within the text that the segments cover. -/
theorem le_of_mem_located {offset place : Nat} {segments : List (Segment α)} {segment : Segment α}
    (member : (place, segment) ∈ located offset segments) :
    place + segment.source.length ≤ offset + (segments.flatMap Segment.source).length := by
  induction segments generalizing offset with
  | nil => cases member
  | cons first segments ih =>
    rw [List.flatMap_cons, List.length_append]
    rcases List.mem_cons.1 member with same | later
    · obtain ⟨rfl, rfl⟩ := Prod.mk.inj same
      omega
    · have bound := ih later
      omega

theorem segments_hit {read : Pattern α} {piece rest : Text} {value : α} (nonempty : piece ≠ [])
    (takes : read (piece ++ rest) = some (value, rest)) :
    segments read (piece ++ rest) = .hit piece value :: segments read rest := by
  obtain ⟨c, tail, rfl⟩ := List.exists_cons_of_ne_nil nonempty
  rw [List.cons_append] at takes ⊢
  rw [segments, takes]
  have taken : (tail ++ rest).length + 1 - rest.length = (c :: tail).length := by
    simp only [List.length_append, List.length_cons]
    omega
  dsimp only
  rw [taken, if_pos (by simp), ← List.cons_append, List.take_left, List.drop_left]

theorem segments_of_absent {read : Pattern α} {text : Text} (absent : Absent read text) :
    segments read text = text.map Segment.plain := by
  have whole := segments_append absent
  rw [List.append_nil] at whole
  rw [whole, segments, List.append_nil]

theorem replace_append {read : Pattern α} {piece rest : Text} (passes : Passes read piece rest) (write : α → Text) :
    replace read write (piece ++ rest) = piece ++ replace read write rest := by
  unfold replace
  rw [segments_append passes, List.flatMap_append]
  congr 1
  induction piece with
  | nil => rfl
  | cons c piece ih =>
    rw [List.map_cons, List.flatMap_cons, ih (passes_cons_iff.1 passes).2]
    rfl

theorem replace_hit {read : Pattern α} {piece rest : Text} {value : α} (nonempty : piece ≠ [])
    (takes : read (piece ++ rest) = some (value, rest)) (write : α → Text) :
    replace read write (piece ++ rest) = write value ++ replace read write rest := by
  unfold replace
  rw [segments_hit nonempty takes, List.flatMap_cons]
  rfl

theorem replace_of_absent {read : Pattern α} {text : Text} (absent : Absent read text) (write : α → Text) :
    replace read write text = text := by
  have whole := replace_append absent write
  rw [List.append_nil] at whole
  rw [whole, replace, segments, List.flatMap_nil, List.append_nil]

theorem erase_of_absent {read : Pattern α} {text : Text} (absent : Absent read text) : erase read text = text :=
  replace_of_absent absent _

/-- A text without hits is kept when they are taken out. -/
theorem erase_of_values {read : Pattern α} {text : Text} (nothing : values read text = []) : erase read text = text := by
  have plain := List.filterMap_eq_nil_iff.1 nothing
  have same : (segments read text).map (Segment.write fun _ => []) = (segments read text).map Segment.source := by
    refine List.map_congr_left fun segment member => ?_
    have none := plain segment member
    cases segment with
    | plain c => rfl
    | hit source value => cases none
  rw [erase, replace, List.flatMap_def, same, ← List.flatMap_def]
  exact flatMap_source_segments read text

theorem values_of_absent {read : Pattern α} {text : Text} (absent : Absent read text) : values read text = [] := by
  rw [values, segments_of_absent absent, List.filterMap_map]
  exact List.filterMap_eq_nil_iff.2 fun _ _ => rfl

theorem seek?_of_absent {read : Pattern α} {text : Text} (absent : Absent read text) : seek? read text = none := by
  induction text with
  | nil => rfl
  | cons c text ih =>
    obtain ⟨here, later⟩ := passes_cons_iff.1 absent
    rw [List.append_nil] at here
    rw [seek?, here]
    dsimp only
    rw [ih later, Option.map_none]

theorem exists_of_seek? {read : Pattern α} {text before rest : Text} {value : α}
    (sought : seek? read text = some (before, value, rest)) :
    ∃ front, text = before ++ front ∧ read front = some (value, rest) := by
  induction text generalizing before with
  | nil => cases sought
  | cons c tail ih =>
    rw [seek?] at sought
    split at sought
    · next reads =>
      cases sought
      exact ⟨c :: tail, rfl, reads⟩
    · obtain ⟨⟨first, found⟩, later, same⟩ := Option.map_eq_some_iff.1 sought
      cases same
      obtain ⟨front, whole, reads⟩ := ih later
      exact ⟨front, by rw [whole, List.cons_append], reads⟩

theorem absent_of_seek? {read : Pattern α} {text : Text} (nothing : seek? read text = none) : Absent read text := by
  induction text with
  | nil => exact passes_nil read []
  | cons c text ih =>
    rw [seek?] at nothing
    cases here : read (c :: text) with
    | some found =>
      rw [here] at nothing
      cases nothing
    | none =>
      rw [here] at nothing
      refine passes_cons_iff.2 ⟨?_, ih (Option.map_eq_none_iff.1 nothing)⟩
      rw [List.append_nil]
      exact here

/-- What is found in front of a text is found there whatever follows the text. -/
def Persists (read : Pattern α) : Prop := ∀ text more, read (text ++ more) = none → read text = none

/-- Where a pattern begins nowhere in a text, it begins nowhere in a part of it. -/
theorem Persists.absent_part {read : Pattern α} (persists : Persists read) {before text after : Text}
    (absent : Absent read (before ++ text ++ after)) : Absent read text := by
  intro front c rest whole
  have here := absent (before ++ front) c (rest ++ after) (by simp [whole])
  rw [List.append_nil] at here ⊢
  exact persists (c :: rest) after here

theorem Persists.seek?_eq_none {read : Pattern α} (persists : Persists read) {text more : Text}
    (nothing : seek? read (text ++ more) = none) : seek? read text = none := by
  have absent := absent_of_seek? nothing
  rw [← List.nil_append text] at absent
  exact seek?_of_absent (persists.absent_part absent)

theorem seek?_append {read : Pattern α} {piece rest : Text} (passes : Passes read piece rest) :
    seek? read (piece ++ rest) = (seek? read rest).map fun (before, found) => (piece ++ before, found) := by
  induction piece with
  | nil => simp
  | cons c piece ih =>
    obtain ⟨here, later⟩ := passes_cons_iff.1 passes
    rw [List.cons_append] at here
    rw [List.cons_append, seek?, here]
    dsimp only
    rw [ih later, Option.map_map]
    rfl

theorem seek?_of_read {read : Pattern α} {text rest : Text} {value : α} (nonempty : text ≠ [])
    (reads : read text = some (value, rest)) : seek? read text = some ([], value, rest) := by
  obtain ⟨c, tail, rfl⟩ := List.exists_cons_of_ne_nil nonempty
  rw [seek?, reads]

/-- A suffix of a text that a pattern is absent from. -/
theorem Absent.drop {read : Pattern α} {text : Text} (absent : Absent read text) (offset : Nat) :
    Absent read (text.drop offset) := by
  rw [← List.take_append_drop offset text] at absent
  exact (absent_append_iff.1 absent).2

theorem absent_map {read : Pattern α} {f : Char → Char} (kept : ∀ text, read text = none → read (text.map f) = none)
    {text : Text} (absent : Absent read text) : Absent read (text.map f) := by
  induction text with
  | nil => exact passes_nil read []
  | cons c text ih =>
    obtain ⟨here, later⟩ := passes_cons_iff.1 absent
    rw [List.append_nil] at here
    refine passes_cons_iff.2 ⟨?_, ih later⟩
    rw [List.append_nil]
    exact kept (c :: text) here

/-- What is absent from a text is absent from it in front of a character that reading stops at. -/
theorem passes_border {read : Pattern α} {border : Char}
    (stops : ∀ c text more, read (c :: text) = none → read (c :: text ++ border :: more) = none) {text : Text}
    (absent : Absent read text) (more : Text) : Passes read text (border :: more) := by
  intro before c after whole
  have here := absent before c after whole
  rw [List.append_nil] at here
  exact stops c after more here

section Border

variable {class_ : Char → Bool} {border : Char} (foreign : class_ border = false) (text more : Text)

include foreign

theorem takeWhile_append_border : (text ++ border :: more).takeWhile class_ = text.takeWhile class_ := by
  induction text with
  | nil => exact List.takeWhile_cons_of_neg (by simp [foreign])
  | cons c text ih =>
    by_cases here : class_ c = true
    · rw [List.cons_append, List.takeWhile_cons_of_pos here, List.takeWhile_cons_of_pos here, ih]
    · rw [List.cons_append, List.takeWhile_cons_of_neg here, List.takeWhile_cons_of_neg here]

theorem dropWhile_append_border : (text ++ border :: more).dropWhile class_ = text.dropWhile class_ ++ border :: more := by
  induction text with
  | nil => exact List.dropWhile_cons_of_neg (by simp [foreign])
  | cons c text ih =>
    by_cases here : class_ c = true
    · rw [List.cons_append, List.dropWhile_cons_of_pos here, List.dropWhile_cons_of_pos here, ih]
    · rw [List.cons_append, List.dropWhile_cons_of_neg here, List.dropWhile_cons_of_neg here, List.cons_append]

/-- A run of characters ends before one that is not of the class. -/
theorem run_append_border :
    run class_ (text ++ border :: more) = (run class_ text).map fun (found, rest) => (found, rest ++ border :: more) := by
  unfold run
  rw [takeWhile_append_border foreign, dropWhile_append_border foreign]
  split <;> rfl

end Border

end Pattern

end ComponentPages
