import ComponentPages.Proofs.Project.Sources
import ComponentPages.Proofs.Text

/-!
Links between the files of a project. A link goes up from the directory of a page to the last directory that it has in common
with its goal, and down from there. Followed name by name it comes to the goal, and it never goes up from the top.
-/
namespace ComponentPages

namespace Path

/-- A name as it stands between two slashes. -/
structure IsSegment (name : Text) : Prop where
  nonempty : name ≠ []
  unslashed : '/' ∉ name
  moves : name ≠ ['.']
  descends : name ≠ ['.', '.']

instance : DecidablePred IsSegment := fun name =>
  decidable_of_iff (name ≠ [] ∧ '/' ∉ name ∧ name ≠ ['.'] ∧ name ≠ ['.', '.'])
    ⟨fun ⟨nonempty, unslashed, moves, descends⟩ => ⟨nonempty, unslashed, moves, descends⟩,
      fun segment => ⟨segment.nonempty, segment.unslashed, segment.moves, segment.descends⟩⟩

/-- Where a way leads from a directory, name by name: `.` stays, `..` cancels the name before it, which there must be, and any
other name goes down. -/
def follow? : (here way : List Text) → Option (List Text)
  | here, [] => some here
  | here, name :: way =>
    if name = ['.'] then follow? here way
    else if name = ['.', '.'] then
      if here = [] then none else follow? here.dropLast way
    else follow? (here ++ [name]) way

/-! ### The way -/

theorem follow?_down {names : List Text} (named : ∀ name ∈ names, IsSegment name) (here : List Text) :
    follow? here names = some (here ++ names) := by
  induction names generalizing here with
  | nil => rw [follow?, List.append_nil]
  | cons name names ih =>
    obtain ⟨segment, later⟩ := List.forall_mem_cons.1 named
    rw [follow?, if_neg segment.moves, if_neg segment.descends, ih later, List.append_assoc, List.singleton_append]

/-- Going up as often as there are names at the end takes these names back. -/
theorem follow?_up (front back way : List Text) :
    follow? (front ++ back) (List.replicate back.length ['.', '.'] ++ way) = follow? front way := by
  induction back using List.reverseRecOn with
  | nil => rw [List.append_nil, List.length_nil, List.replicate_zero, List.nil_append]
  | append_singleton back name ih =>
    have below : front ++ (back ++ [name]) ≠ [] := by simp
    rw [List.length_append, List.length_singleton, List.replicate_succ, List.cons_append, follow?, if_neg (by decide),
      if_pos rfl, if_neg below, ← List.append_assoc, List.dropLast_concat]
    exact ih

theorem take_sharedLength (here there : List Text) :
    here.take (sharedLength here there) = there.take (sharedLength here there) := by
  fun_induction sharedLength here there with
  | case1 here there name ih => rw [List.take_succ_cons, List.take_succ_cons, ih]
  | case2 => rfl
  | case3 => rfl

/-- From a directory, the way to a location leads there: up to what the two share, then down. -/
theorem follow?_route (here : List Text) {there : List Text} (named : ∀ name ∈ there, IsSegment name) :
    follow? here (route here there) = some there := by
  have below : ∀ name ∈ there.drop (sharedLength here there), IsSegment name :=
    fun name member => named name (List.mem_of_mem_drop member)
  calc
    follow? here (route here there) =
        follow? (here.take (sharedLength here there) ++ here.drop (sharedLength here there))
          (List.replicate (here.drop (sharedLength here there)).length ['.', '.'] ++
            there.drop (sharedLength here there)) := by
      rw [List.take_append_drop, List.length_drop, route]
    _ = follow? (there.take (sharedLength here there)) (there.drop (sharedLength here there)) := by
      rw [follow?_up, take_sharedLength]
    _ = some there := by rw [follow?_down below, List.take_append_drop]

theorem sharedLength_append (front here there : List Text) :
    sharedLength (front ++ here) (front ++ there) = front.length + sharedLength here there := by
  induction front with
  | nil => rw [List.nil_append, List.nil_append, List.length_nil, Nat.zero_add]
  | cons name front ih =>
    rw [List.cons_append, List.cons_append, sharedLength, if_pos rfl, ih, List.length_cons]
    omega

/-- What stands before two locations is no part of the way between them. -/
theorem route_append (front here there : List Text) : route (front ++ here) (front ++ there) = route here there := by
  rw [route, route, sharedLength_append, List.length_append, Nat.add_sub_add_left, ← List.drop_drop, List.drop_left]

theorem unslashed_route (here : List Text) {there : List Text} (named : ∀ name ∈ there, IsSegment name) :
    ∀ name ∈ route here there, '/' ∉ name := by
  intro name member
  rcases List.mem_append.1 member with up | down
  · rw [List.eq_of_mem_replicate up]
    decide
  · exact (named name (List.mem_of_mem_drop down)).unslashed

/-! ### The way as a text -/

theorem pieces_slashed {names : List Text} (some : names ≠ []) (unslashed : ∀ name ∈ names, '/' ∉ name) :
    Text.pieces '/' (slashed names) = names :=
  Text.pieces_intercalate some unslashed

/-- A way reads as its names; the way from a directory to itself is a single dot. -/
theorem follow?_render (here : List Text) {way : List Text} (unslashed : ∀ name ∈ way, '/' ∉ name) :
    follow? here (Text.pieces '/' (render ⟨[], way⟩)) = follow? here way := by
  cases way with
  | nil => rfl
  | cons name way =>
    have rendered : render ⟨[], name :: way⟩ = slashed (name :: way) := rfl
    rw [rendered, pieces_slashed (List.cons_ne_nil name way) unslashed]

theorem slashed_cons_cons (name next : Text) (names : List Text) :
    slashed (name :: next :: names) = name ++ '/' :: slashed (next :: names) := by
  rw [slashed, List.intercalate_cons_cons, List.append_assoc, List.singleton_append, ← slashed]

theorem slashed_singleton (name : Text) : slashed [name] = name := List.intercalate_singleton

theorem slashed_concat {names : List Text} (some : names ≠ []) (last : Text) :
    slashed (names ++ [last]) = slashed names ++ '/' :: last := by
  induction names with
  | nil => exact absurd rfl some
  | cons name names ih =>
    cases names with
    | nil => rw [List.singleton_append, slashed_cons_cons, slashed_singleton, slashed_singleton]
    | cons next names =>
      have later := ih (List.cons_ne_nil next names)
      rw [List.cons_append] at later
      rw [List.cons_append, List.cons_append, slashed_cons_cons, later, slashed_cons_cons, List.append_assoc,
        List.cons_append]

section Segments

variable {names : List Text} (named : ∀ name ∈ names, IsSegment name)

include named

/-- A path of segments begins with no slash. -/
theorem exists_slashed_cons (some : names ≠ []) : ∃ c rest, slashed names = c :: rest ∧ c ≠ '/' := by
  obtain ⟨name, names, rfl⟩ := List.exists_cons_of_ne_nil some
  obtain ⟨segment, -⟩ := List.forall_mem_cons.1 named
  obtain ⟨c, rest, rfl⟩ := List.exists_cons_of_ne_nil segment.nonempty
  have other : c ≠ '/' := fun same => segment.unslashed (same ▸ List.mem_cons_self)
  cases names with
  | nil => exact ⟨c, rest, slashed_singleton (c :: rest), other⟩
  | cons next names => exact ⟨c, rest ++ '/' :: slashed (next :: names), slashed_cons_cons (c :: rest) next names, other⟩

/-- And it ends in no slash. -/
theorem exists_slashed_concat (some : names ≠ []) : ∃ front c, slashed names = front ++ [c] ∧ c ≠ '/' := by
  obtain ⟨names, last, rfl⟩ := (List.eq_nil_or_concat' names).resolve_left some
  have segment := named last (List.mem_append_right names List.mem_cons_self)
  obtain ⟨front, c, rfl⟩ := (List.eq_nil_or_concat' last).resolve_left segment.nonempty
  have other : c ≠ '/' := fun same => segment.unslashed (same ▸ List.mem_append_right front List.mem_cons_self)
  by_cases alone : names = []
  · exact ⟨front, c, by rw [alone, List.nil_append, slashed_singleton], other⟩
  · exact ⟨slashed names ++ '/' :: front, c, by rw [slashed_concat alone, List.append_assoc, List.cons_append], other⟩

theorem ofText_slashed : ofText (slashed names) = ⟨[], names⟩ := by
  by_cases none : names = []
  · rw [none]
    rfl
  · obtain ⟨c, rest, begins, other⟩ := exists_slashed_cons named none
    have unrooted : (slashed names).takeWhile (· == '/') = [] := by
      rw [begins, List.takeWhile_cons_of_neg (by simpa using other)]
    have kept : ∀ name ∈ names, (!name.isEmpty && name != ['.']) = true := by
      intro name member
      simp [(named name member).nonempty, (named name member).moves]
    rw [ofText, unrooted, namesIn, pieces_slashed none fun name member => (named name member).unslashed,
      List.filter_eq_self.2 kept]
    rfl

/-- A file's directory is what stands before its last slash. -/
theorem directoryOf_slashed {file : Text} (unslashed : '/' ∉ file) : directoryOf (slashed (names ++ [file])) = slashed names := by
  have solid : ∀ c ∈ file.reverse, (c != '/') = true := by
    intro c member
    rw [bne_iff_ne]
    rintro rfl
    exact unslashed (List.mem_reverse.1 member)
  by_cases none : names = []
  · have whole : file.reverse.dropWhile (· != '/') = [] := List.dropWhile_eq_nil_iff.2 solid
    rw [none, List.nil_append, slashed_singleton, directoryOf, whole]
    rfl
  · obtain ⟨c, rest, begins, other⟩ := exists_slashed_cons named none
    obtain ⟨front, last, ends, final⟩ := exists_slashed_concat named none
    have backwards : (slashed (names ++ [file])).reverse = file.reverse ++ '/' :: (slashed names).reverse := by
      rw [slashed_concat none, List.reverse_append, List.reverse_cons, List.append_assoc, List.singleton_append]
    have head : ((slashed (names ++ [file])).reverse.dropWhile (· != '/')).reverse = slashed names ++ ['/'] := by
      rw [backwards, (Text.takeWhile_append_cons solid (by decide) _).2, List.reverse_cons, List.reverse_reverse]
    have open_ : (slashed names ++ ['/']).all (· == '/') = false := by
      rw [begins, List.cons_append, List.all_cons, beq_eq_false_iff_ne.2 other, Bool.false_and]
    have trimmed : (slashed names ++ ['/']).reverse.dropWhile (· == '/') = (slashed names).reverse := by
      rw [List.reverse_concat, List.dropWhile_cons_of_pos (by rfl), ends, List.reverse_concat,
        List.dropWhile_cons_of_neg (by simpa using final)]
    rw [directoryOf, head, open_, if_neg Bool.false_ne_true, trimmed, List.reverse_reverse]

theorem locate_slashed (directory : Location) : locate directory (ofText (slashed names)) = directory ++ names := by
  have descends : ['.', '.'] ∉ names := fun member => (named _ member).descends rfl
  rw [ofText_slashed named]
  exact descend_of_descends descends directory

end Segments

/-- A link from a page to a stylesheet resolves, also where the one path begins like the other, ends where the other goes on or
lies deeper: the link does not depend on the working directory, and followed from the directory of the page it leads to the
stylesheet, every `..` of it cancelling a name. -/
theorem link?_resolves {page sheet : List Text} (paged : page ≠ []) (styled : sheet ≠ [])
    (named : ∀ name ∈ page ++ sheet, IsSegment name) :
    ∃ href, (∀ directory, link? directory (slashed page) (slashed sheet) = some href) ∧
      follow? page.dropLast (Text.pieces '/' href) = some sheet := by
  obtain ⟨folders, file, rfl⟩ := (List.eq_nil_or_concat' page).resolve_left paged
  obtain ⟨inPage, inSheet⟩ := List.forall_mem_append.1 named
  obtain ⟨inFolders, inFile⟩ := List.forall_mem_append.1 inPage
  have unslashed := (inFile file List.mem_cons_self).unslashed
  obtain ⟨c, rest, begins, -⟩ := exists_slashed_cons inSheet styled
  have some_ : ¬(slashed sheet).isEmpty = true := by
    rw [begins]
    exact Bool.false_ne_true
  refine ⟨render ⟨[], route folders sheet⟩, fun directory => ?_, ?_⟩
  · rw [link?, if_neg some_, directoryOf_slashed inFolders unslashed, locate_slashed inFolders, locate_slashed inSheet,
      route_append]
  · rw [List.dropLast_concat, follow?_render _ (unslashed_route folders inSheet)]
    exact follow?_route folders inSheet

/-- A page and a stylesheet below one directory, the page two levels deeper. -/
def blogPage : List Text := ["static", "blog", "2024", "index.html"]

def blogStyles : List Text := ["static", "styles.css"]

theorem link?_resolves_blog :
    (∀ name ∈ blogPage ++ blogStyles, IsSegment name) ∧
      link? [] (slashed blogPage) (slashed blogStyles) = some "../../styles.css".toList ∧
      follow? blogPage.dropLast (Text.pieces '/' "../../styles.css") = some blogStyles := by
  have named : ∀ name ∈ blogPage ++ blogStyles, IsSegment name := by decide
  have linked : link? [] (slashed blogPage) (slashed blogStyles) = some "../../styles.css".toList := by decide
  obtain ⟨href, links, resolves⟩ := link?_resolves (by decide) (by decide) named
  obtain rfl : "../../styles.css".toList = href := Option.some.inj (linked.symm.trans (links []))
  exact ⟨named, linked, resolves⟩

end Path

end ComponentPages
