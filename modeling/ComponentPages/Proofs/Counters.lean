import ComponentPages.Compilation
import ComponentPages.Proofs.Bindings
import ComponentPages.Proofs.Text

/-!
Ids drawn one after the other from the counters of a page. Drawing an id moves the counter of its stem by one and no other
counter, so the number of an id is the number of the draws for its stem, whatever is drawn in between. An id tells its stem
and its number, also where one stem begins another or ends in a number itself, since no digit is a hyphen; so no id is drawn
twice.
-/
namespace ComponentPages

namespace Counters

/-- An id, as it is written. -/
def numbered (stem : Text) (number : Nat) : Text := stem ++ "-" ++ Text.ofNat number

/-- The digits of an id read backwards end at its last hyphen. -/
theorem numbered_injective {stem other : Text} {number otherNumber : Nat}
    (same : numbered stem number = numbered other otherNumber) : stem = other ∧ number = otherNumber := by
  have parted (stem : Text) (number : Nat) :
      Text.cut? '-' (numbered stem number).reverse = some ((Text.ofNat number).reverse, stem.reverse) := by
    have backwards : (numbered stem number).reverse = (Text.ofNat number).reverse ++ '-' :: stem.reverse := by
      simp [numbered]
    rw [backwards]
    refine Text.cut?_append (fun c digit => ?_) stem.reverse
    rintro rfl
    exact absurd (Text.isDigit_of_mem_ofNat (List.mem_reverse.1 digit)) (by decide)
  have parts := (parted stem number).symm.trans (same ▸ parted other otherNumber)
  obtain ⟨digits, stems⟩ := Prod.mk.inj (Option.some.inj parts)
  exact ⟨List.reverse_injective stems, Text.ofNat_injective (List.reverse_injective digits)⟩

/-- Drawing an id moves the counter of its stem only. -/
theorem count_next (counters : Counters) (stem other : Text) :
    (counters.next stem).2.count other = counters.count other + if other = stem then 1 else 0 := by
  change ((Bindings.set stem (counters.count stem + 1) counters).get? other).getD 0 = _
  rw [Bindings.get?_set]
  split
  · next same => rw [same, Option.getD_some]
  · rfl

theorem le_count_next (counters : Counters) (stem other : Text) :
    counters.count other ≤ (counters.next stem).2.count other := by
  rw [count_next]
  exact Nat.le_add_right _ _

/-- The ids drawn for stems, one after the other. -/
def draw (counters : Counters) : List Text → List Text
  | [] => []
  | stem :: stems => (counters.next stem).1 :: draw (counters.next stem).2 stems

/-- The number of an id goes on from its counter, by one for every draw for its stem before it. -/
theorem getElem?_draw (counters : Counters) (before : List Text) (stem : Text) (after : List Text) :
    (counters.draw (before ++ stem :: after))[before.length]? =
      some (numbered stem (counters.count stem + before.count stem + 1)) := by
  induction before generalizing counters with
  | nil => rfl
  | cons other before ih =>
    rw [List.cons_append, draw, List.length_cons, List.getElem?_cons_succ, ih, count_next, List.count_cons]
    simp only [beq_iff_eq, @eq_comm _ stem other]
    congr 2
    omega

/-- What is drawn has a number that its stem had not reached. -/
theorem exists_of_mem_draw {counters : Counters} {stems : List Text} {id : Text} (drawn : id ∈ counters.draw stems) :
    ∃ stem number, counters.count stem < number ∧ id = numbered stem number := by
  induction stems generalizing counters with
  | nil => cases drawn
  | cons first stems ih =>
    rcases List.mem_cons.1 drawn with rfl | later
    · exact ⟨first, counters.count first + 1, Nat.lt_succ_self _, rfl⟩
    · obtain ⟨stem, number, beyond, written⟩ := ih later
      exact ⟨stem, number, Nat.lt_of_le_of_lt (counters.le_count_next first stem) beyond, written⟩

theorem nodup_draw (counters : Counters) (stems : List Text) : (counters.draw stems).Nodup := by
  induction stems generalizing counters with
  | nil => exact List.nodup_nil
  | cons stem stems ih =>
    refine List.nodup_cons.2 ⟨fun again => ?_, ih _⟩
    obtain ⟨other, number, beyond, written⟩ := exists_of_mem_draw again
    obtain ⟨rfl, rfl⟩ := numbered_injective written
    rw [count_next, if_pos rfl] at beyond
    exact Nat.lt_irrefl _ beyond

/-- No id is drawn twice, from whatever state of the counters and for whatever stems; and on a new page the id drawn for a
stem is that stem, a hyphen and the number of the draws for it so far, whatever is drawn in between and afterwards. -/
theorem draw_distinct :
    (∀ (counters : Counters) (stems : List Text), (counters.draw stems).Nodup) ∧
      ∀ (before : List Text) (stem : Text) (after : List Text),
        (draw [] (before ++ stem :: after))[before.length]? =
          some (stem ++ "-" ++ Text.ofNat (before.count stem + 1)) := by
  refine ⟨nodup_draw, fun before stem after => ?_⟩
  have fresh : count [] stem = 0 := rfl
  rw [getElem?_draw, fresh, Nat.zero_add, numbered]

end Counters

end ComponentPages
