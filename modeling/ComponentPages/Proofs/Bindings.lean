import ComponentPages.Bindings
import Mathlib.Data.List.Induction

/-!
Bindings under a function on their values, and properties that all values have.
-/
namespace ComponentPages

namespace Bindings

variable {α β : Type}

theorem get?_cons (name other : Text) (value : α) (bindings : Bindings α) :
    get? name ((other, value) :: bindings) = if name = other then some value else get? name bindings := by
  rw [get?, List.lookup_cons]
  by_cases same : name = other
  · rw [if_pos same, beq_iff_eq.2 same]
  · rw [if_neg same, beq_false_of_ne same, get?]

def mapValues (f : α → β) (bindings : Bindings α) : Bindings β := bindings.map fun (name, value) => (name, f value)

theorem set_mapValues (f : α → β) (name : Text) (value : α) (bindings : Bindings α) :
    set name (f value) (bindings.mapValues f) = (set name value bindings).mapValues f := by
  induction bindings with
  | nil => rfl
  | cons first bindings ih =>
    obtain ⟨other, old⟩ := first
    change (if other = name then _ else _) = mapValues f (if other = name then _ else _)
    split
    · rfl
    · change (other, f old) :: set name (f value) (mapValues f bindings) = _
      rw [ih]
      rfl

theorem ofList_map (f : α → β) (pairs : List (Text × α)) :
    ofList (pairs.map fun (name, value) => (name, f value)) = (ofList pairs).mapValues f := by
  have from_ (bindings : Bindings α) :
      (pairs.map fun (name, value) => (name, f value)).foldl (fun bindings (name, value) => set name value bindings)
        (bindings.mapValues f) =
      (pairs.foldl (fun bindings (name, value) => set name value bindings) bindings).mapValues f := by
    induction pairs generalizing bindings with
    | nil => rfl
    | cons pair pairs ih =>
      obtain ⟨name, value⟩ := pair
      rw [List.map_cons, List.foldl_cons, List.foldl_cons, ← ih, ← set_mapValues]
  exact from_ []

theorem get?_mapValues (f : α → β) (name : Text) (bindings : Bindings α) :
    (bindings.mapValues f).get? name = (bindings.get? name).map f := by
  induction bindings with
  | nil => rfl
  | cons first bindings ih =>
    obtain ⟨other, value⟩ := first
    change get? name ((other, f value) :: mapValues f bindings) = _
    rw [get?_cons, get?_cons]
    split
    · rfl
    · exact ih

theorem get?_set (name other : Text) (value : α) (bindings : Bindings α) :
    (set name value bindings).get? other = if other = name then some value else bindings.get? other := by
  induction bindings with
  | nil => exact get?_cons other name value []
  | cons first bindings ih =>
    obtain ⟨key, old⟩ := first
    rw [set, get?_cons]
    split
    · next here =>
      subst here
      rw [get?_cons]
      split <;> rfl
    · next elsewhere =>
      rw [get?_cons, ih]
      by_cases same : other = key
      · rw [if_pos same, if_pos same, if_neg fun named => elsewhere (same.symm.trans named)]
      · rw [if_neg same, if_neg same]

theorem mem_of_get? {name : Text} {value : α} {bindings : Bindings α} (bound : bindings.get? name = some value) :
    (name, value) ∈ bindings := by
  induction bindings with
  | nil => cases bound
  | cons first bindings ih =>
    obtain ⟨other, old⟩ := first
    rw [get?_cons] at bound
    split at bound
    · next same =>
      rw [same, Option.some.inj bound]
      exact List.mem_cons_self
    · exact List.mem_cons_of_mem _ (ih bound)

theorem forall_set {holds : α → Prop} {name : Text} {value : α} {bindings : Bindings α} (new : holds value)
    (old : ∀ pair ∈ bindings, holds pair.2) : ∀ pair ∈ set name value bindings, holds pair.2 := by
  induction bindings with
  | nil => simpa [set] using new
  | cons first bindings ih =>
    obtain ⟨other, before⟩ := first
    have later := ih fun pair member => old pair (List.mem_cons_of_mem _ member)
    intro pair member
    rw [set] at member
    split at member
    · rcases List.mem_cons.1 member with rfl | rest
      · exact new
      · exact old pair (List.mem_cons_of_mem _ rest)
    · rcases List.mem_cons.1 member with rfl | rest
      · exact old _ List.mem_cons_self
      · exact later pair rest

theorem forall_ofList {holds : α → Prop} {pairs : List (Text × α)} (all : ∀ pair ∈ pairs, holds pair.2) :
    ∀ pair ∈ ofList pairs, holds pair.2 := by
  have from_ (bindings : Bindings α) (old : ∀ pair ∈ bindings, holds pair.2) :
      ∀ pair ∈ pairs.foldl (fun bindings (name, value) => set name value bindings) bindings, holds pair.2 := by
    induction pairs generalizing bindings with
    | nil => exact old
    | cons first pairs ih =>
      exact ih (fun pair member => all pair (List.mem_cons_of_mem first member)) _
        (forall_set (all first List.mem_cons_self) old)
  exact from_ [] (by simp)

theorem binds_eq_isSome (name : Text) (bindings : Bindings α) : bindings.binds name = (bindings.get? name).isSome := by
  induction bindings with
  | nil => rfl
  | cons first bindings ih =>
    obtain ⟨other, value⟩ := first
    rw [get?_cons]
    by_cases same : name = other
    · simp [binds, same]
    · rw [if_neg same]
      simpa [binds, Ne.symm same] using ih

/-- A value set first is seen under its own name only. -/
theorem get?_ofList_cons {name other : Text} (different : other ≠ name) (value : α) (pairs : List (Text × α)) :
    (ofList ((name, value) :: pairs)).get? other = (ofList pairs).get? other := by
  have from_ (first second : Bindings α) (same : first.get? other = second.get? other) :
      (pairs.foldl (fun bindings (name, value) => set name value bindings) first).get? other =
        (pairs.foldl (fun bindings (name, value) => set name value bindings) second).get? other := by
    induction pairs generalizing first second with
    | nil => exact same
    | cons pair pairs ih =>
      obtain ⟨key, old⟩ := pair
      apply ih
      rw [get?_set, get?_set, same]
  apply from_
  rw [get?_set, if_neg different]

theorem mem_names_set {name other : Text} {value : α} {bindings : Bindings α}
    (member : other ∈ (set name value bindings).names) : other = name ∨ other ∈ bindings.names := by
  induction bindings with
  | nil => simpa [set, names] using member
  | cons first bindings ih =>
    obtain ⟨key, old⟩ := first
    rw [set] at member
    split at member
    · exact (List.mem_cons.1 member).imp_right (List.mem_cons_of_mem key)
    · rcases List.mem_cons.1 member with rfl | later
      · exact .inr List.mem_cons_self
      · exact (ih later).imp_right (List.mem_cons_of_mem key)

theorem ofList_concat (pairs : List (Text × α)) (pair : Text × α) :
    ofList (pairs ++ [pair]) = set pair.1 pair.2 (ofList pairs) := by
  rw [ofList, List.foldl_append]
  rfl

/-- A name has the value that it was given last. -/
theorem get?_ofList (name : Text) (pairs : List (Text × α)) : (ofList pairs).get? name = pairs.reverse.lookup name := by
  induction pairs using List.reverseRecOn with
  | nil => rfl
  | append_singleton pairs pair ih =>
    rw [ofList_concat, get?_set, ih, List.reverse_concat]
    exact (get?_cons name pair.1 pair.2 pairs.reverse).symm

theorem names_set (name : Text) (value : α) (bindings : Bindings α) :
    (set name value bindings).names = if name ∈ bindings.names then bindings.names else bindings.names ++ [name] := by
  have names_cons (name : Text) (value : α) (bindings : Bindings α) : names ((name, value) :: bindings) = name :: names bindings :=
    rfl
  induction bindings with
  | nil => rfl
  | cons first bindings ih =>
    obtain ⟨other, old⟩ := first
    rw [set, names_cons]
    by_cases same : other = name
    · rw [if_pos same, names_cons, same, if_pos List.mem_cons_self]
    · rw [if_neg same, names_cons, ih]
      by_cases member : name ∈ names bindings
      · rw [if_pos member, if_pos (List.mem_cons_of_mem other member)]
      · rw [if_neg member, if_neg (by simp [member, Ne.symm same]), List.cons_append]

/-- Names stand in the order in which they were first set. -/
theorem names_ofList (pairs : List (Text × α)) : (ofList pairs).names = (pairs.map Prod.fst).eraseDups := by
  induction pairs using List.reverseRecOn with
  | nil => rfl
  | append_singleton pairs pair ih =>
    have known : pair.1 ∈ (pairs.map Prod.fst).eraseDups ↔ pair.1 ∈ pairs.map Prod.fst := List.mem_eraseDups
    rw [ofList_concat, names_set, ih, List.map_append, List.map_singleton, List.eraseDups_append]
    by_cases member : pair.1 ∈ pairs.map Prod.fst
    · rw [if_pos (known.2 member)]
      simp [List.removeAll, member]
    · rw [if_neg (mt known.1 member)]
      simp [List.removeAll, member, List.eraseDups_cons]

theorem mem_names_iff {name : Text} {bindings : Bindings α} : name ∈ bindings.names ↔ (bindings.get? name).isSome = true := by
  rw [get?, List.lookup_isSome_iff, names, List.mem_map]
  simp only [beq_iff_eq, @eq_comm _ name]

theorem nodup_names_set {name : Text} {value : α} {bindings : Bindings α} (distinct : bindings.names.Nodup) :
    (set name value bindings).names.Nodup := by
  rw [names_set]
  split
  · exact distinct
  · next unbound =>
    refine List.nodup_append.2 ⟨distinct, by simp, fun other member added new same => unbound ?_⟩
    rw [← List.mem_singleton.1 new, ← same]
    exact member

theorem nodup_names_ofList (pairs : List (Text × α)) : (ofList pairs).names.Nodup := by
  induction pairs using List.reverseRecOn with
  | nil => exact List.nodup_nil
  | append_singleton pairs pair ih =>
    rw [ofList_concat]
    exact nodup_names_set ih

end Bindings

end ComponentPages
