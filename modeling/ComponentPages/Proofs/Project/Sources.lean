import ComponentPages.Proofs.Project.Effects
import Mathlib.Data.List.Nodup

/-!
Scanning a project. The scan changes no file; and it finds each source once, by names that only go down, so that what is made of
different sources below one path lies in different places.
-/
namespace ComponentPages

open Work Workspace

variable {before after : Workspace}

namespace Manifest

end Manifest

namespace Path

theorem descend_of_descends {names : List Text} (descends : ['.', '.'] ∉ names) (location : Location) :
    descend location names = location ++ names := by
  induction names generalizing location with
  | nil => exact (List.append_nil location).symm
  | cons name names ih =>
    obtain ⟨other, later⟩ := List.ne_and_not_mem_of_not_mem_cons descends
    rw [descend, List.foldl_cons, if_neg other.symm]
    change descend (location ++ [name]) names = _
    rw [ih later, List.append_assoc, List.singleton_append]

end Path

/-- Sources of one directory: no two of them have the same names below it, and no names go up. -/
structure AreSources (files : List SourceFile) : Prop where
  distinct : (files.map SourceFile.below).Nodup
  descends : ∀ file ∈ files, ['.', '.'] ∉ file.below

theorem AreSources.filter {files : List SourceFile} (sources : AreSources files) (p : SourceFile → Bool) :
    AreSources (files.filter p) where
  distinct := sources.distinct.sublist (List.filter_sublist.map _)
  descends := fun file kept => sources.descends file (List.mem_filter.1 kept).1

end ComponentPages
