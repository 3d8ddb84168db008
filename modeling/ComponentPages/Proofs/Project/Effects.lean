import ComponentPages.Project.Build
import Mathlib.Data.List.Infix

/-!
What work does to the files of a workspace. Between its outputs work may only make directories, on the way to where it
writes, and what is at a place afterwards comes from the last output there. The place of the log is left out: each record may
write to it.
-/
namespace ComponentPages

variable {α β : Type}

namespace Path

/-- The places on the way along a path, the last of them where the path ends. -/
def way (directory : Location) (path : Path) : List Location :=
  path.parts.inits.map fun names => locate directory ⟨path.root, names⟩

end Path

namespace FileTree

variable {tree : FileTree} {directory location place : Location} {path : Path}

end FileTree

/-! ### What is at a place -/

/-- What has become of the entry at a place: by the last output there, if there was any, and else unchanged or a new
directory, if one may be made there. -/
inductive Became (mayMake : Prop) : Option Bytes → Option Entry → Option Entry → Prop where
  | kept (entry : Option Entry) : Became mayMake none entry entry
  | made (allowed : mayMake) : Became mayMake none none (some .directory)
  | written {entry : Option Entry} (contents : Bytes) (time : Int) (free : entry ≠ some .directory) :
    Became mayMake (some contents) entry (some (.file contents time))

namespace Became

variable {mayMake : Prop} {first second : Option Bytes} {before between after : Option Entry}

theorem trans (early : Became mayMake first before between) (late : Became mayMake second between after) :
    Became mayMake (second.or first) before after := by
  cases late with
  | kept => exact early
  | made allowed =>
    cases early with
    | kept => exact .made allowed
  | written contents time free =>
    refine .written contents time fun isDirectory => ?_
    cases early with
    | kept => exact free isDirectory
    | made => cases isDirectory
    | written _ _ wasFree => exact wasFree isDirectory

theorem mono {mayMore : Prop} (more : mayMake → mayMore) (became : Became mayMake first before after) :
    Became mayMore first before after := by
  cases became with
  | kept => exact .kept _
  | made allowed => exact .made (more allowed)
  | written contents time free => exact .written contents time free

end Became

/-- The contents of the last output at a place. -/
def lastAt (outputs : List (Location × Bytes)) (place : Location) : Option Bytes := outputs.reverse.lookup place

theorem lastAt_append (first second : List (Location × Bytes)) (place : Location) :
    lastAt (first ++ second) place = (lastAt second place).or (lastAt first place) := by
  rw [lastAt, List.reverse_append, List.lookup_append]
  rfl

namespace Workspace

/-- What the file at a path holds. -/
def contents? (workspace : Workspace) (path : Path) : Option Bytes :=
  match workspace.files.get? (Path.locate workspace.directory path) with
  | some (.file contents _) => some contents
  | _ => none

/-- The text of the file at a path, with unified line breaks. -/
def text? (workspace : Workspace) (path : Path) : Option Text :=
  (workspace.contents? path).bind fun contents => (Bytes.toText? contents).map Bytes.unifyBreaks

/-- The log of a workspace does not go to a place. -/
def IsOffLog (workspace : Workspace) (place : Location) : Prop :=
  ∀ log ∈ workspace.logFile, log.location ≠ place

/-- The locations of a workspace go down only, and each holds one entry. -/
structure IsProper (workspace : Workspace) : Prop where
  distinct : (workspace.files.entries.map Prod.fst).Nodup
  descends : ∀ location ∈ workspace.files.entries.map Prod.fst, ['.', '.'] ∉ location
  directory : ['.', '.'] ∉ workspace.directory
  log : ∀ log ∈ workspace.logFile, ['.', '.'] ∉ log.location

theorem IsProper.put {workspace : Workspace} (proper : workspace.IsProper) {location : Location}
    (descends : ['.', '.'] ∉ location) (entry : Entry) (clock : Int) :
    IsProper { workspace with files := workspace.files.put location entry, clock } where
  distinct := by
    refine List.nodup_cons.2 ⟨fun again => ?_, proper.distinct.sublist (List.filter_sublist.map _)⟩
    obtain ⟨other, kept, same⟩ := List.mem_map.1 again
    exact of_decide_eq_true (List.mem_filter.1 kept).2 same
  descends := by
    intro place inside
    rcases List.mem_cons.1 inside with rfl | old
    · exact descends
    · exact proper.descends place ((List.filter_sublist.map Prod.fst).subset old)
  directory := proper.directory
  log := proper.log

/-- Afterwards the files are as outputs have left them; besides, only directories at given places may have been made. -/
structure Writes (made : List Location) (outputs : List (Location × Bytes)) (before after : Workspace) : Prop where
  directory : after.directory = before.directory
  logFile : after.logFile = before.logFile
  proper : before.IsProper → after.IsProper
  entry : ∀ place, before.IsOffLog place →
    Became (place ∈ made) (lastAt outputs place) (before.files.get? place) (after.files.get? place)

namespace Writes

variable {made : List Location} {first second : List (Location × Bytes)} {before between after : Workspace}

theorem refl (made : List Location) (workspace : Workspace) : Writes made [] workspace workspace :=
  ⟨rfl, rfl, id, fun _ _ => .kept _⟩

theorem isOffLog_iff (writes : Writes made first before after) (place : Location) :
    after.IsOffLog place ↔ before.IsOffLog place := by
  rw [IsOffLog, IsOffLog, writes.logFile]

theorem trans (early : Writes made first before between) (late : Writes made second between after) :
    Writes made (first ++ second) before after where
  directory := late.directory.trans early.directory
  logFile := late.logFile.trans early.logFile
  proper := late.proper ∘ early.proper
  entry := by
    intro place offLog
    rw [lastAt_append]
    exact (early.entry place offLog).trans (late.entry place ((early.isOffLog_iff place).2 offLog))

theorem mono {more : List Location} (writes : Writes made first before after) (subset : made ⊆ more) :
    Writes more first before after :=
  ⟨writes.directory, writes.logFile, writes.proper, fun place offLog => (writes.entry place offLog).mono (subset ·)⟩

end Writes

end Workspace

namespace Work

variable {before after : Workspace} {value result : α} {path : Path}

/-! ### Runs that come back -/

theorem run_bind (first : Work α) (second : α → Work β) (workspace : Workspace) :
    (first >>= second).run workspace =
      match first.run workspace with
      | (.error fault, later) => (.error fault, later)
      | (.ok value, later) => (second value).run later := by
  simp only [run, ExceptT.run_bind]
  cases result : StateT.run (ExceptT.run first) workspace with
  | mk outcome later => cases outcome <;> simp [StateT.run_bind, result] <;> rfl

@[simp] theorem ran_bind_iff {first : Work β} {second : β → Work α} :
    (first >>= second).run before = (.ok result, after) ↔
      ∃ value between, first.run before = (.ok value, between) ∧ (second value).run between = (.ok result, after) := by
  rw [run_bind]
  cases first.run before with
  | mk outcome later => cases outcome <;> simp

@[simp] theorem ran_pure_iff : (pure value : Work α).run before = (.ok result, after) ↔ value = result ∧ before = after := by
  constructor
  · intro ran
    obtain ⟨same, stays⟩ := Prod.mk.inj ran
    exact ⟨Except.ok.inj same, stays⟩
  · rintro ⟨rfl, rfl⟩
    rfl

@[simp] theorem not_ran_throw {fault : Fault} : (throw fault : Work α).run before ≠ (.ok result, after) := by
  intro ran
  cases (Prod.mk.inj ran).1

@[simp] theorem ran_get_iff {found : Workspace} :
    (get : Work Workspace).run before = (.ok found, after) ↔ before = found ∧ before = after :=
  @ran_pure_iff _ before after before found

/-- Runs work and looks at what it comes back with and leaves. -/
def check (work : Work α) (workspace : Workspace) (isRight : α → Workspace → Bool) : Bool :=
  match work.run workspace with
  | (.ok result, after) => isRight result after
  | (.error _, _) => false

open Workspace

variable {u : Unit}

/-- When the work comes back, it has changed nothing but the log. -/
def IsQuiet (work : Work α) : Prop :=
  ∀ before after result, work.run before = (.ok result, after) → Writes [] [] before after

namespace IsQuiet

theorem pure (value : α) : IsQuiet (pure value) := by
  intro before after result ran
  exact (ran_pure_iff.1 ran).2 ▸ .refl _ _

theorem throw (fault : Fault) : IsQuiet (throw fault : Work α) := fun _ _ _ ran => absurd ran not_ran_throw

theorem bind {first : Work α} {second : α → Work β} (quiet : IsQuiet first) (quietThen : ∀ value, IsQuiet (second value)) :
    IsQuiet (first >>= second) := by
  intro before after result ran
  obtain ⟨value, between, ranFirst, ranSecond⟩ := ran_bind_iff.1 ran
  exact (quiet _ _ _ ranFirst).trans (quietThen value _ _ _ ranSecond)

theorem map {work : Work α} (quiet : IsQuiet work) (f : α → β) : IsQuiet (f <$> work) := by
  rw [map_eq_pure_bind]
  exact quiet.bind fun _ => .pure _

theorem get : IsQuiet (get : Work Workspace) := fun _ _ _ ran => (ran_get_iff.1 ran).2 ▸ .refl _ _

theorem forM {f : β → Work Unit} (quiet : ∀ b, IsQuiet (f b)) (list : List β) : IsQuiet (list.forM f) := by
  induction list with
  | nil => exact .pure _
  | cons b list ih => exact (quiet b).bind fun _ => ih

theorem foldlM {f : α → β → Work α} (quiet : ∀ a b, IsQuiet (f a b)) (list : List β) (start : α) :
    IsQuiet (list.foldlM f start) := by
  induction list generalizing start with
  | nil => exact .pure _
  | cons b list ih => exact (quiet start b).bind fun next => ih next

end IsQuiet

variable {question : Workspace → Except Refusal α}

end Work

end ComponentPages
