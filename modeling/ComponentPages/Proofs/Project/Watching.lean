import ComponentPages.Project.Watch

/-!
Watching a tree that others edit. A watcher is played against edits that come at any moment: between polls, between a look at
the tree and the moment a build reads it, and while the build goes on. Every edit gives the tree a fingerprint that it never had.
No edit is lost: either the next poll will build, or the last build has read the tree as it is.
-/
namespace ComponentPages

/-- A watched tree and what has been done with it, the last things first. What builds write and report is not part of it. -/
structure Scene (Tree Fingerprint : Type) where
  tree : Tree
  /-- The fingerprints that the tree has had. -/
  past : List Fingerprint
  /-- The fingerprints that were taken. -/
  looks : List Fingerprint := []
  /-- The trees that builds have read. -/
  reads : List Tree := []

/-- A build as those outside see it: the edits until it reads the tree, the edits after that, and how it fails. -/
structure Attempt (Tree : Type) where
  before : List Tree
  after : List Tree
  fault : Option { fault : Fault // Project.isReported fault = true }

/-- What happens between two moments of a watch. -/
inductive Move (Tree : Type) where
  | edit (tree : Tree)
  /-- A poll, with what a build will do, should the poll start one. -/
  | poll (attempt : Attempt Tree)

variable {Tree Fingerprint α β : Type} [DecidableEq Fingerprint] {fingerprint : Tree → Fingerprint}

/-! ### Edits -/

namespace Scene

section Definitions

variable (fingerprint)

/-- A tree after an edit. An edit gives a fingerprint that the tree never had; what does not is no edit. -/
def edited (scene : Scene Tree Fingerprint) (tree : Tree) : Scene Tree Fingerprint :=
  if fingerprint tree ∈ scene.past then scene else { scene with tree, past := fingerprint tree :: scene.past }

def editedAll (scene : Scene Tree Fingerprint) (trees : List Tree) : Scene Tree Fingerprint :=
  trees.foldl (edited fingerprint) scene

def looked (scene : Scene Tree Fingerprint) : Scene Tree Fingerprint :=
  { scene with looks := fingerprint scene.tree :: scene.looks }

def read (scene : Scene Tree Fingerprint) : Scene Tree Fingerprint := { scene with reads := scene.tree :: scene.reads }

/-- What an attempt to build leaves. -/
def built (scene : Scene Tree Fingerprint) (attempt : Attempt Tree) : Scene Tree Fingerprint :=
  editedAll fingerprint (read (editedAll fingerprint scene attempt.before)) attempt.after

/-- The fingerprint of the tree is among those it has had. -/
def IsCurrent (scene : Scene Tree Fingerprint) : Prop := fingerprint scene.tree ∈ scene.past

/-- Between two scenes nothing has happened but edits. If they have left another tree, its fingerprint is a new one. -/
structure EditsTo (before after : Scene Tree Fingerprint) : Prop where
  looks : after.looks = before.looks
  reads : after.reads = before.reads
  past : before.past ⊆ after.past
  current : before.IsCurrent fingerprint → after.IsCurrent fingerprint
  fresh : after.tree = before.tree ∨ fingerprint after.tree ∉ before.past

end Definitions

variable {before between after : Scene Tree Fingerprint}

omit [DecidableEq Fingerprint] in
theorem EditsTo.trans (first : before.EditsTo fingerprint between) (second : between.EditsTo fingerprint after) :
    before.EditsTo fingerprint after where
  looks := second.looks.trans first.looks
  reads := second.reads.trans first.reads
  past := List.Subset.trans first.past second.past
  current := second.current ∘ first.current
  fresh := by
    rcases second.fresh with same | new
    · rw [same]
      exact first.fresh
    · exact .inr fun old => new (first.past old)

theorem editsTo_edited (scene : Scene Tree Fingerprint) (tree : Tree) :
    scene.EditsTo fingerprint (scene.edited fingerprint tree) := by
  unfold edited
  split
  · exact ⟨rfl, rfl, List.Subset.refl _, id, .inl rfl⟩
  · next new => exact ⟨rfl, rfl, List.subset_cons_self _ _, fun _ => List.mem_cons_self, .inr new⟩

theorem editsTo_editedAll (scene : Scene Tree Fingerprint) (trees : List Tree) :
    scene.EditsTo fingerprint (scene.editedAll fingerprint trees) := by
  induction trees generalizing scene with
  | nil => exact ⟨rfl, rfl, List.Subset.refl _, id, .inl rfl⟩
  | cons tree trees ih => exact (editsTo_edited scene tree).trans (ih (scene.edited fingerprint tree))

theorem looks_built (scene : Scene Tree Fingerprint) (attempt : Attempt Tree) :
    (scene.built fingerprint attempt).looks = scene.looks :=
  (editsTo_editedAll _ attempt.after).looks.trans (editsTo_editedAll scene attempt.before).looks

/-- A build reads the tree once. -/
theorem length_reads_built (scene : Scene Tree Fingerprint) (attempt : Attempt Tree) :
    (scene.built fingerprint attempt).reads.length = scene.reads.length + 1 := by
  calc
    (scene.built fingerprint attempt).reads.length = (scene.editedAll fingerprint attempt.before).read.reads.length :=
      congrArg List.length (editsTo_editedAll _ attempt.after).reads
    _ = (scene.editedAll fingerprint attempt.before).reads.length + 1 := List.length_cons
    _ = scene.reads.length + 1 := by rw [(editsTo_editedAll scene attempt.before).reads]

end Scene

/-! ### The watcher among edits -/

/-- A watcher among edits, with the scene as its state. -/
abbrev Play (Tree Fingerprint : Type) := ExceptT Fault (StateM (Scene Tree Fingerprint))

namespace Play

section Definitions

variable (fingerprint)

def run (play : Play Tree Fingerprint α) (scene : Scene Tree Fingerprint) : Except Fault α × Scene Tree Fingerprint :=
  (ExceptT.run play).run scene

/-- Takes the fingerprint of the tree. -/
def look : Play Tree Fingerprint Fingerprint := do
  let scene ← get
  set (scene.looked fingerprint)
  pure (fingerprint scene.tree)

def report : Project.Reporter (Play Tree Fingerprint) := fun _ _ => pure ()

def build (attempt : Attempt Tree) : Play Tree Fingerprint Unit := do
  modify fun scene => scene.editedAll fingerprint attempt.before
  modify Scene.read
  modify fun scene => scene.editedAll fingerprint attempt.after
  match attempt.fault with
  | none => pure ()
  | some fault => throw fault.val

/-- Begins to watch. -/
def start (attempt : Attempt Tree) : Play Tree Fingerprint (Watcher Fingerprint) :=
  Watcher.start (look fingerprint) (discard (Project.rebuildWith report (build fingerprint attempt)))

def poll (root : Location) (attempt : Attempt Tree) (watcher : Watcher Fingerprint) :
    Play Tree Fingerprint (Watcher Fingerprint) :=
  watcher.poll (look fingerprint) (Project.rebuildChangedWith report root (build fingerprint attempt))

def move (root : Location) (watcher : Watcher Fingerprint) : Move Tree → Play Tree Fingerprint (Watcher Fingerprint)
  | .edit tree => do
    modify (Scene.edited fingerprint · tree)
    pure watcher
  | .poll attempt => poll fingerprint root attempt watcher

/-- Begins to watch a tree, and goes on as moves are made. -/
def watch (root : Location) (first : Attempt Tree) (moves : List (Move Tree)) :
    Play Tree Fingerprint (Watcher Fingerprint) := do
  moves.foldlM (move fingerprint root) (← start fingerprint first)

end Definitions

omit [DecidableEq Fingerprint] in
theorem run_bind (first : Play Tree Fingerprint α) (second : α → Play Tree Fingerprint β) (scene : Scene Tree Fingerprint) :
    (first >>= second).run scene =
      match first.run scene with
      | (.error fault, later) => (.error fault, later)
      | (.ok value, later) => (second value).run later := by
  simp only [run, ExceptT.run_bind]
  cases result : StateT.run (ExceptT.run first) scene with
  | mk outcome later => cases outcome <;> simp [StateT.run_bind, result] <;> rfl

omit [DecidableEq Fingerprint] in
theorem run_bind_of_ok {first : Play Tree Fingerprint α} {scene later : Scene Tree Fingerprint} {value : α}
    (result : first.run scene = (.ok value, later)) (second : α → Play Tree Fingerprint β) :
    (first >>= second).run scene = (second value).run later := by
  rw [run_bind, result]

/-- A build comes back, however it ends. -/
theorem run_rebuildWith (attempt : Attempt Tree) (scene : Scene Tree Fingerprint) :
    (Project.rebuildWith report (build fingerprint attempt)).run scene =
      (.ok attempt.fault.isNone, scene.built fingerprint attempt) := by
  cases attempt with
  | mk before after fault =>
    cases fault with
    | none => rfl
    | some fault =>
      have caught : (tryCatch (do discard (build fingerprint ⟨before, after, some fault⟩); pure none) fun fault =>
          if Project.isReported fault then pure (some fault) else throw fault : Play Tree Fingerprint (Option Fault)).run
            scene = (.ok (some fault.val), scene.built fingerprint ⟨before, after, some fault⟩) := by
        change (if Project.isReported fault.val then pure (some fault.val) else throw fault.val :
          Play Tree Fingerprint (Option Fault)).run (scene.built fingerprint ⟨before, after, some fault⟩) = _
        rw [if_pos fault.property]
        rfl
      rw [Project.rebuildWith, run_bind_of_ok caught]
      rfl

theorem run_discard_rebuildWith (attempt : Attempt Tree) (scene : Scene Tree Fingerprint) :
    (discard (Project.rebuildWith report (build fingerprint attempt))).run scene =
      (.ok (), scene.built fingerprint attempt) := by
  rw [Functor.discard, map_const, Function.comp_apply, map_eq_pure_bind, run_bind_of_ok (run_rebuildWith attempt scene)]
  rfl

theorem run_start (attempt : Attempt Tree) (scene : Scene Tree Fingerprint) :
    (start fingerprint attempt).run scene =
      (.ok ⟨fingerprint scene.tree⟩, (scene.looked fingerprint).built fingerprint attempt) := by
  have looked : (look fingerprint).run scene = (.ok (fingerprint scene.tree), scene.looked fingerprint) := rfl
  rw [start, Watcher.start, run_bind_of_ok looked, run_bind_of_ok (run_discard_rebuildWith attempt _)]
  rfl

/-- A poll builds when the fingerprint has changed, and else does nothing but look. -/
theorem run_poll (root : Location) (attempt : Attempt Tree) (watcher : Watcher Fingerprint) (scene : Scene Tree Fingerprint) :
    (poll fingerprint root attempt watcher).run scene =
      (.ok ⟨fingerprint scene.tree⟩,
        if fingerprint scene.tree = watcher.seen then scene.looked fingerprint
        else (scene.looked fingerprint).built fingerprint attempt) := by
  have looked : (look fingerprint).run scene = (.ok (fingerprint scene.tree), scene.looked fingerprint) := rfl
  rw [poll, Watcher.poll, run_bind_of_ok looked, Watcher.poll?]
  by_cases same : fingerprint scene.tree = watcher.seen
  · rw [if_pos same, if_pos same, same]
    rfl
  · have told : (report .info ("Change detected in " ++ (Path.ofLocation root).render ++ ", recompiling") :
        Play Tree Fingerprint Unit).run (scene.looked fingerprint) = (.ok (), scene.looked fingerprint) := rfl
    have worked : (Project.rebuildChangedWith report root (build fingerprint attempt)).run (scene.looked fingerprint) =
        (.ok (), (scene.looked fingerprint).built fingerprint attempt) := by
      rw [Project.rebuildChangedWith, run_bind_of_ok told]
      exact run_discard_rebuildWith attempt _
    rw [if_neg same, if_neg same, run_bind_of_ok worked]
    rfl

/-! ### No edit is lost -/

section Invariant

variable (fingerprint)

/-- What is true of a watcher and the scene between polls. -/
structure Keeps (watcher : Watcher Fingerprint) (scene : Scene Tree Fingerprint) : Prop where
  current : scene.IsCurrent fingerprint
  seen : watcher.seen ∈ scene.past
  last : scene.looks.head? = some watcher.seen
  /-- No edit is lost: the next poll will build, or the last build has read the tree. -/
  kept : watcher.seen ≠ fingerprint scene.tree ∨ scene.reads.head? = some scene.tree

end Invariant

variable {watcher : Watcher Fingerprint} {scene : Scene Tree Fingerprint}

theorem Keeps.edited (keeps : Keeps fingerprint watcher scene) (tree : Tree) :
    Keeps fingerprint watcher (scene.edited fingerprint tree) := by
  have edits : scene.EditsTo fingerprint (scene.edited fingerprint tree) := Scene.editsTo_edited scene tree
  refine ⟨edits.current keeps.current, edits.past keeps.seen, edits.looks ▸ keeps.last, ?_⟩
  rcases edits.fresh with same | new
  · rw [same, edits.reads]
    exact keeps.kept
  · exact .inl fun seen => new (seen ▸ keeps.seen)

/-- After a look a build reads the tree. An edit after that gives another fingerprint than the one that was taken. -/
theorem keeps_built (current : scene.IsCurrent fingerprint) (attempt : Attempt Tree) :
    Keeps fingerprint ⟨fingerprint scene.tree⟩ ((scene.looked fingerprint).built fingerprint attempt) := by
  have early : (scene.looked fingerprint).EditsTo fingerprint _ := Scene.editsTo_editedAll _ attempt.before
  have late : ((scene.looked fingerprint).editedAll fingerprint attempt.before).read.EditsTo fingerprint
      ((scene.looked fingerprint).built fingerprint attempt) := Scene.editsTo_editedAll _ attempt.after
  have seen := early.past current
  refine ⟨late.current (early.current current), late.past seen, ?_, ?_⟩
  · rw [late.looks]
    exact congrArg List.head? early.looks
  · rcases late.fresh with same | new
    · right
      rw [late.reads, same]
      rfl
    · exact .inl fun same => new (same ▸ seen)

theorem run_move (keeps : Keeps fingerprint watcher scene) (root : Location) (action : Move Tree) :
    ∃ next later, (move fingerprint root watcher action).run scene = (.ok next, later) ∧ Keeps fingerprint next later := by
  cases action with
  | edit tree => exact ⟨watcher, scene.edited fingerprint tree, rfl, keeps.edited tree⟩
  | poll attempt =>
    refine ⟨_, _, run_poll root attempt watcher scene, ?_⟩
    split
    · next same =>
      rw [same]
      exact ⟨keeps.current, keeps.seen, congrArg some same, keeps.kept⟩
    · exact keeps_built keeps.current attempt

theorem run_moves (keeps : Keeps fingerprint watcher scene) (root : Location) (moves : List (Move Tree)) :
    ∃ next later, (moves.foldlM (move fingerprint root) watcher).run scene = (.ok next, later) ∧
      Keeps fingerprint next later := by
  induction moves generalizing watcher scene with
  | nil => exact ⟨watcher, scene, rfl, keeps⟩
  | cons action moves ih =>
    obtain ⟨next, later, ran, kept⟩ := run_move keeps root action
    rw [List.foldlM_cons, run_bind_of_ok ran]
    exact ih kept

end Play

/-- However edits come between and during looks and builds, and however builds end, a watch goes on; between polls the next poll
will build or the last build has read the tree as it is; and a poll builds exactly when the fingerprint it takes is not the one
taken before. -/
theorem Play.watch_loses_nothing (fingerprint : Tree → Fingerprint) (root : Location) (tree : Tree) (first : Attempt Tree)
    (moves : List (Move Tree)) :
    ∃ watcher scene,
      (Play.watch fingerprint root first moves).run { tree, past := [fingerprint tree] } = (.ok watcher, scene) ∧
      (watcher.seen ≠ fingerprint scene.tree ∨ scene.reads.head? = some scene.tree) ∧
      ∀ attempt, ∃ next later, (Play.poll fingerprint root attempt watcher).run scene = (.ok next, later) ∧
        later.looks = fingerprint scene.tree :: scene.looks ∧
        later.reads.length =
          if scene.looks.head? = some (fingerprint scene.tree) then scene.reads.length else scene.reads.length + 1 := by
  let initial : Scene Tree Fingerprint := { tree, past := [fingerprint tree] }
  have started : Keeps fingerprint ⟨fingerprint initial.tree⟩ ((initial.looked fingerprint).built fingerprint first) :=
    keeps_built (List.mem_singleton_self _) first
  obtain ⟨watcher, scene, ran, keeps⟩ := run_moves started root moves
  refine ⟨watcher, scene, ?_, keeps.kept, fun attempt => ⟨_, _, run_poll root attempt watcher scene, ?_, ?_⟩⟩
  · rw [Play.watch, run_bind_of_ok (run_start first _)]
    exact ran
  · split
    · rfl
    · rw [Scene.looks_built]
      rfl
  · by_cases same : fingerprint scene.tree = watcher.seen
    · rw [if_pos same, if_pos (keeps.last.trans (congrArg some same.symm))]
      rfl
    · have changed : scene.looks.head? ≠ some (fingerprint scene.tree) := fun last =>
        same (Option.some.inj (last.symm.trans keeps.last))
      rw [if_neg same, if_neg changed, Scene.length_reads_built]
      rfl

end ComponentPages
