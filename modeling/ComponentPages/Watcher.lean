/-!
Watching for changes. A watcher remembers the last fingerprint it has seen of what it watches. The fingerprint is
remembered before the work that follows a change begins, so a change during that work is seen by the next poll.
-/
namespace ComponentPages

/-- A watcher of something whose state is known by fingerprints. -/
structure Watcher (Fingerprint : Type) where
  seen : Fingerprint

namespace Watcher

variable {Fingerprint : Type} [DecidableEq Fingerprint]

/-- The watcher after a poll, if the fingerprint has changed. -/
def poll? (watcher : Watcher Fingerprint) (current : Fingerprint) : Option (Watcher Fingerprint) :=
  if current = watcher.seen then none else some ⟨current⟩

/-- Looks for the first time, and then does the work. -/
def start {m : Type → Type} [Monad m] (look : m Fingerprint) (work : m Unit) : m (Watcher Fingerprint) := do
  let seen ← look
  work
  pure ⟨seen⟩

/-- Looks again, and does the work if something has changed. -/
def poll {m : Type → Type} [Monad m] (look : m Fingerprint) (work : m Unit) (watcher : Watcher Fingerprint) :
    m (Watcher Fingerprint) := do
  match watcher.poll? (← look) with
  | none => pure watcher
  | some watcher => do
    work
    pure watcher

theorem poll?_eq_none_iff {watcher : Watcher Fingerprint} {current : Fingerprint} :
    watcher.poll? current = none ↔ current = watcher.seen := by
  unfold poll?
  split <;> simp_all

theorem seen_of_poll? {watcher next : Watcher Fingerprint} {current : Fingerprint}
    (changed : watcher.poll? current = some next) : next.seen = current := by
  unfold poll? at changed
  split at changed
  · simp at changed
  · rw [← Option.some.inj changed]

end Watcher

end ComponentPages
