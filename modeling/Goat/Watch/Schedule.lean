import Goat.Calendar

/-!
# The schedule of changes

Files often change several times in a row. Every change starts a timer, in place of
the one that was recorded for the same file; a file is handled when its timer has
run out. A schedule moves on in small steps: a timer is armed, it fires, its record is
removed, and its path is handed over.
-/

namespace Goat.Watch

/-- A timer that was started for a changed file. -/
structure Timer where
  id : Nat
  path : Text
  due : Instant
  deriving DecidableEq, Repr

/-- The timers of all changed files. -/
structure Schedule where
  /-- No timer has this number or a greater one. -/
  nextId : Nat := 0
  /-- The timer that was started last for a path, until its record is removed. -/
  recorded : List (Text × Nat) := []
  /-- Timers that have not fired. -/
  armed : List Timer := []
  /-- Timers that have fired, and whose record was not removed yet. -/
  fired : List Timer := []
  /-- Paths that wait to be handed over, the first one first. -/
  settled : List Text := []
  deriving DecidableEq, Repr

namespace Schedule

/-- The schedule without a record for a path. -/
def unrecord (s : Schedule) (path : Text) : Schedule :=
  { s with recorded := s.recorded.filter fun entry => entry.1 != path }

/-- Stops the timer that is recorded for a path, if it has not fired. -/
def stop (s : Schedule) (path : Text) : Schedule :=
  match s.recorded.lookup path with
  | none => s
  | some id => { s with armed := s.armed.filter fun t => t.id != id }

/-- Notes a change of a file: starts a timer in place of the recorded one. -/
def note (s : Schedule) (path : Text) (due : Instant) : Schedule :=
  let stopped := (s.stop path).unrecord path
  { stopped with
    nextId := s.nextId + 1
    recorded := (path, s.nextId) :: stopped.recorded
    armed := stopped.armed ++ [⟨s.nextId, path, due⟩] }

/-- A timer fires. -/
def fire (s : Schedule) (t : Timer) : Schedule :=
  if t ∈ s.armed then { s with armed := s.armed.erase t, fired := s.fired ++ [t] } else s

/-- A timer that has fired removes the record of its path, whichever timer that names,
    and offers the path. -/
def release (s : Schedule) (t : Timer) : Schedule :=
  if t ∈ s.fired then
    { s.unrecord t.path with fired := s.fired.erase t, settled := s.settled ++ [t.path] }
  else s

/-- The path to be handled next, and the schedule after it was handed over. -/
def receive? (s : Schedule) : Option (Text × Schedule) :=
  match s.settled with
  | [] => none
  | path :: rest => some (path, { s with settled := rest })

/-- Hands over all paths that wait. -/
def receiveAll (s : Schedule) : List Text × Schedule := (s.settled, { s with settled := [] })

/-- All timers that are due fire and offer their paths. -/
def advance (s : Schedule) (now : Instant) : Schedule :=
  let due := s.armed.filter fun t => t.due ≤ now
  due.foldl (fun s t => (s.fire t).release t) s

end Schedule

end Goat.Watch
