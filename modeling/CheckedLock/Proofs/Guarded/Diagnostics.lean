import CheckedLock.Guarded.Script
import CheckedLock.Logging.Direct
import CheckedLock.Proofs.Guarded.Poison
import CheckedLock.Proofs.Guarded.Records
import CheckedLock.Proofs.Lock.Notices
/-! What the locks write to the log: one line for each attempt of the holder, and one for the first
late release of a lock. -/
namespace CheckedLock

namespace Logging

variable {κ σ : Type}

/-- A message on the console. -/
def Outcome.shown? : Outcome Unit κ → Option (Level × String)
  | .wrote .console r => some (r.level, r.body)
  | _ => none

namespace Direct

variable {o : Outlet Unit σ} {d : Direct κ σ}

def shown (d : Direct κ σ) : List (Option (Level × String)) :=
  d.output.lines.map Outcome.shown?

end Direct
end Logging

namespace Guarded

variable {n : Nat}

/-- A line of a lock in the log. -/
structure Line (n : Nat) where
  mutex : Name
  thread : Fin n
  level : Level
  deriving DecidableEq

def Event.line? : Event n → Option (Line n)
  | .noticed m t x => some ⟨m, t, x.level⟩
  | .attempted _ _ _ _ | .suspended _ _ | .released _ _ _ | .said _ _ _ => none

/-- The deeds among the events of a journal. -/
def deeds (j : List (Event n)) : List (Deed n) := j.filterMap Event.deed?

/-- The line that an event calls for after the deeds `h`. -/
def Event.due? (h : List (Deed n)) : Event n → Option (Line n)
  | .attempted m t .lockedByCurrentThread _ => some ⟨m, t, .debug⟩
  | .released m t now => if isLate m h now && !stained m h then some ⟨m, t, .warn⟩ else none
  | .attempted _ _ _ _ | .suspended _ _ | .noticed _ _ _ | .said _ _ _ => none

/-- The lines that a journal calls for, in order of time. -/
def due : List (Event n) → List (Line n)
  | [] => []
  | e :: j => due j ++ (e.due? (deeds j)).toList

section Journal

variable (j : List (Event n)) (m : Name) (t : Fin n)

@[simp] theorem deeds_suspended : deeds (.suspended m t :: j) = deeds j := rfl

@[simp] theorem deeds_said (l : Level) (body : String) :
    deeds (.said t l body :: j) = deeds j := rfl

@[simp] theorem due_suspended : due (.suspended m t :: j) = due j := List.append_nil _

@[simp] theorem due_said (l : Level) (body : String) : due (.said t l body :: j) = due j :=
  List.append_nil _

end Journal

namespace World

variable {w v : World n} {t : Fin n}

/-- The lines of the locks, in order of time. -/
def lines (w : World n) : List (Line n) := w.journal.reverse.filterMap Event.line?

end World
end Guarded
end CheckedLock
