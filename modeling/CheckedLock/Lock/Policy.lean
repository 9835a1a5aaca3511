/-! Why an acquisition is not clean, and what a caller does about a poisoned one. -/
namespace CheckedLock

/-- Expected failures of an acquisition. -/
inductive LockError
  | poisoned | lockedByCurrentThread | wouldBlock
  deriving DecidableEq, Repr

namespace LockError

def name : LockError → String
  | .poisoned => "Poisoned"
  | .lockedByCurrentThread => "LockedByCurrentThread"
  | .wouldBlock => "WouldBlock"

def ofCode? : Int → Option LockError
  | 0 => some .poisoned
  | 1 => some .lockedByCurrentThread
  | 2 => some .wouldBlock
  | _ => none

def ofName? (s : String) : Option LockError :=
  [poisoned, lockedByCurrentThread, wouldBlock].find? (·.name == s)

/-- Name of an error given by number; a number that stands for none is `Unknown`. -/
def nameOfCode (code : Int) : String :=
  ((ofCode? code).map name).getD "Unknown"

end LockError

/-- What an integration point does with a poisoned acquisition. -/
inductive PoisonPolicy
  | inform | ignore | panic
  deriving DecidableEq, Repr

namespace PoisonPolicy

def name : PoisonPolicy → String
  | .inform => "inform"
  | .ignore => "ignore"
  | .panic => "panic"

def code : PoisonPolicy → Nat
  | .inform => 0
  | .ignore => 1
  | .panic => 2

def ofCode? : Int → Option PoisonPolicy
  | 0 => some .inform
  | 1 => some .ignore
  | 2 => some .panic
  | _ => none

def ofName? (s : String) : Option PoisonPolicy :=
  [inform, ignore, panic].find? (·.name == s)

def nameOfCode (c : Int) : String :=
  ((ofCode? c).map name).getD "unknown"

theorem ofName?_eq_some {s : String} {p : PoisonPolicy} : ofName? s = some p ↔ s = p.name := by
  constructor
  · intro h
    have hname := List.find?_some h
    exact (beq_iff_eq.mp hname).symm
  · rintro rfl
    cases p <;> rfl

end PoisonPolicy
end CheckedLock
