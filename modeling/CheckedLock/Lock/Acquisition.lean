import CheckedLock.Lock.Core
import CheckedLock.Lock.Outcome
import CheckedLock.Lock.Policy
/-! The result of an acquisition: a payload, a payload from a poisoned lock, or a failure. The mark
stands beside the outcome, so a poisoned result holds its payload like a clean one. -/
namespace CheckedLock

structure Acquisition (α : Type) where
  inner : Outcome α LockError
  poisoned : Bool
  deriving DecidableEq, Repr

/-- The process ends: a caller's policy does not accept a poisoned lock. -/
structure Panic where
  /-- file of the code that gave up; none if the message could not be put together -/
  file : Option String
  message : String
  deriving DecidableEq, Repr

namespace Panic

def poisonedResult : Panic := ⟨some "lock_result.hpp", "LockResult was poisoned"⟩

/-- A panic raised by the caller's own code. -/
def byCaller (message : String) : Panic := ⟨some "caller", message⟩

def unformattable (reason : Misuse) : Panic :=
  ⟨none, "FATAL ERROR WHILE FORMATTING PANIC MESSAGE: " ++ reason.message⟩

end Panic

/-- The error of an attempt that failed. -/
def Verdict.error : Verdict → LockError
  | .wouldBlock => .wouldBlock
  | _ => .lockedByCurrentThread

namespace Acquisition

variable {α : Type}

def clean (v : α) : Acquisition α := ⟨.ok v, false⟩
def tainted (v : α) : Acquisition α := ⟨.ok v, true⟩
def failed (e : LockError) : Acquisition α := ⟨.failure e 0, false⟩

/-- An attempt's verdict as a result around `payload`. -/
def ofVerdict (v : Verdict) (payload : α) : Acquisition α :=
  match v with
  | .acquired => .clean payload
  | .acquiredPoisoned => .tainted payload
  | .lockedByCurrentThread => .failed .lockedByCurrentThread
  | .wouldBlock => .failed .wouldBlock

def isOk (a : Acquisition α) : Bool := a.inner.isOk && !a.poisoned
def isError (a : Acquisition α) : Bool := !a.isOk
def hasValue (a : Acquisition α) : Bool := a.inner.isOk

/-- Why the result is not ok; a poisoned one says so even though it has a payload. -/
def error (a : Acquisition α) : Except Misuse LockError :=
  if a.poisoned then .ok .poisoned else a.inner.error

/-- The payload of a result that is ok. -/
def content (a : Acquisition α) : Except Misuse α :=
  if a.poisoned then .error .contentOfPoisoned else a.inner.content

/-- The payload, poisoned or not. -/
def intoValue (a : Acquisition α) : Except Misuse α := a.inner.content

/-- Changes the payload of a result that is ok. -/
def update (f : α → α) (a : Acquisition α) : Except Misuse (Acquisition α) :=
  if a.poisoned then .error .contentOfPoisoned
  else (a.inner.update f).map fun inner => { a with inner := inner }

/-- Changes the payload, poisoned or not, and keeps the state. -/
def mapValue (f : α → α) (a : Acquisition α) : Acquisition α :=
  match a.inner with
  | .ok v => { a with inner := .ok (f v) }
  | .failure _ _ => a

/-- Clears the mark of this result; the lock keeps its own. -/
def ignorePoison (a : Acquisition α) : Acquisition α := { a with poisoned := false }

def panicIfPoison (a : Acquisition α) : Except Panic (Acquisition α) :=
  if a.poisoned then .error .poisonedResult else .ok a

/-- A number that names no policy leaves the result as it is. -/
def apply (policy : Option PoisonPolicy) (a : Acquisition α) : Except Panic (Acquisition α) :=
  match policy with
  | some .ignore => .ok a.ignorePoison
  | some .panic => a.panicIfPoison
  | some .inform => .ok a
  | none => .ok a

/-- What a caller can see of a result without touching the payload. -/
structure Status where
  isOk : Bool
  hasValue : Bool
  isPoisoned : Bool
  error : Option LockError
  deriving DecidableEq, Repr

def status (a : Acquisition α) : Status where
  isOk := a.isOk
  hasValue := a.hasValue
  isPoisoned := a.poisoned
  error := if a.isOk then none else a.error.toOption

end Acquisition
end CheckedLock
