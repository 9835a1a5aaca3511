import CheckedLock.Guarded.Op
import CheckedLock.Stress.Report
/-! Two scenarios on guarded values that threads go through one after the other: taking a lock twice
on one thread, and a lock poisoned by a failure in its critical section. -/
namespace CheckedLock
namespace Stress

open Guarded

/-- Guarded values, and what was said about them. -/
structure Rehearsal (n : Nat) where
  world : World n := {}
  report : Report := []
  /-- number of the scenario's lock in the run -/
  lock : Nat
  /-- numbers of the scenario's threads in the run -/
  thread : Fin n → Nat

/-- What an event among locks has to say. -/
def remark? {n : Nat} (lock : Nat) (thread : Fin n → Nat) : Guarded.Event n → Option Remark
  | .noticed _ t x => some (.notice lock (thread t) x)
  | .said _ l body => some (.said l body)
  | _ => none

namespace Rehearsal

variable {n : Nat}

def remark (r : Remark) : StateM (Rehearsal n) Unit :=
  modify fun s => { s with report := s.report ++ [r] }

def say (l : Level) (body : String) : StateM (Rehearsal n) Unit := remark (.said l body)

def check (ok : Bool) (what : String) : StateM (Rehearsal n) Unit := remark (.check ⟨ok, what⟩)

/-- Thread `t` does an operation. -/
def perform (t : Fin n) (o : Op) : StateM (Rehearsal n) Guarded.Reply :=
  fun s => match s.world.step t o with
    | .error _ => (.refused, s)
    | .ok (w, reply, _) => (reply, { s with
        world := { w with journal := [] }
        report := s.report ++ w.journal.reverse.filterMap (remark? s.lock s.thread) })

/-- The reply of a mutex, result or guard operation, read as a yes or no. -/
def holdsTrue : Guarded.Reply → Bool
  | .flag b => b
  | _ => false

def isOk : Guarded.Reply → Bool
  | .status s => s.isOk
  | _ => false

def failsWith (e : LockError) : Guarded.Reply → Bool
  | .status s => !s.isOk && s.error = some e
  | _ => false

def reads (n : Int) : Guarded.Reply → Bool
  | .value p => p = .int n
  | _ => false

/-- The lock of these scenarios. -/
def m : Name := "m"

/-- One thread takes the lock, is refused it a second time, and gives it back. -/
def reentrySteps : StateM (Rehearsal 1) Unit := do
  say .info "Scenario 1: same-thread re-entry"
  let _ ← perform 0 (.mutex m (.create (.int 0)))
  let first ← perform 0 (.mutex m (.lock "first"))
  check (isOk first) "first lock() succeeds"
  if isOk first then
    let _ ← perform 0 (.result "first" (.content "guard"))
    let value ← perform 0 (.guard "guard" .read)
    check (reads 0 value) "first guard reads 0"
    let second ← perform 0 (.mutex m (.lock "second"))
    check (failsWith .lockedByCurrentThread second)
      "second lock() on the same thread reports LockedByCurrentThread"
    let secondTry ← perform 0 (.mutex m (.tryLock "secondTry"))
    check (failsWith .lockedByCurrentThread secondTry)
      "try_lock() on the same thread reports LockedByCurrentThread"
    let released ← perform 0 (.guard "guard" .release)
    check (holdsTrue released) "guard releases"
    let owned ← perform 0 (.mutex m .lockedByMe)
    check (!holdsTrue owned) "owner record cleared after release"
    let third ← perform 0 (.mutex m (.lock "third"))
    let value ← perform 0 (.result "third" .read)
    check (isOk third && reads 0 value) "lock() after release reads 0"
    let _ ← perform 0 (.result "third" .drop)

def reentry : Rehearsal 1 := (reentrySteps.run { lock := 0, thread := fun _ => 0 }).2

/-- The policy that the poisoned lock is read with; a panic would end the tool. -/
def applied : PoisonPolicy → PoisonPolicy
  | .panic => .inform
  | policy => policy

/-- The first thread writes 6 and fails before it gives the lock back. -/
def failedSection : StateM (Rehearsal 2) Unit := do
  let _ ← perform 0 (.mutex m (.lock "result"))
  let _ ← perform 0 (.result "result" (.content "guard"))
  let _ ← perform 0 (.result "result" .drop)
  let _ ← perform 0 (.guard "guard" (.write (.int 6)))
  let _ ← perform 0 .throw
  let _ ← perform 0 (.guard "guard" .drop)
  let _ ← perform 0 .catch_
  say .debug "  caught expected exception: critical section failed"

/-- The second thread takes the poisoned lock; whether it reads 6. -/
def poisonedRead (policy : PoisonPolicy) : StateM (Rehearsal 2) Bool := do
  let _ ← perform 1 (.mutex m (.lock "result"))
  let result ← perform 1 (.result "result" (.apply (some policy)))
  match result with
  | .status s =>
    if s.hasValue then
      let _ ← perform 1 (.result "result" (.intoValue "guard"))
      let value ← perform 1 (.guard "guard" .read)
      check (s.isPoisoned = decide (policy = .inform))
        "poison is reported unless the policy ignores it"
      let _ ← perform 1 (.guard "guard" .drop)
      let _ ← perform 1 (.result "result" .drop)
      return reads 6 value
    else return false
  | _ => return false

def poisoningSteps (policy : PoisonPolicy) : StateM (Rehearsal 2) Unit := do
  say .info ("Scenario 3: poisoning (policy=" ++ policy.name ++ ")")
  let _ ← perform 0 (.mutex m (.create (.int 5)))
  failedSection
  let poisoned ← perform 0 (.mutex m .isPoisoned)
  check (holdsTrue poisoned) "mutex is poisoned after unwinding through a guard"
  let owned ← perform 0 (.mutex m .lockedByMe)
  check (!holdsTrue owned) "unwinding release cleared the owner record"
  if policy = .panic then
    say .info "  policy panic: checking the poison report instead of terminating"
  let seen ← poisonedRead (applied policy)
  check seen "value written before the failure is visible (6)"
  let still ← perform 0 (.mutex m .isPoisoned)
  check (holdsTrue still) "poison is sticky"

/-- The second thread is the second one that the tool starts, after the two of the logger. -/
def poisoning (policy : PoisonPolicy) : Rehearsal 2 :=
  ((poisoningSteps policy).run { lock := 2, thread := fun t => if t = 0 then 0 else 4 }).2

end Rehearsal
end Stress
end CheckedLock
