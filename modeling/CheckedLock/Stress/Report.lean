import CheckedLock.Host
import CheckedLock.Lock.Notice
/-! What the stress tool has to say: messages, notices of its locks, and checks. A check that fails
is an error; one that passes is of interest only to whoever looks closely. -/
namespace CheckedLock
namespace Stress

structure Check where
  ok : Bool
  what : String
  deriving DecidableEq, Repr

namespace Check

def message (c : Check) : Level × String :=
  if c.ok then (.debug, "  ok: " ++ c.what) else (.error, "  FAILED: " ++ c.what)

/-- The number of failures after the check, if there were `n` before. -/
def tally (n : Nat) (c : Check) : Nat :=
  if c.ok then n else n + 1

/-- The number of failures after each check, in order. -/
def tallies (n : Nat) : List Check → List Nat
  | [] => []
  | c :: cs => c.tally n :: tallies (c.tally n) cs

def failures (cs : List Check) : Nat :=
  cs.countP fun c => !c.ok

theorem failures_eq_zero_iff (cs : List Check) : failures cs = 0 ↔ ∀ c ∈ cs, c.ok = true := by
  simp [failures, List.countP_eq_zero]

end Check

/-- Locks and threads of a run have numbers, in the order in which they come into being. -/
inductive Remark
  | said (l : Level) (body : String)
  | notice (lock thread : Nat) (x : Notice)
  | check (c : Check)
  deriving DecidableEq, Repr

namespace Remark

def message (h : Host) : Remark → Level × String
  | .said l body => (l, body)
  | .notice lock thread x => x.message (Host.hex (h.address lock)) (h.threadNumber thread)
  | .check c => c.message

def check? : Remark → Option Check
  | .check c => some c
  | _ => none

end Remark

abbrev Report := List Remark

namespace Report

def messages (h : Host) (r : Report) : List (Level × String) := r.map (·.message h)

def checks (r : Report) : List Check := r.filterMap Remark.check?

def failures (r : Report) : Nat := Check.failures r.checks

@[simp] theorem checks_append (r s : Report) :
    Report.checks (r ++ s) = Report.checks r ++ Report.checks s :=
  List.filterMap_append

end Report
end Stress
end CheckedLock
