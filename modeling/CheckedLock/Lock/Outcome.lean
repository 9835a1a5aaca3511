/-! A value or an expected failure, and what it means to read the wrong one of the two. -/
namespace CheckedLock

/-- Misuse of a result or a guard. -/
inductive Misuse
  | contentOfFailure | errorOfSuccess | codeOfSuccess | contentOfPoisoned
  /-- access through a guard that does not hold its lock -/
  | accessWithoutLock
  deriving DecidableEq, Repr

namespace Misuse

def message : Misuse → String
  | .contentOfFailure => "Result::content() called on a failure"
  | .errorOfSuccess => "Result::error() called on a success"
  | .codeOfSuccess => "Result::error_code() called on a success"
  | .contentOfPoisoned => "LockResult::content() called on a poisoned result"
  | .accessWithoutLock => "ThreadCheckedMutexGuard: access without holding the lock"

end Misuse

/-- `code` is a detail for the caller, such as the position of a bad argument. -/
inductive Outcome (α ε : Type)
  | ok (value : α)
  | failure (error : ε) (code : Int)
  deriving DecidableEq, Repr

namespace Outcome

variable {α ε : Type}

def isOk : Outcome α ε → Bool
  | .ok _ => true
  | .failure _ _ => false

def content : Outcome α ε → Except Misuse α
  | .ok v => .ok v
  | .failure _ _ => .error .contentOfFailure

def error : Outcome α ε → Except Misuse ε
  | .ok _ => .error .errorOfSuccess
  | .failure e _ => .ok e

def code : Outcome α ε → Except Misuse Int
  | .ok _ => .error .codeOfSuccess
  | .failure _ c => .ok c

/-- Changes the value where it stands. -/
def update (f : α → α) : Outcome α ε → Except Misuse (Outcome α ε)
  | .ok v => .ok (.ok (f v))
  | .failure _ _ => .error .contentOfFailure

@[simp] theorem isOk_ok (v : α) : (Outcome.ok v : Outcome α ε).isOk = true := rfl
@[simp] theorem isOk_failure (e : ε) (c : Int) : (Outcome.failure e c : Outcome α ε).isOk = false :=
  rfl

end Outcome
end CheckedLock
