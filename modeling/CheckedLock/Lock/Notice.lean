import CheckedLock.Lock.Core
import CheckedLock.Logging.Machine
/-! What locks write to the log. -/
namespace CheckedLock

namespace Notice

def level : Notice → Level
  | .reentry _ => .debug
  | .poisoned => .warn

/-- `address` and `thread` tell the reader which lock and which thread. -/
def body (address : String) (thread : Nat) (x : Notice) : String :=
  "ThreadCheckedMutex " ++ address ++ ": " ++ match x with
    | .reentry polling => "re-entry rejected on thread " ++ toString thread ++
        (if polling then " (try_lock)" else "")
    | .poisoned => "guard released during exception unwinding on thread " ++ toString thread ++
        "; lock is now poisoned"

def message (address : String) (thread : Nat) (x : Notice) : Level × String :=
  (x.level, x.body address thread)

end Notice

/-- Log calls at a threshold. -/
def Logging.callsOf {κ : Type} (threshold : Level) (messages : List (Level × String)) :
    List (Logging.Call κ) :=
  .setLevel threshold :: messages.map (fun m => .log m.1 m.2)

end CheckedLock
