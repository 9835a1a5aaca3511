import CheckedLock.Logging.Level
import CheckedLock.Text.Column
import CheckedLock.Text.Terminated
/-! Log messages, the places they go to, and the line a message makes. -/
namespace CheckedLock
namespace Logging

/-- A thread that calls the logger: one of the program's, or the one that runs error handlers. -/
inductive Agent (τ : Type)
  | thread (t : τ) | dispatcher
  deriving DecidableEq, Repr

/-- The worker itself announces a change of sink. -/
inductive Author (τ : Type)
  | agent (a : Agent τ) | worker
  deriving DecidableEq, Repr

/-- A message; `serial` counts the calls of its author. -/
structure Record (τ : Type) where
  author : Author τ
  serial : Nat
  level : Level
  body : String
  deriving DecidableEq, Repr

/-- Where messages are written. `exclusive` asks for an advisory lock around each write. -/
inductive Sink
  | console
  | file (path : String) (exclusive : Bool)
  deriving DecidableEq, Repr

namespace Sink

def description : Sink → String
  | .console => "Console"
  | .file path _ => "File: " ++ path

def writeFailure : Sink → String
  | .console => ""
  | .file path _ => Terminated.ofText ("Short write to log file '" ++ path ++ "'")

def openFailure (path reason : String) : String :=
  "Failed to create FileSink: " ++
    Terminated.ofText ("Failed to open log file '" ++ path ++ "': " ++ reason)

end Sink

/-- What a printed line shows beside the message: local time and the author's thread number. -/
structure Stamp (τ : Type) where
  time : String
  number : Author τ → Nat

namespace Record

variable {τ : Type}

/-- First message of a new sink; it names the one before. -/
def switched (old : Sink) : Record τ :=
  ⟨.worker, 0, .system, "Log sink switched from: " ++ old.description⟩

def line (s : Stamp τ) (r : Record τ) : String :=
  "[" ++ s.time ++ "] [" ++ Column.left 6 r.level.tag ++ "] [" ++
    Column.right 5 (toString (s.number r.author)) ++ "] " ++ r.body ++ "\n"

end Record
end Logging
end CheckedLock
