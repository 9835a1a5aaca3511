import CheckedLock.Logging.Machine
import CheckedLock.Files.Store
/-! One thread that uses the logger: after each of its calls the worker and the dispatcher run
until they sleep. This is one order of the steps of `Logging.Machine`, and what a program run
prints. -/
namespace CheckedLock
namespace Logging

variable {κ σ : Type}

structure Session (κ σ : Type) where
  logger : Logger Unit κ σ
  caller : Caller Unit κ
  /-- calls that error handlers make, on the dispatcher's thread -/
  errands : Caller Unit κ

namespace Session

def start (store : σ) : Session κ σ :=
  ⟨{ store := store }, Caller.fresh [], Caller.fresh []⟩

/-- The session as a system with a single calling thread. -/
def system (s : Session κ σ) : System Unit κ σ where
  logger := s.logger
  callers
    | .thread _ => s.caller
    | .dispatcher => s.errands

def step (o : Outlet Unit σ) (react : κ → String → Reaction κ) (s : Session κ σ) :
    Actor Unit → Option (Session κ σ)
  | .caller (.thread _) => (s.logger.callerStep o (.thread ()) s.caller).map fun p =>
      { s with caller := p.1, logger := p.2 }
  | .caller .dispatcher => (s.logger.callerStep o .dispatcher s.errands).map fun p =>
      { s with errands := p.1, logger := p.2 }
  | .worker => (s.logger.workerStep o).map fun g => { s with logger := g }
  | .dispatcher => (s.logger.dispatcherStep react s.errands).map fun p =>
      { s with errands := p.1, logger := p.2 }

/-- Steps of `move` until it stops, at most `fuel` of them. -/
def repeated {α : Type} (move : α → Option α) : Nat → α → α
  | 0, x => x
  | fuel + 1, x => match move x with
    | none => x
    | some y => repeated move fuel y

/-- No call takes more steps of its caller. -/
def callSteps : Nat := 8

def batchSize (g : Logger Unit κ σ) : Nat :=
  match g.worker with
  | .processing batch => batch.length
  | _ => 0

/-- Enough steps for the worker to empty its batch and the queue and to fall asleep. -/
def workerSteps (s : Session κ σ) : Nat :=
  4 * (s.logger.queue.length + batchSize s.logger) + 8

/-- Enough steps to run a handler for each waiting report. -/
def dispatcherSteps (react : κ → String → Reaction κ) (s : Session κ σ) : Nat :=
  s.logger.posts.foldl
    (fun n p => n + 2 + callSteps * (react p.1 p.2).calls.length)
    (callSteps * (s.errands.todo.length + 1) + 2)

def runCaller (o : Outlet Unit σ) (react : κ → String → Reaction κ) (s : Session κ σ) :
    Session κ σ :=
  repeated (step o react · (.caller (.thread ()))) callSteps s

def runWorker (o : Outlet Unit σ) (react : κ → String → Reaction κ) (s : Session κ σ) :
    Session κ σ :=
  repeated (step o react · .worker) s.workerSteps s

def runDispatcher (o : Outlet Unit σ) (react : κ → String → Reaction κ) (s : Session κ σ) :
    Session κ σ :=
  repeated
    (fun s => match step o react s (.caller .dispatcher) with
      | some t => some t
      | none => step o react s .dispatcher)
    (s.dispatcherSteps react) s

/-- Each thread runs until it has to wait. -/
def turn (o : Outlet Unit σ) (react : κ → String → Reaction κ) (s : Session κ σ) : Session κ σ :=
  ((s.runCaller o react).runWorker o react).runDispatcher o react

/-- Turns until the caller is through. -/
def settle (o : Outlet Unit σ) (react : κ → String → Reaction κ) :
    Nat → Session κ σ → Session κ σ
  | 0, s => s
  | fuel + 1, s =>
    let t := s.turn o react
    if t.caller.finished then t else settle o react fuel t

def call (o : Outlet Unit σ) (react : κ → String → Reaction κ) (s : Session κ σ) (c : Call κ) :
    Session κ σ :=
  settle o react callSteps { s with caller := { s.caller with todo := [c] } }

def calls (o : Outlet Unit σ) (react : κ → String → Reaction κ) (s : Session κ σ) :
    List (Call κ) → Session κ σ :=
  List.foldl (call o react) s

/-- The newest event last. -/
def events (s : Session κ σ) : List (Event Unit κ) :=
  s.logger.journal.reverse

/-- Messages given to handlers so far, in order. -/
def delivered (s : Session κ σ) : List String :=
  s.events.filterMap fun
    | .invoked _ message => some message
    | _ => none

/-- Turns until `count` messages have been given to handlers, or nothing is left to wait for. -/
def awaitDelivered (o : Outlet Unit σ) (react : κ → String → Reaction κ) (count : Nat)
    (s : Session κ σ) : Session κ σ :=
  repeated (fun s => if count ≤ s.delivered.length then none else some (s.turn o react)) count s

/-- The process leaves: a logger still open says so and is shut down. -/
def leave (o : Outlet Unit σ) (react : κ → String → Reaction κ) (s : Session κ σ) :
    Session κ σ :=
  if s.logger.completed then s
  else call o react { s with logger := s.logger.note .unclosed } .shutdown

/-- The end of a run, with a shutdown of its own or without. -/
def finish (o : Outlet Unit σ) (react : κ → String → Reaction κ) (shutsDown : Bool)
    (s : Session κ σ) : Session κ σ :=
  if shutsDown then s.call o react .shutdown else s.leave o react

end Session

namespace Event

def fallbackMark : String := "[tclock::Logger-fallback] Log after shutdown: "

def reportMark : String := "[tclock::Logger] "

def unclosedWarning : String :=
  "[tclock::Logger WARNING]: Logger was not shut down explicitly. Call " ++
    "Logger::instance().shutdown() before main() returns.\n"

/-- What an event puts on the error stream. -/
def text? (s : Stamp Unit) : Event Unit κ → Option String
  | .wrote .console r => some (r.line s)
  | .fallback r => some (fallbackMark ++ r.line s)
  | .printed message => some (reportMark ++ message ++ "\n")
  | .threw text => some (reportMark ++ "error callback threw: " ++ text ++ "\n")
  | .unclosed => some unclosedWarning
  | _ => none

def isThrow : Event Unit κ → Bool
  | .threw _ => true
  | _ => false

end Event

namespace Session

/-- The error stream, of the events that `keep` selects. -/
def errorText (s : Session κ σ) (stamp : Stamp Unit) (keep : Event Unit κ → Bool) : String :=
  String.join ((s.events.filter keep).filterMap (Event.text? stamp))

end Session

/-- Log files in a file store. -/
abbrev LogFiles := FileStore (Record Unit)

/-- The console takes every message; files follow the store. -/
def fileOutlet : Outlet Unit LogFiles where
  openLog store path := match store.openAppend path with
    | .ok store => .ok store
    | .error e => .error e.message
  write store sink r := match sink with
    | .console => .ok store
    | .file path _ => match store.append path r with
      | some store => .ok store
      | none => .error sink.writeFailure
  flush store _ := .ok store

/-- Contents of a log file as text. -/
def fileText (stamp : Stamp Unit) (c : Contents (Record Unit)) : String :=
  c.text ++ String.join (c.appended.reverse.map (·.line stamp))

/-- Error handlers in use: keep the message; keep it and throw; log it and keep it. -/
inductive Handler
  | collect | throw | log
  deriving DecidableEq, Repr

namespace Handler

def react : Handler → String → Reaction Handler
  | .collect, _ => ⟨[], none⟩
  | .throw, _ => ⟨[], some "boom"⟩
  | .log, message => ⟨[.log .error ("callback: " ++ message)], none⟩

end Handler
end Logging
end CheckedLock
