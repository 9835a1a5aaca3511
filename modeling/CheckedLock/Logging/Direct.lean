import CheckedLock.Logging.Run
import CheckedLock.Logging.Session
/-! The logger without queue and threads: each call of the only caller has its effect at once. -/
namespace CheckedLock
namespace Logging

variable {κ σ : Type}

/-- What an outcome puts on the error stream. -/
def Outcome.text? (s : Stamp Unit) : Outcome Unit κ → Option String
  | .wrote .console r => some (r.line s)
  | .fallback r => some (Event.fallbackMark ++ r.line s)
  | .printed message => some (Event.reportMark ++ message ++ "\n")
  | _ => none

/-- Sink, handler and files, and what has come out so far. -/
structure Output (κ σ : Type) extends Desk κ where
  store : σ
  /-- in the order of time -/
  lines : List (Outcome Unit κ) := []
  /-- handlers called, each with its message -/
  invoked : List (κ × String) := []

namespace Output

def say (x : Outcome Unit κ) (v : Output κ σ) : Output κ σ :=
  { v with lines := v.lines ++ [x] }

/-- An error goes to the handler, if there is one. -/
def report (message : String) (v : Output κ σ) : Output κ σ :=
  match v.handler with
  | none => v.say (.printed message)
  | some h => { v with invoked := v.invoked ++ [(h, message)] }

def write (o : Outlet Unit σ) (r : Record Unit) (v : Output κ σ) : Output κ σ :=
  match o.write v.store v.sink r with
  | .ok store => ({ v with store := store }).say (.wrote v.sink r)
  | .error text => (v.say (.refused v.sink r)).report (Logger.workerError text)

def flush (o : Outlet Unit σ) (error : String → String) (v : Output κ σ) : Output κ σ :=
  match o.flush v.store v.sink with
  | .ok store => { v with store := store }
  | .error text => v.report (error text)

/-- The new sink's first message names the old one, which stays if it cannot be flushed. -/
def select (o : Outlet Unit σ) (s : Sink) (v : Output κ σ) : Output κ σ :=
  match o.flush v.store v.sink with
  | .ok store => ({ v with store := store, sink := s }).write o (.switched v.sink)
  | .error text => v.report (Logger.workerError text)

def exec (o : Outlet Unit σ) (v : Output κ σ) : Command Unit κ → Output κ σ
  | .write r => v.write o r
  | .select s => v.select o s
  | .openFailed message => v.report message
  | .flush _ => v.flush o Logger.workerError
  | .onError h => { v with handler := h }

/-- After the shutdown messages are printed, and nothing else happens. -/
def refuse (v : Output κ σ) : Command Unit κ → Output κ σ
  | .write r => v.say (.fallback r)
  | _ => v

def submit (o : Outlet Unit σ) (closed : Bool) (cmd : Command Unit κ) (v : Output κ σ) :
    Output κ σ :=
  if closed then v.refuse cmd else v.exec o cmd

end Output

structure Direct (κ σ : Type) where
  threshold : Level := .info
  closed : Bool := false
  /-- calls so far -/
  serial : Nat := 0
  output : Output κ σ

namespace Direct

def start (store : σ) : Direct κ σ where
  output := { store := store }

def submit (o : Outlet Unit σ) (cmd : Command Unit κ) (d : Direct κ σ) : Direct κ σ :=
  { d with output := d.output.submit o d.closed cmd }

/-- A file is opened also after the shutdown. -/
def effect (o : Outlet Unit σ) (d : Direct κ σ) : Call κ → Direct κ σ
  | .setLevel l => { d with threshold := l }
  | .log l body =>
    if l.passes d.threshold then d.submit o (.write ⟨.agent (.thread ()), d.serial, l, body⟩) else d
  | .logfile path exclusive => match o.openLog d.output.store path with
    | .ok store =>
      ({ d with output := { d.output with store := store } }).submit o
        (.select (.file path exclusive))
    | .error reason => d.submit o (.openFailed (Sink.openFailure path reason))
  | .console => d.submit o (.select .console)
  | .onError h => d.submit o (.onError h)
  | .flush => d.submit o (.flush 0)
  | .shutdown =>
    if d.closed then d
    else { d with
      closed := true
      output := d.output.flush o ("Logger final flush failed: " ++ ·) }

/-- One call; calls are numbered from 1. -/
def call (o : Outlet Unit σ) (d : Direct κ σ) (c : Call κ) : Direct κ σ :=
  ({ d with serial := d.serial + 1 }).effect o c

def calls (o : Outlet Unit σ) (d : Direct κ σ) : List (Call κ) → Direct κ σ :=
  List.foldl (call o) d

/-- The lines on the error stream. -/
def errorLines (stamp : Stamp Unit) (d : Direct κ σ) : List String :=
  d.output.lines.filterMap (Outcome.text? stamp)

end Direct
end Logging
end CheckedLock
