import CheckedLock.Logging.Machine
/-! Runs of the logger, what its journal says of them, and what the worker may do with a command. -/
namespace CheckedLock
namespace Logging

variable {τ κ σ : Type}

namespace System

/-- Nothing has happened; each thread has its calls before it. -/
def start (store : σ) (todo : τ → List (Call κ)) : System τ κ σ where
  logger := { store := store }
  callers
    | .thread t => Caller.fresh (todo t)
    | .dispatcher => Caller.fresh []

variable [DecidableEq τ]

/-- Systems of the runs from `s₀`, in any order of enabled steps. -/
inductive Reachable (o : Outlet τ σ) (react : κ → String → Reaction κ) (s₀ : System τ κ σ) :
    System τ κ σ → Prop
  | start : Reachable o react s₀ s₀
  | step {s s'} (x : Actor τ) (hr : Reachable o react s₀ s) (h : s.step o react x = some s') :
    Reachable o react s₀ s'

/-- The steps of the given actors, one after the other. -/
def runs (o : Outlet τ σ) (react : κ → String → Reaction κ) (s : System τ κ σ) :
    List (Actor τ) → Option (System τ κ σ)
  | [] => some s
  | x :: rest => (s.step o react x).bind (runs o react · rest)

theorem Reachable.runs {o : Outlet τ σ} {react : κ → String → Reaction κ}
    {s₀ s s' : System τ κ σ} (hr : Reachable o react s₀ s) {xs : List (Actor τ)}
    (h : s.runs o react xs = some s') : Reachable o react s₀ s' := by
  induction xs generalizing s with
  | nil =>
    cases h
    exact hr
  | cons x rest ih =>
    obtain ⟨t, ht, h⟩ := Option.bind_eq_some_iff.mp h
    exact ih (hr.step x ht) h

end System

def Command.record? : Command τ κ → Option (Record τ)
  | .write r => some r
  | _ => none

/-- The worker has no messages of its own but the news of a changed sink. -/
def Author.isAgent : Author τ → Bool
  | .agent _ => true
  | .worker => false

namespace Event

def admitted? : Event τ κ → Option (Record τ)
  | .admitted r => some r
  | _ => none

def queued? : Event τ κ → Option (Command τ κ)
  | .queued c => some c
  | _ => none

def fallback? : Event τ κ → Option (Record τ)
  | .fallback r => some r
  | _ => none

/-- The message that is queued or printed here by the thread that logged it. -/
def accepted? : Event τ κ → Option (Record τ)
  | .queued c => c.record?
  | .fallback r => some r
  | _ => none

/-- The agent's message that is given to a sink here, which may fail to write it. -/
def given? : Event τ κ → Option (Record τ)
  | .wrote _ r | .refused _ r => if r.author.isAgent then some r else none
  | _ => none

def invoked? : Event τ κ → Option (κ × String)
  | .invoked h message => some (h, message)
  | _ => none

end Event

namespace Logger

/-- What the events so far say about something, in the order of time. -/
def told {α : Type} (g : Logger τ κ σ) (f : Event τ κ → Option α) : List α :=
  (g.journal.filterMap f).reverse

/-- Messages that got past the level of their time. -/
abbrev admitted (g : Logger τ κ σ) : List (Record τ) := g.told Event.admitted?

/-- Commands that came into the queue. -/
abbrev queued (g : Logger τ κ σ) : List (Command τ κ) := g.told Event.queued?

/-- Messages printed by the threads that logged them, the queue being closed. -/
abbrev fallen (g : Logger τ κ σ) : List (Record τ) := g.told Event.fallback?

/-- Messages queued or printed by the threads that logged them. -/
abbrev accepted (g : Logger τ κ σ) : List (Record τ) := g.told Event.accepted?

/-- Messages of agents given to sinks. -/
abbrev given (g : Logger τ κ σ) : List (Record τ) := g.told Event.given?

/-- Messages given to error handlers. -/
abbrev invocations (g : Logger τ κ σ) : List (κ × String) := g.told Event.invoked?

end Logger

/-- What comes of a command: lines, and reports for handlers. -/
inductive Outcome (τ κ : Type)
  | wrote (s : Sink) (r : Record τ)
  | refused (s : Sink) (r : Record τ)
  | fallback (r : Record τ)
  | printed (message : String)
  | posted (handler : κ) (message : String)
  deriving DecidableEq, Repr

namespace Outcome

def post? : Outcome τ κ → Option (κ × String)
  | .posted h message => some (h, message)
  | _ => none

/-- Reports do not pass through the journal before a handler is called. -/
def line? : Outcome τ κ → Option (Outcome τ κ)
  | .posted _ _ => none
  | x => some x

def given? : Outcome τ κ → Option (Record τ)
  | .wrote _ r | .refused _ r => if r.author.isAgent then some r else none
  | _ => none

end Outcome

/-- The worker's part in an event. -/
def Event.line? : Event τ κ → Option (Outcome τ κ)
  | .wrote s r => some (.wrote s r)
  | .refused s r => some (.refused s r)
  | .printed message => some (.printed message)
  | _ => none

/-- Where messages go, and who gets the reports, at some point of the command order. -/
structure Desk (κ : Type) where
  sink : Sink := .console
  handler : Option κ := none

namespace Desk

/-- The one report of an error. -/
def report (d : Desk κ) (message : String) : Outcome τ κ :=
  match d.handler with
  | none => .printed message
  | some h => .posted h message

open Logger (workerError) in
/-- What the worker makes of a command, for each answer of the outlet at that moment: each failure
is followed by exactly one report. -/
inductive Handles (o : Outlet τ σ) : Desk κ → Command τ κ → List (Outcome τ κ) → Desk κ → Prop
  | wrote {d r x x'} (h : o.write x d.sink r = .ok x') :
    Handles o d (.write r) [.wrote d.sink r] d
  | refused {d r x text} (h : o.write x d.sink r = .error text) :
    Handles o d (.write r) [.refused d.sink r, d.report (workerError text)] d
  | switched {d s x x'} (h : o.write x s (.switched d.sink) = .ok x') :
    Handles o d (.select s) [.wrote s (.switched d.sink)] { d with sink := s }
  | unannounced {d s x text} (h : o.write x s (.switched d.sink) = .error text) :
    Handles o d (.select s) [.refused s (.switched d.sink), d.report (workerError text)]
      { d with sink := s }
  /-- the old sink could not be flushed and stays in place -/
  | kept {d s x text} (h : o.flush x d.sink = .error text) :
    Handles o d (.select s) [d.report (workerError text)] d
  | openFailed {d message} : Handles o d (.openFailed message) [d.report message] d
  | flushed {d ticket x x'} (h : o.flush x d.sink = .ok x') : Handles o d (.flush ticket) [] d
  | unflushed {d ticket x text} (h : o.flush x d.sink = .error text) :
    Handles o d (.flush ticket) [d.report (workerError text)] d
  | onError {d h} : Handles o d (.onError h) [] { d with handler := h }

/-- Commands processed one after the other. -/
inductive HandlesAll (o : Outlet τ σ) (d₀ : Desk κ) :
    List (Command τ κ) → List (Outcome τ κ) → Desk κ → Prop
  | none : HandlesAll o d₀ [] [] d₀
  | next {cs xs d c ys d'} (hs : HandlesAll o d₀ cs xs d) (h : Handles o d c ys d') :
    HandlesAll o d₀ (cs ++ [c]) (xs ++ ys) d'

end Desk

/-- What may follow all commands: the flush before the worker ends can fail, too. -/
inductive Desk.Closes (o : Outlet τ σ) (d : Desk κ) : List (Outcome τ κ) → Prop
  | flushed {x x'} (h : o.flush x d.sink = .ok x') : Closes o d []
  | unflushed {x text} (h : o.flush x d.sink = .error text) :
    Closes o d [d.report ("Logger final flush failed: " ++ text)]

end Logging
end CheckedLock
