import CheckedLock.Logging.Record
/-! The queued logger as interleaved atomic steps: callers put commands into a queue, a worker
takes the whole queue at a time and writes, a dispatcher runs error handlers on a thread of its
own. Each function below is one step of one thread; a run is any order of enabled steps. -/
namespace CheckedLock
namespace Logging

variable {τ κ σ : Type}

/-- What a thread asks of the logger. Handlers are known by names of type `κ`. -/
inductive Call (κ : Type)
  | setLevel (l : Level)
  | log (l : Level) (body : String)
  | logfile (path : String) (exclusive : Bool)
  | console
  | onError (handler : Option κ)
  | flush
  | shutdown
  deriving DecidableEq, Repr

/-- What the queue holds. -/
inductive Command (τ κ : Type)
  | write (r : Record τ)
  | select (s : Sink)
  | openFailed (message : String)
  | flush (ticket : Nat)
  | onError (handler : Option κ)
  deriving DecidableEq, Repr

/-- What a handler does with a message: its own calls, then perhaps an exception. -/
structure Reaction (κ : Type) where
  calls : List (Call κ)
  thrown : Option String

/-- The outside of the logger: opening, writing and flushing sinks over a store `σ`. -/
structure Outlet (τ σ : Type) where
  openLog : σ → String → Except String σ
  write : σ → Sink → Record τ → Except String σ
  flush : σ → Sink → Except String σ

/-- Where a thread stands inside one of its calls. -/
inductive Place (τ κ : Type)
  | idle
  /-- first look at the stop request, without the queue's lock -/
  | checking (c : Command τ κ)
  /-- second look and push, under the queue's lock -/
  | pushing (c : Command τ κ)
  | notifying (c : Command τ κ)
  | rechecking (ticket : Nat)
  | awaiting (ticket : Nat)
  /-- about to set the stop request -/
  | claiming
  | waking
  | joining
  | claimingDispatcher
  | wakingDispatcher
  | joiningDispatcher
  | completing
  deriving DecidableEq, Repr

structure Caller (τ κ : Type) where
  todo : List (Call κ)
  place : Place τ κ
  /-- calls begun so far -/
  serial : Nat

/-- An error on its way to the handler; then `ticket` is honoured and the worker goes on with
`rest`, or ends if there is none. -/
structure Report (τ κ : Type) where
  message : String
  ticket : Option Nat
  rest : Option (List (Command τ κ))
  deriving DecidableEq, Repr

inductive WorkerPlace (τ κ : Type)
  | evaluating
  /-- found nothing to do and still holds the queue's lock -/
  | dozing
  | asleep
  | processing (batch : List (Command τ κ))
  | reporting (r : Report τ κ)
  | posting (handler : κ) (r : Report τ κ)
  | alerting (r : Report τ κ)
  | flushing
  | exited
  deriving DecidableEq, Repr

inductive DispatcherPlace
  | evaluating | dozing | asleep
  | running (thrown : Option String)
  | exited
  deriving DecidableEq, Repr

/-- What happened, for whoever reads the journal. -/
inductive Event (τ κ : Type)
  | called (a : Agent τ) (c : Call κ)
  | returned (a : Agent τ)
  /-- a message got past the level of its time -/
  | admitted (r : Record τ)
  | queued (c : Command τ κ)
  | wrote (s : Sink) (r : Record τ)
  | refused (s : Sink) (r : Record τ)
  /-- printed by the caller, the queue being closed -/
  | fallback (r : Record τ)
  /-- an error report printed for want of a handler -/
  | printed (message : String)
  | invoked (handler : κ) (message : String)
  | threw (text : String)
  /-- the process ends without a shutdown -/
  | unclosed
  deriving DecidableEq, Repr

structure Logger (τ κ σ : Type) where
  threshold : Level := .info
  requested : Bool := false
  completed : Bool := false
  queue : List (Command τ κ) := []
  worker : WorkerPlace τ κ := .evaluating
  sink : Sink := .console
  handler : Option κ := none
  posts : List (κ × String) := []
  dispatcher : DispatcherPlace := .evaluating
  dispatcherRequested : Bool := false
  nextTicket : Nat := 0
  /-- tickets of flushes that are done, the latest first -/
  honoured : List Nat := []
  store : σ
  /-- the newest event first -/
  journal : List (Event τ κ) := []

namespace Caller

def fresh (todo : List (Call κ)) : Caller τ κ := ⟨todo, .idle, 0⟩

def finished (c : Caller τ κ) : Bool :=
  match c.todo, c.place with
  | [], .idle => true
  | _, _ => false

end Caller

namespace Logger

def note (e : Event τ κ) (g : Logger τ κ σ) : Logger τ κ σ :=
  { g with journal := e :: g.journal }

/-- A notification wakes only a worker that is already asleep. -/
def wake (g : Logger τ κ σ) : Logger τ κ σ :=
  match g.worker with
  | .asleep => { g with worker := .evaluating }
  | _ => g

def wakeDispatcher (g : Logger τ κ σ) : Logger τ κ σ :=
  match g.dispatcher with
  | .asleep => { g with dispatcher := .evaluating }
  | _ => g

/-- A command that finds the queue closed: messages are printed, the rest is dropped. -/
def refuse (c : Command τ κ) (g : Logger τ κ σ) : Logger τ κ σ :=
  match c with
  | .write r => g.note (.fallback r)
  | _ => g

/-- The call is over. -/
def finish (a : Agent τ) (c : Caller τ κ) (g : Logger τ κ σ) : Caller τ κ × Logger τ κ σ :=
  ({ c with place := .idle }, g.note (.returned a))

/-- The command was pushed or refused; a flush still has to wait. -/
def pushed (a : Agent τ) (cmd : Command τ κ) (c : Caller τ κ) (g : Logger τ κ σ) :
    Caller τ κ × Logger τ κ σ :=
  match cmd with
  | .flush ticket => ({ c with place := .rechecking ticket }, g)
  | _ => finish a c g

def begin (o : Outlet τ σ) (a : Agent τ) (c : Caller τ κ) (g : Logger τ κ σ) :
    Call κ → Caller τ κ × Logger τ κ σ
  | .setLevel l => finish a c { g with threshold := l }
  | .log l body =>
    if l.passes g.threshold then
      let r : Record τ := ⟨.agent a, c.serial, l, body⟩
      ({ c with place := .checking (.write r) }, g.note (.admitted r))
    else finish a c g
  | .logfile path exclusive => match o.openLog g.store path with
    | .ok store =>
      ({ c with place := .checking (.select (.file path exclusive)) }, { g with store := store })
    | .error reason =>
      ({ c with place := .checking (.openFailed (Sink.openFailure path reason)) }, g)
  | .console => ({ c with place := .checking (.select .console) }, g)
  | .onError h => ({ c with place := .checking (.onError h) }, g)
  | .flush =>
    if g.requested then finish a c g
    else ({ c with place := .checking (.flush g.nextTicket) },
      { g with nextTicket := g.nextTicket + 1 })
  | .shutdown => if g.completed then finish a c g else ({ c with place := .claiming }, g)

/-- One step of a calling thread; `none` while it has to wait or has nothing left to do. -/
def callerStep (o : Outlet τ σ) (a : Agent τ) (c : Caller τ κ) (g : Logger τ κ σ) :
    Option (Caller τ κ × Logger τ κ σ) :=
  match c.place with
  | .idle => match c.todo with
    | [] => none
    | call :: rest =>
      let c := { c with todo := rest, serial := c.serial + 1 }
      some (begin o a c (g.note (.called a call)) call)
  | .checking cmd =>
    if g.requested then some (pushed a cmd c (g.refuse cmd))
    else some ({ c with place := .pushing cmd }, g)
  | .pushing cmd => match g.worker with
    | .dozing => none
    | _ =>
      if g.requested then some (pushed a cmd c (g.refuse cmd))
      else some ({ c with place := .notifying cmd },
        ({ g with queue := g.queue ++ [cmd] }).note (.queued cmd))
  | .notifying cmd => some (pushed a cmd c g.wake)
  | .rechecking ticket =>
    if g.requested then some (finish a c g) else some ({ c with place := .awaiting ticket }, g)
  | .awaiting ticket => if ticket ∈ g.honoured then some (finish a c g) else none
  | .claiming =>
    if g.requested then some (finish a c g)
    else some ({ c with place := .waking }, { g with requested := true })
  | .waking => some ({ c with place := .joining }, g.wake)
  | .joining => match g.worker with
    | .exited => some ({ c with place := .claimingDispatcher }, g)
    | _ => none
  | .claimingDispatcher =>
    if g.dispatcherRequested then some ({ c with place := .completing }, g)
    else some ({ c with place := .wakingDispatcher }, { g with dispatcherRequested := true })
  | .wakingDispatcher => some ({ c with place := .joiningDispatcher }, g.wakeDispatcher)
  | .joiningDispatcher => match g.dispatcher with
    | .exited => some ({ c with place := .completing }, g)
    | _ => none
  | .completing => some (finish a c { g with completed := true })

/-- An error met while a command was processed. -/
def workerError (text : String) : String := "Logger worker error: " ++ text

/-- The worker turns to `rest`, or ends. -/
def proceed (rest : Option (List (Command τ κ))) (g : Logger τ κ σ) : Logger τ κ σ :=
  { g with worker := match rest with
      | some batch => .processing batch
      | none => .exited }

def honour (ticket : Option Nat) (g : Logger τ κ σ) : Logger τ κ σ :=
  match ticket with
  | some t => { g with honoured := t :: g.honoured }
  | none => g

/-- The report is delivered or dropped. -/
def reported (r : Report τ κ) (g : Logger τ κ σ) : Logger τ κ σ :=
  (g.honour r.ticket).proceed r.rest

def put (o : Outlet τ σ) (r : Record τ) (rest : List (Command τ κ)) (g : Logger τ κ σ) :
    Logger τ κ σ :=
  match o.write g.store g.sink r with
  | .ok store => ({ g with store := store, worker := .processing rest }).note (.wrote g.sink r)
  | .error text =>
    ({ g with worker := .reporting ⟨workerError text, none, some rest⟩ }).note (.refused g.sink r)

/-- The worker takes one command of its batch. -/
def handle (o : Outlet τ σ) (rest : List (Command τ κ)) (g : Logger τ κ σ) :
    Command τ κ → Logger τ κ σ
  | .write r => g.put o r rest
  | .select s => match o.flush g.store g.sink with
    | .error text => { g with worker := .reporting ⟨workerError text, none, some rest⟩ }
    | .ok store => ({ g with store := store, sink := s }).put o (.switched g.sink) rest
  | .openFailed message => { g with worker := .reporting ⟨message, none, some rest⟩ }
  | .flush ticket => match o.flush g.store g.sink with
    | .error text => { g with worker := .reporting ⟨workerError text, some ticket, some rest⟩ }
    | .ok store => ({ g with store := store, worker := .processing rest }).honour (some ticket)
  | .onError h => { g with handler := h, worker := .processing rest }

/-- One step of the worker; `none` when it sleeps, has ended, or the dispatcher's lock is taken. -/
def workerStep (o : Outlet τ σ) (g : Logger τ κ σ) : Option (Logger τ κ σ) :=
  match g.worker with
  | .evaluating => match g.queue with
    | [] =>
      if g.requested then some { g with worker := .flushing }
      else some { g with worker := .dozing }
    | cmd :: rest => some { g with worker := .processing (cmd :: rest), queue := [] }
  | .dozing => some { g with worker := .asleep }
  | .asleep => none
  | .processing [] => some { g with worker := .evaluating }
  | .processing (cmd :: rest) => some (g.handle o rest cmd)
  | .reporting r => match g.handler with
    | none => some ((g.note (.printed r.message)).reported r)
    | some h =>
      if g.dispatcherRequested then some (g.reported r)
      else some { g with worker := .posting h r }
  | .posting h r => match g.dispatcher with
    | .dozing => none
    | _ => some { g with posts := g.posts ++ [(h, r.message)], worker := .alerting r }
  | .alerting r => some (g.wakeDispatcher.reported r)
  | .flushing => match o.flush g.store g.sink with
    | .ok store => some { g with store := store, worker := .exited }
    | .error text => some { g with
        worker := .reporting ⟨"Logger final flush failed: " ++ text, none, none⟩ }
  | .exited => none

/-- One step of the dispatcher between the calls of a handler, which are steps of `c`. -/
def dispatcherStep (react : κ → String → Reaction κ) (c : Caller τ κ) (g : Logger τ κ σ) :
    Option (Caller τ κ × Logger τ κ σ) :=
  match g.dispatcher with
  | .evaluating => match g.posts with
    | [] =>
      if g.dispatcherRequested then some (c, { g with dispatcher := .exited })
      else some (c, { g with dispatcher := .dozing })
    | (h, message) :: rest =>
      let reaction := react h message
      some ({ c with todo := reaction.calls },
        ({ g with posts := rest, dispatcher := .running reaction.thrown }).note
          (.invoked h message))
  | .dozing => some (c, { g with dispatcher := .asleep })
  | .asleep => none
  | .running thrown =>
    if c.finished then match thrown with
      | some text => some (c, ({ g with dispatcher := .evaluating }).note (.threw text))
      | none => some (c, { g with dispatcher := .evaluating })
    else none
  | .exited => none

end Logger

/-- The logger and all threads that may call it. -/
structure System (τ κ σ : Type) where
  logger : Logger τ κ σ
  callers : Agent τ → Caller τ κ

inductive Actor (τ : Type)
  | caller (a : Agent τ) | worker | dispatcher
  deriving DecidableEq, Repr

namespace System

variable [DecidableEq τ]

def setCaller (s : System τ κ σ) (a : Agent τ) (c : Caller τ κ) : System τ κ σ :=
  { s with callers := fun b => if b = a then c else s.callers b }

@[simp] theorem setCaller_self (s : System τ κ σ) (a : Agent τ) (c : Caller τ κ) :
    (s.setCaller a c).callers a = c := by simp [setCaller]

theorem setCaller_ne (s : System τ κ σ) {a b : Agent τ} (c : Caller τ κ) (h : b ≠ a) :
    (s.setCaller a c).callers b = s.callers b := by simp [setCaller, h]

/-- One step of one actor. -/
def step (o : Outlet τ σ) (react : κ → String → Reaction κ) (s : System τ κ σ) :
    Actor τ → Option (System τ κ σ)
  | .caller a => (s.logger.callerStep o a (s.callers a)).map fun p =>
      { s.setCaller a p.1 with logger := p.2 }
  | .worker => (s.logger.workerStep o).map fun g => { s with logger := g }
  | .dispatcher => (s.logger.dispatcherStep react (s.callers .dispatcher)).map fun p =>
      { s.setCaller .dispatcher p.1 with logger := p.2 }

end System
end Logging
end CheckedLock
