import CheckedLock.Guarded.Op
import CheckedLock.Lock.Notice
/-! Scripts: operations one after the other, each on its thread, and scopes that may be left by an
exception. While a scope is left its slots are destroyed, then some last steps run, and only then
the exception is caught. -/
namespace CheckedLock
namespace Guarded

variable {n : Nat}

inductive Step (n : Nat)
  | op (thread : Option (Fin n)) (o : Op)
  | scope (thread : Option (Fin n)) (body : List (Step n)) (throws : Bool) (drops : List Name)
      (exit : List (Step n))

/-- What a step answers; `woken` are threads that went on because of it. -/
inductive Trace (n : Nat)
  | reply (r : Reply) (woken : List (Fin n × Reply))
  | woken (ws : List (Fin n × Reply))
  | scope (body exit : List (Trace n)) (threw : Bool)

namespace World

/-- An operation of a scope's own thread that no step stands for. -/
def silently (w : World n) (t : Fin n) (o : Op) : World n × List (Fin n × Reply) :=
  match w.step t o with
  | .ok (v, _, woken) => (v, woken)
  | .error _ => (w, [])

/-- Destroys the slots of thread `t` with this name: the result, then the guard. -/
def dropSlots (w : World n) (t : Fin n) (name : Name) : World n :=
  let w := match w.results name with
    | some s => if s.thread = t then w.discardResult name s else w
    | none => w
  match w.guards name with
  | some s => if s.thread = t then w.discardGuard name s else w
  | none => w

/-- Destroys slots name by name; after each name those that can go on do. -/
def dropAll (w : World n) (t : Fin n) : List Name → World n × List (Fin n × Reply)
  | [] => (w, [])
  | name :: rest =>
    if w.isWaiting t then (w, [])
    else
      let (w, first) := (w.dropSlots t name).settle n
      let (w, more) := dropAll w t rest
      (w, first ++ more)

end World

def tracesOfDrops (ws : List (Fin n × Reply)) : List (Trace n) :=
  if ws.isEmpty then [] else [.woken ws]

mutual

/-- `t` is the thread of steps that name none. -/
def Step.run (t : Fin n) (w : World n) : Step n → Except Panic (World n × Trace n)
  | .op thread o =>
    (w.step ((w.owner? o).getD (thread.getD t)) o).map fun (v, reply, woken) =>
      (v, .reply reply woken)
  | .scope thread body throws drops exit =>
    let u := thread.getD t
    match Step.runAll u w body with
    | .error p => .error p
    | .ok (w, bodyTraces) =>
      let w := if throws then (w.silently u .throw).1 else w
      let (w, woken) := w.dropAll u drops
      match Step.runAll u w exit with
      | .error p => .error p
      | .ok (w, exitTraces) =>
        let w := if throws then (w.silently u .catch_).1 else w
        .ok (w, .scope bodyTraces (tracesOfDrops woken ++ exitTraces) throws)

def Step.runAll (t : Fin n) (w : World n) : List (Step n) → Except Panic (World n × List (Trace n))
  | [] => .ok (w, [])
  | s :: rest => match Step.run t w s with
    | .error p => .error p
    | .ok (w, trace) => match Step.runAll t w rest with
      | .error p => .error p
      | .ok (w, traces) => .ok (w, trace :: traces)

end

/-- Steps up to the end or to a panic; the step that panics has no trace. -/
def runScript (t : Fin n) (w : World n) : List (Step n) → World n × List (Trace n) × Option Panic
  | [] => (w, [], none)
  | s :: rest => match Step.run t w s with
    | .error p => (w, [], some p)
    | .ok (w, trace) =>
      let (w, traces, panic) := runScript t w rest
      (w, trace :: traces, panic)

mutual

/-- Slots that a step can fill. -/
def Step.slots : Step n → List Name
  | .op _ (.mutex _ (.lock r)) => [r]
  | .op _ (.mutex _ (.tryLock r)) => [r]
  | .op _ (.result _ (.content g)) => [g]
  | .op _ (.result _ (.intoValue g)) => [g]
  | .op _ (.guard _ (.move dest)) => [dest]
  | .op _ _ => []
  | .scope _ body _ _ exit => Step.slotsAll body ++ Step.slotsAll exit

def Step.slotsAll : List (Step n) → List Name
  | [] => []
  | s :: rest => Step.slots s ++ Step.slotsAll rest

end

mutual

def Step.mutexes : Step n → List Name
  | .op _ (.mutex m (.create _)) => [m]
  | .op _ _ => []
  | .scope _ body _ _ exit => Step.mutexesAll body ++ Step.mutexesAll exit

def Step.mutexesAll : List (Step n) → List Name
  | [] => []
  | s :: rest => Step.mutexes s ++ Step.mutexesAll rest

end

/-- Each name once, in order. -/
def inOrder (names : List Name) : List Name :=
  names.eraseDups.mergeSort fun a b => decide (a ≤ b)

namespace World

/-- Destroys a result slot unless its thread waits. -/
def clearResult (w : World n) (r : Name) : World n :=
  match w.results r with
  | none => w
  | some s => (w.silently s.thread (.result r .drop)).1

def clearGuard (w : World n) (g : Name) : World n :=
  match w.guards g with
  | none => w
  | some s => (w.silently s.thread (.guard g .drop)).1

/-- Destroys all slots of threads that do not wait, results first. -/
def clearSlots (names : List Name) (w : World n) : World n :=
  names.foldl clearGuard (names.foldl clearResult w)

/-- Threads that go on fill slots and free more threads: once for each thread is enough. -/
def windDown (names : List Name) (w : World n) : World n :=
  Nat.repeat (clearSlots names) (n + 1) w

def isStuck (w : World n) : Bool :=
  (List.finRange n).any w.isWaiting

end World

/-- Numbers that stand for locks and threads in messages. -/
structure Numbering (n : Nat) where
  address : Name → String
  thread : Fin n → Nat

/-- What an event says to the log. -/
def Event.message? (s : Numbering n) : Event n → Option (Level × String)
  | .noticed m t x => some (x.message (s.address m) (s.thread t))
  | .said _ l body => some (l, body)
  | _ => none

/-- The log messages of a run, in order. -/
def World.messages (w : World n) (s : Numbering n) : List (Level × String) :=
  w.journal.reverse.filterMap (Event.message? s)

end Guarded

end CheckedLock
