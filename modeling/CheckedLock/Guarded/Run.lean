import CheckedLock.Guarded.Op
/-! Runs of several threads. A thread at rest begins an operation, a thread that waits takes its
mutex once it is free, and a thread with a verdict acts on it; the threads do so in any order. A
slot is used by the thread that filled it, and a name stands for one mutex. -/
namespace CheckedLock
namespace Guarded

variable {n : Nat}

inductive Turn (n : Nat)
  | start (t : Fin n) (o : Op)
  | wake (t : Fin n)
  | finish (t : Fin n)

def Turn.thread : Turn n → Fin n
  | .start t _ | .wake t | .finish t => t

def Purpose.slot? : Purpose → Option Name
  | .keep r => some r
  | .takeValue | .encode | .decode _ => none

/-- The result slot that the thread is about to fill. -/
def ThreadState.target? (x : ThreadState) : Option Name :=
  match x.pending, x.arrived with
  | some p, _ => p.purpose.slot?
  | none, some a => a.purpose.slot?
  | none, none => none

/-- A slot that is free or that thread `t` has filled. -/
def Mine {α : Type} (t : Fin n) (s : Option (Slot n α)) : Prop := ∀ x ∈ s, x.thread = t

namespace World

def isResting (w : World n) (t : Fin n) : Bool :=
  (w.threads t).pending.isNone && (w.threads t).arrived.isNone

/-- What is left of the world after a turn, with the answer of the operation that it completes;
`none` if it is not the time for it, or if it ends the process. -/
def turn (w : World n) : Turn n → Option (World n × Option Reply)
  | .start t o => if w.isResting t then (w.start t o).toOption else none
  | .wake t => (w.wake? t).map (·, none)
  | .finish t =>
    if (w.threads t).arrived.isSome then some ((w.finish t).1, some (w.finish t).2) else none

/-- What thread `t` may do. A slot that another thread is about to fill is not free. -/
def Permits (w : World n) (t : Fin n) : Op → Prop
  | .mutex m (.create _) => w.mutexes m = none
  | .mutex _ (.lock r) | .mutex _ (.tryLock r) =>
    Mine t (w.results r) ∧ ∀ u, (w.threads u).target? ≠ some r
  | .mutex _ _ => True
  | .result r (.content g) | .result r (.intoValue g) => Mine t (w.results r) ∧ Mine t (w.guards g)
  | .result r _ => Mine t (w.results r)
  | .guard g (.move dest) | .guard g (.swap dest) => Mine t (w.guards g) ∧ Mine t (w.guards dest)
  | .guard g _ => Mine t (w.guards g)
  | .throw | .catch_ => True

def Allows (w : World n) : Turn n → Prop
  | .start t o => w.Permits t o
  | .wake _ | .finish _ => True

/-- The worlds of all runs. -/
inductive Reachable : World n → Prop
  | initial : Reachable {}
  | turn {w v : World n} {x : Turn n} {reply : Option Reply} :
    Reachable w → w.Allows x → w.turn x = some (v, reply) → Reachable v

end World
end Guarded
end CheckedLock
