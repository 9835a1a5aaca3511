import CheckedLock.Lock.Crew
import CheckedLock.Lock.Notice
/-! Scripts over bare locks: threads call one after the other, and a thread that has to wait goes on
as soon as its lock is free. -/
namespace CheckedLock
namespace Bench

variable {n : Nat}

/-- Locks by name; each comes into being when it is first used. -/
structure State (n : Nat) where
  locks : String → Crew (Fin n)
  /-- lock, thread and notice, the latest first -/
  notices : List (String × Fin n × Notice)

def State.initial : State n := ⟨fun _ => {}, []⟩

structure Step (n : Nat) where
  lock : String
  thread : Fin n
  request : Request

inductive Reply (n : Nat)
  | refused
  | blocked
  /-- the answer, and the thread that went on because of it -/
  | answered (a : Answer) (next : Option (Fin n × Answer))

def State.set (s : State n) (name : String) (c : Crew (Fin n)) (t : Fin n) (seen : List Notice) :
    State n where
  locks := fun other => if other = name then c else s.locks other
  notices := (seen.map fun x => (name, t, x)).reverse ++ s.notices

/-- The first thread, by number, that can finish the call it waits in. -/
def nextWaiter? (c : Crew (Fin n)) : Option (Fin n × Crew (Fin n) × Answer × List Notice) :=
  (List.finRange n).findSome? fun t => match (c.members t).stage with
    | .resting => none
    | .calling _ _ => match c.advances t Core.callSteps [] with
      | (d, some a, seen) => some (t, d, a, seen)
      | _ => none

def State.perform (s : State n) (x : Step n) : State n × Reply n :=
  match (s.locks x.lock).call x.thread x.request with
  | none => (s, .refused)
  | some (c, none, seen) => (s.set x.lock c x.thread seen, .blocked)
  | some (c, some a, seen) =>
    let s := s.set x.lock c x.thread seen
    match nextWaiter? c with
    | none => (s, .answered a none)
    | some (t, d, b, seen) => (s.set x.lock d t seen, .answered a (some (t, b)))

def State.run (s : State n) : List (Step n) → State n × List (Reply n)
  | [] => (s, [])
  | x :: xs =>
    let (s, reply) := s.perform x
    let (s, replies) := State.run s xs
    (s, reply :: replies)

/-- The log messages of a run, in order. -/
def State.messages (s : State n) (address : String → String) (number : Fin n → Nat) :
    List (Level × String) :=
  s.notices.reverse.map fun (name, t, x) => x.message (address name) (number t)

end Bench
end CheckedLock
