import CheckedLock.Lock.Crew
import CheckedLock.Lock.Acquisition
import CheckedLock.Stress.Report
/-! Any number of workers that count rounds on one locked counter. In each round a worker takes the
lock, by waiting or by polling in turn, adds one, and tries to take the lock once more, which has
to be refused. Each step of a worker is atomic, and the workers may be interleaved in any way. -/
namespace CheckedLock
namespace Stress

/-- Where a worker stands. -/
inductive Place
  /-- before a round -/
  | looping
  | attempting
  /-- the lock was taken by another thread -/
  | refused
  /-- the attempt failed otherwise; `holds` if it took the lock all the same -/
  | surprised (holds : Bool)
  | loading
  | storing (seen : UInt64)
  | reentering
  /-- the second attempt was refused as it should be -/
  | rejected
  /-- in a release; `again` if a second one follows -/
  | leaving (again : Bool)
  | finished
  deriving DecidableEq, Repr

structure Worker where
  place : Place := .looping
  /-- rounds completed -/
  round : Nat := 0
  member : Member := {}
  deriving DecidableEq, Repr

/-- What all workers share; the thread `none` is the one that started them. -/
structure Ledger (n : Nat) where
  core : Core (Option (Fin n)) := {}
  counter : UInt64 := 0
  rejected : UInt64 := 0
  retries : UInt64 := 0
  unexpected : UInt64 := 0
  /-- the latest first -/
  notices : List (Fin n × Notice) := []

namespace Worker

variable {n : Nat}

/-- Rounds wait or poll by turns; neighbours begin differently. -/
def polls (t : Fin n) (round : Nat) : Bool := (round + t.val) % 2 ≠ 0

def start? (w : Worker) (r : Request) (next : Place) (s : Ledger n) : Option (Ledger n × Worker) :=
  (w.member.start? r).map fun m => (s, { w with member := m, place := next })

/-- A step of the call that the worker is in; `next` goes on from its answer. -/
def advance? (t : Fin n) (s : Ledger n) (w : Worker)
    (next : Answer → Ledger n → Worker → Option (Ledger n × Worker)) :
    Option (Ledger n × Worker) :=
  (w.member.advance? (some t) s.core).bind fun e =>
    let s := { s with
      core := e.core
      notices := (e.notice.map (t, ·)).toList ++ s.notices }
    let w := { w with member := e.member }
    match e.answer with
    | none => some (s, w)
    | some a => next a s w

def endRound (w : Worker) : Worker := { w with place := .looping, round := w.round + 1 }

/-- One step of worker `t`, which is to do `rounds` rounds; `none` while it has to wait or when it
has finished. -/
def step (rounds : Nat) (t : Fin n) (s : Ledger n) (w : Worker) : Option (Ledger n × Worker) :=
  match w.place with
  | .looping =>
    if w.round < rounds then w.start? (.acquire (polls t w.round)) .attempting s
    else some (s, { w with place := .finished })
  | .attempting => w.advance? t s fun
    | .verdict .acquired, s, w => some (s, { w with place := .loading })
    | .verdict .wouldBlock, s, w => some (s, { w with place := .refused })
    | .verdict v, s, w => some (s, { w with place := .surprised v.holds })
    | _, _, _ => none
  | .refused => w.start? (.acquire true) .attempting { s with retries := s.retries + 1 }
  | .surprised holds =>
    let s := { s with unexpected := s.unexpected + 1 }
    if holds then w.start? (.release false) (.leaving false) s else some (s, w.endRound)
  | .loading => some (s, { w with place := .storing s.counter })
  | .storing seen => w.start? (.acquire false) .reentering { s with counter := seen + 1 }
  | .reentering => w.advance? t s fun
    | .verdict .lockedByCurrentThread, s, w => some (s, { w with place := .rejected })
    | .verdict v, s, w => w.start? (.release false) (.leaving v.holds) s
    | _, _, _ => none
  | .rejected => w.start? (.release false) (.leaving false) { s with rejected := s.rejected + 1 }
  | .leaving again => w.advance? t s fun _ s w =>
    if again then w.start? (.release false) (.leaving false) s else some (s, w.endRound)
  | .finished => none

end Worker

structure Race (n : Nat) where
  ledger : Ledger n := {}
  workers : Fin n → Worker := fun _ => {}

namespace Race

variable {n : Nat}

def setWorker (r : Race n) (t : Fin n) (w : Worker) : Race n :=
  { r with workers := fun u => if u = t then w else r.workers u }

@[simp] theorem setWorker_self (r : Race n) (t : Fin n) (w : Worker) :
    (r.setWorker t w).workers t = w := by simp [setWorker]

theorem setWorker_ne (r : Race n) {t u : Fin n} (w : Worker) (h : u ≠ t) :
    (r.setWorker t w).workers u = r.workers u := by simp [setWorker, h]

/-- The lock and all its threads. -/
def crew (r : Race n) : Crew (Option (Fin n)) where
  core := r.ledger.core
  members
    | none => {}
    | some t => (r.workers t).member

def step (rounds : Nat) (r : Race n) (t : Fin n) : Option (Race n) :=
  (Worker.step rounds t r.ledger (r.workers t)).map fun p =>
    { r with ledger := p.1 }.setWorker t p.2

/-- States that some interleaving of the workers reaches. -/
inductive Reachable (rounds : Nat) : Race n → Prop
  | initial : Reachable rounds {}
  | step {r q : Race n} {t : Fin n} :
    Reachable rounds r → r.step rounds t = some q → Reachable rounds q

def isOver (r : Race n) : Bool :=
  (List.finRange n).all fun t => (r.workers t).place = .finished

/-- One worker alone, at most `fuel` steps. -/
def alone (rounds : Nat) (t : Fin n) : Nat → Ledger n → Worker → Ledger n × Worker
  | 0, s, w => (s, w)
  | fuel + 1, s, w => match Worker.step rounds t s w with
    | none => (s, w)
    | some (s, w) => alone rounds t fuel s w

/-- No round that a worker does alone has more steps. -/
def stepsPerRound : Nat := 16

/-- Worker `t` runs from where it stands to its end. -/
def finish (rounds : Nat) (r : Race n) (t : Fin n) : Race n :=
  let (s, w) := alone rounds t (stepsPerRound * rounds + 1) r.ledger (r.workers t)
  { r with ledger := s }.setWorker t w

/-- How the race ends if the workers run one after the other. -/
def outcome (n rounds : Nat) : Race n :=
  (List.finRange n).foldl (finish rounds) {}

/-- The value that the thread which started the workers takes out at the end. -/
def total (r : Race n) : Acquisition UInt64 :=
  match r.ledger.core.call none (.acquire false) with
  | .answered _ (.verdict v) _ => .ofVerdict v r.ledger.counter
  | _ => .failed .wouldBlock

def expected (n rounds : Nat) : UInt64 := UInt64.ofNat n * UInt64.ofNat rounds

def checks (rounds : Nat) (r : Race n) : List Check :=
  let sum := expected n rounds
  [⟨r.total.isOk && r.total.content.toOption = some sum,
      "counter equals threads x iterations (" ++ toString sum ++ ")"⟩,
    ⟨r.ledger.rejected = sum, "every in-guard re-entry was rejected"⟩,
    ⟨r.ledger.unexpected = 0, "no unexpected acquisition errors"⟩]

/-- The counter's lock is the fourth of the run, and the workers are its last threads. -/
def lockNumber : Nat := 3

def workerNumber (t : Fin n) : Nat := 5 + t.val

/-- `elapsed` is in milliseconds. -/
def report (rounds elapsed : Nat) (r : Race n) : Report :=
  .said .info ("Stress: " ++ toString n ++ " threads x " ++ toString rounds ++ " iterations") ::
    r.ledger.notices.reverse.map (fun x => .notice lockNumber (workerNumber x.1) x.2) ++
    (r.checks rounds).map .check ++
    [.said .info ("Stress done in " ++ toString elapsed ++ " ms (" ++
      toString r.ledger.retries ++ " WouldBlock retries)")]

end Race
end Stress
end CheckedLock
