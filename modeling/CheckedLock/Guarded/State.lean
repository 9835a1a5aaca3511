import CheckedLock.Lock.Acquisition
import CheckedLock.Lock.Payload
import CheckedLock.Logging.Level
/-! Values behind locks. A guard stands for a held lock and opens the way to the value; results and
guards live in named slots, each of which belongs to the thread that filled it. -/
namespace CheckedLock

namespace Guarded

abbrev Name := String

/-- A guard that was moved from or released has neither lock nor target. -/
structure Guard where
  lock : Option Name
  target : Option Name
  /-- exceptions in flight on the thread when the lock was acquired -/
  depth : Nat
  deriving DecidableEq, Repr

namespace Guard

def holding (m : Name) (depth : Nat) : Guard := ⟨some m, some m, depth⟩

/-- What is left of a guard when it is moved away or released. -/
def vacated (g : Guard) : Guard := ⟨none, none, g.depth⟩

def holds (g : Guard) : Bool := g.lock.isSome

/-- The mutex whose value the guard opens. -/
def access (g : Guard) : Except Misuse Name :=
  match g.target with
  | some m => .ok m
  | none => .error .accessWithoutLock

@[simp] theorem holds_holding (m : Name) (depth : Nat) : (holding m depth).holds = true := rfl
@[simp] theorem holds_vacated (g : Guard) : g.vacated.holds = false := rfl
@[simp] theorem depth_vacated (g : Guard) : g.vacated.depth = g.depth := rfl

end Guard

structure Mutex (n : Nat) where
  core : Core (Fin n)
  value : Payload
  deriving DecidableEq

structure Slot (n : Nat) (α : Type) where
  thread : Fin n
  held : α
  deriving DecidableEq

/-- What an acquisition is for. -/
inductive Purpose
  /-- to keep the guard in a result slot -/
  | keep (result : Name)
  /-- to move the value out -/
  | takeValue
  | encode
  | decode (document : Document)

/-- An acquisition that waits at the primitive. -/
structure Pending where
  mutex : Name
  purpose : Purpose
  point : Point

/-- An attempt that has its verdict, before anything is done about it. -/
structure Arrival where
  mutex : Name
  purpose : Purpose
  verdict : Verdict
  /-- exceptions in flight on the thread at the verdict -/
  depth : Nat

structure ThreadState where
  /-- exceptions that unwind the thread, the latest first -/
  inFlight : List Nat := []
  /-- exceptions thrown so far, which numbers them -/
  thrown : Nat := 0
  pending : Option Pending := none
  arrived : Option Arrival := none

/-- What happened to the locks. -/
inductive Event (n : Nat)
  /-- an attempt ended; with the exceptions in flight on its thread -/
  | attempted (m : Name) (t : Fin n) (v : Verdict) (inFlight : List Nat)
  | suspended (m : Name) (t : Fin n)
  | released (m : Name) (t : Fin n) (inFlight : List Nat)
  | noticed (m : Name) (t : Fin n) (x : Notice)
  /-- a message of the program itself -/
  | said (t : Fin n) (l : Level) (body : String)

structure World (n : Nat) where
  mutexes : Name → Option (Mutex n) := fun _ => none
  results : Name → Option (Slot n (Acquisition Guard)) := fun _ => none
  guards : Name → Option (Slot n Guard) := fun _ => none
  threads : Fin n → ThreadState := fun _ => {}
  /-- the latest event first -/
  journal : List (Event n) := []

namespace World

variable {n : Nat}

def setMutex (w : World n) (m : Name) (x : Mutex n) : World n :=
  { w with mutexes := fun k => if k = m then some x else w.mutexes k }

def setResult (w : World n) (r : Name) (x : Option (Slot n (Acquisition Guard))) : World n :=
  { w with results := fun k => if k = r then x else w.results k }

def setGuard (w : World n) (g : Name) (x : Option (Slot n Guard)) : World n :=
  { w with guards := fun k => if k = g then x else w.guards k }

def setThread (w : World n) (t : Fin n) (x : ThreadState) : World n :=
  { w with threads := fun u => if u = t then x else w.threads u }

def note (w : World n) (e : Event n) : World n := { w with journal := e :: w.journal }

def noteAll (w : World n) (m : Name) (t : Fin n) (seen : List Notice) : World n :=
  seen.foldl (fun w x => w.note (.noticed m t x)) w

@[simp] theorem setMutex_self (w : World n) (m : Name) (x : Mutex n) :
    (w.setMutex m x).mutexes m = some x := by simp [setMutex]

theorem setMutex_ne (w : World n) {k m : Name} (x : Mutex n) (h : k ≠ m) :
    (w.setMutex m x).mutexes k = w.mutexes k := by simp [setMutex, h]

@[simp] theorem setResult_self (w : World n) (r : Name) (x : Option (Slot n (Acquisition Guard))) :
    (w.setResult r x).results r = x := by simp [setResult]

theorem setResult_ne (w : World n) {k r : Name} (x : Option (Slot n (Acquisition Guard)))
    (h : k ≠ r) : (w.setResult r x).results k = w.results k := by simp [setResult, h]

@[simp] theorem setGuard_self (w : World n) (g : Name) (x : Option (Slot n Guard)) :
    (w.setGuard g x).guards g = x := by simp [setGuard]

theorem setGuard_ne (w : World n) {k g : Name} (x : Option (Slot n Guard)) (h : k ≠ g) :
    (w.setGuard g x).guards k = w.guards k := by simp [setGuard, h]

@[simp] theorem setThread_self (w : World n) (t : Fin n) (x : ThreadState) :
    (w.setThread t x).threads t = x := by simp [setThread]

theorem setThread_ne (w : World n) {t u : Fin n} (x : ThreadState) (h : u ≠ t) :
    (w.setThread t x).threads u = w.threads u := by simp [setThread, h]

/-- Exceptions in flight on a thread. -/
def inFlight (w : World n) (t : Fin n) : List Nat := (w.threads t).inFlight

def depth (w : World n) (t : Fin n) : Nat := (w.inFlight t).length

def isWaiting (w : World n) (t : Fin n) : Bool := (w.threads t).pending.isSome

/-- An exception begins to unwind the thread. -/
def throw (w : World n) (t : Fin n) : World n :=
  let x := w.threads t
  w.setThread t { x with inFlight := x.thrown :: x.inFlight, thrown := x.thrown + 1 }

/-- The latest exception is caught. -/
def catch_ (w : World n) (t : Fin n) : World n :=
  let x := w.threads t
  w.setThread t { x with inFlight := x.inFlight.tail }

/-- A release counts as unwinding if more exceptions are in flight than at the acquisition. -/
def unwinds (w : World n) (t : Fin n) (g : Guard) : Bool := decide (g.depth < w.depth t)

/-- Thread `t` gives up what the guard holds. -/
def release (w : World n) (t : Fin n) (g : Guard) : World n :=
  match g.lock with
  | none => w
  | some m => match w.mutexes m with
    | none => w
    | some x => match x.core.call t (.release (w.unwinds t g)) with
      | .answered core _ seen =>
        ((w.setMutex m { x with core := core }).noteAll m t seen).note
          (.released m t (w.inFlight t))
      | .waiting _ _ _ => w

/-- Destroys what a result holds. -/
def releaseResult (w : World n) (t : Fin n) (a : Acquisition Guard) : World n :=
  match a.inner with
  | .ok g => w.release t g
  | .failure _ _ => w

end World
end Guarded
end CheckedLock
