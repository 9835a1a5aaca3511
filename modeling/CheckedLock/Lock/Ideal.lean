import CheckedLock.Lock.Crew
/-! A lock as one thing: who holds it and whether it is poisoned, changed in single steps. A call
has its effect in one of them, between its start and its answer. Only a release after a failure has
two, as others can see the mark before the lock is free. -/
namespace CheckedLock

structure Ideal (τ : Type) where
  holder : Option τ := none
  poisoned : Bool := false
  deriving DecidableEq, Repr

/-- What a call does to the lock, or learns about it, at one moment. -/
inductive Stroke
  | acquire (polling : Bool)
  | poison
  | vacate
  | owned
  | poisoned
  deriving DecidableEq, Repr

def Request.strokes : Request → List Stroke
  | .acquire polling => [.acquire polling]
  | .release unwinding => if unwinding then [.poison, .vacate] else [.vacate]
  | .owned => [.owned]
  | .poisoned => [.poisoned]

/-- A call under way: what is left to do, and the answer as far as it is known. -/
structure Errand where
  todo : List Stroke
  answer : Option Answer := none
  deriving DecidableEq, Repr

/-- What can be seen from outside: calls, answers, and that the lock changes hands. -/
inductive Happening (τ : Type)
  | called (t : τ) (r : Request)
  | took (t : τ)
  | left (t : τ)
  | answered (t : τ) (a : Answer)
  deriving DecidableEq, Repr

namespace Happening

variable {τ : Type}

/-- What is seen of a step, from who holds the lock before and after it. -/
def handover : Option τ → Option τ → List (Happening τ)
  | none, some t => [.took t]
  | some t, none => [.left t]
  | _, _ => []

@[simp] theorem handover_self (holder : Option τ) : handover holder holder = [] := by
  cases holder <;> rfl

end Happening

namespace Ideal

variable {τ : Type} [DecidableEq τ]

/-- A stroke of thread `t` and the answer it gives; `none` while it is not possible. Only the holder
marks a lock or gives it up. -/
def perform (t : τ) (i : Ideal τ) : Stroke → Option (Ideal τ × Option Answer)
  | .acquire polling => match i.holder with
    | none => some ({ i with holder := some t },
        some (.verdict (if i.poisoned then .acquiredPoisoned else .acquired)))
    | some u =>
      if u = t then some (i, some (.verdict .lockedByCurrentThread))
      else if polling then some (i, some (.verdict .wouldBlock)) else none
  | .poison => if i.holder = some t then some ({ i with poisoned := true }, none) else none
  | .vacate =>
    if i.holder = some t then some ({ i with holder := none }, some .released) else none
  | .owned => some (i, some (.flag (decide (i.holder = some t))))
  | .poisoned => some (i, some (.flag i.poisoned))

end Ideal

/-- Any number of threads around such a lock. -/
structure IdealCrew (τ : Type) where
  lock : Ideal τ := {}
  errands : τ → Option Errand := fun _ => none

namespace IdealCrew

variable {τ : Type} [DecidableEq τ]

def setErrand (s : IdealCrew τ) (t : τ) (e : Option Errand) : IdealCrew τ :=
  { s with errands := fun u => if u = t then e else s.errands u }

@[simp] theorem lock_setErrand (s : IdealCrew τ) (t : τ) (e : Option Errand) :
    (s.setErrand t e).lock = s.lock := rfl

@[simp] theorem setErrand_self (s : IdealCrew τ) (t : τ) (e : Option Errand) :
    (s.setErrand t e).errands t = e := by simp [setErrand]

@[simp] theorem setErrand_setErrand (s : IdealCrew τ) (t : τ) (d e : Option Errand) :
    (s.setErrand t d).setErrand t e = s.setErrand t e := by
  simp only [setErrand, mk.injEq, true_and]
  funext u
  split <;> rfl

theorem setErrand_eq_self {s : IdealCrew τ} {t : τ} {e : Option Errand} (h : s.errands t = e) :
    s.setErrand t e = s := by
  cases s
  simp only [setErrand, mk.injEq, true_and]
  funext u
  split
  · simp_all
  · rfl

/-- One step of one thread, and what is seen of it. -/
inductive Step : IdealCrew τ → List (Happening τ) → IdealCrew τ → Prop
  | call {s : IdealCrew τ} {t : τ} (r : Request) :
    s.errands t = none → Step s [.called t r] (s.setErrand t (some ⟨r.strokes, none⟩))
  | perform {s : IdealCrew τ} {t : τ} {x : Stroke} {todo : List Stroke} {a b : Option Answer}
    {lock : Ideal τ} :
    s.errands t = some ⟨x :: todo, a⟩ → s.lock.perform t x = some (lock, b) →
      Step s (Happening.handover s.lock.holder lock.holder)
        ({ s with lock := lock }.setErrand t (some ⟨todo, b⟩))
  | answer {s : IdealCrew τ} {t : τ} {a : Answer} :
    s.errands t = some ⟨[], some a⟩ → Step s [.answered t a] (s.setErrand t none)

/-- States that some run reaches, with what was seen of the run. -/
inductive Run : IdealCrew τ → List (Happening τ) → Prop
  | initial : Run {} []
  | step {s r : IdealCrew τ} {seen now : List (Happening τ)} :
    Run s seen → Step s now r → Run r (seen ++ now)

end IdealCrew

namespace Crew

variable {τ : Type} [DecidableEq τ]

/-- What is seen of an action; whoever is inside the primitive has the lock. -/
def happenings (s : Crew τ) (o : Observation τ) : Action τ → List (Happening τ)
  | .start t r => [.called t r]
  | .advance t => Happening.handover s.core.inside o.crew.core.inside ++
      (o.answer.map (.answered t)).toList

inductive Run : Crew τ → List (Happening τ) → Prop
  | initial : Run {} []
  | act {s : Crew τ} {a : Action τ} {o : Observation τ} {seen : List (Happening τ)} :
    Run s seen → s.act a = some o → Run o.crew (seen ++ s.happenings o a)

theorem Run.reachable {s : Crew τ} {seen : List (Happening τ)} (h : s.Run seen) :
    s.Reachable := by
  induction h with
  | initial => exact .initial
  | act _ ha ih => exact ih.act ha

end Crew
end CheckedLock
