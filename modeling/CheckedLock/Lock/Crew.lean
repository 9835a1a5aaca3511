import CheckedLock.Lock.Core
/-! Any number of threads around one lock. A run is any order of their actions: a thread at rest
starts a call, a thread inside a call takes the next step of it. Only a thread that has acquired
the lock, and not released it since, starts a release. -/
namespace CheckedLock

inductive Stage
  | resting
  | calling (r : Request) (p : Point)
  deriving DecidableEq, Repr

/-- One thread, as far as the lock is concerned. -/
structure Member where
  stage : Stage := .resting
  /-- whether the thread has acquired the lock and not begun to release it -/
  holding : Bool := false
  deriving DecidableEq, Repr

/-- What a step of a thread's call comes to. -/
structure Effect (τ : Type) where
  core : Core τ
  member : Member
  answer : Option Answer := none
  notice : Option Notice := none
  deriving DecidableEq, Repr

namespace Member

/-- The call ends with the given answer. -/
def finish (m : Member) : Answer → Member
  | .verdict v => { stage := .resting, holding := m.holding || v.holds }
  | _ => { m with stage := .resting }

def mayStart (m : Member) : Request → Bool
  | .release _ => m.holding
  | _ => true

def begun (m : Member) : Request → Member
  | .release unwinding =>
    { stage := .calling (.release unwinding) (.judging unwinding), holding := false }
  | r => { m with stage := .calling r r.entry }

/-- A call begins, if the thread is at rest and may make it. -/
def start? (m : Member) (r : Request) : Option Member :=
  match m.stage with
  | .resting => if m.mayStart r then some (m.begun r) else none
  | .calling _ _ => none

/-- The next step of the call that thread `t` is in. -/
def advance? {τ : Type} [DecidableEq τ] (m : Member) (t : τ) (c : Core τ) : Option (Effect τ) :=
  match m.stage with
  | .resting => none
  | .calling r p => (c.step t p).map fun x => match x.progress with
    | .next q => { core := x.core, member := { m with stage := .calling r q }, notice := x.notice }
    | .answer a => { core := x.core, member := m.finish a, answer := some a, notice := x.notice }

end Member

structure Crew (τ : Type) where
  core : Core τ := {}
  members : τ → Member := fun _ => {}

inductive Action (τ : Type)
  | start (t : τ) (r : Request)
  | advance (t : τ)
  deriving DecidableEq, Repr

/-- What an observer of a thread sees of an action. -/
structure Observation (τ : Type) where
  crew : Crew τ
  answer : Option Answer := none
  notice : Option Notice := none

namespace Crew

variable {τ : Type} [DecidableEq τ]

def setMember (s : Crew τ) (t : τ) (m : Member) : Crew τ :=
  { s with members := fun u => if u = t then m else s.members u }

@[simp] theorem core_setMember (s : Crew τ) (t : τ) (m : Member) :
    (s.setMember t m).core = s.core := rfl

@[simp] theorem setMember_self (s : Crew τ) (t : τ) (m : Member) :
    (s.setMember t m).members t = m := by simp [setMember]

theorem setMember_ne (s : Crew τ) {t u : τ} (m : Member) (h : u ≠ t) :
    (s.setMember t m).members u = s.members u := by simp [setMember, h]

/-- `none` if the action is not possible now. -/
def act (s : Crew τ) : Action τ → Option (Observation τ)
  | .start t r => ((s.members t).start? r).map fun m => { crew := s.setMember t m }
  | .advance t => ((s.members t).advance? t s.core).map fun e =>
      { crew := { s with core := e.core }.setMember t e.member, answer := e.answer,
        notice := e.notice }

/-- States that some run reaches. -/
inductive Reachable : Crew τ → Prop
  | initial : Reachable {}
  | act {s : Crew τ} {a : Action τ} {r : Observation τ} :
    Reachable s → s.act a = some r → Reachable r.crew

/-- Thread `t` alone goes on until its call ends or has to wait. -/
def advances (t : τ) : Nat → Crew τ → List Notice → Crew τ × Option Answer × List Notice
  | 0, s, seen => (s, none, seen)
  | fuel + 1, s, seen => match s.act (.advance t) with
    | none => (s, none, seen)
    | some r => match r.answer with
      | some a => (r.crew, some a, seen ++ r.notice.toList)
      | none => advances t fuel r.crew (seen ++ r.notice.toList)

/-- A call of `t` from its start; `none` if it may not be started. -/
def call (s : Crew τ) (t : τ) (r : Request) : Option (Crew τ × Option Answer × List Notice) :=
  (s.act (.start t r)).map fun x => advances t Core.callSteps x.crew []

end Crew
end CheckedLock
