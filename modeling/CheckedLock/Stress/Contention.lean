import CheckedLock.Lock.Crew
import CheckedLock.Lock.Acquisition
import CheckedLock.Stress.Report
/-! Two threads and one lock: a holder takes the lock and lets a rival try it, wait for it and at
last have it. Each step of either thread is atomic, and the two may be interleaved in any way. -/
namespace CheckedLock
namespace Stress

inductive Party
  | holder | rival
  deriving DecidableEq, Repr

namespace Party

/-- The rival is the first thread that the tool starts, after the two of the logger. -/
def number : Party → Nat
  | .holder => 0
  | .rival => 3

end Party

inductive HolderPlace
  | starting
  | acquiring
  /-- until the rival has tried -/
  | awaitingTry
  /-- until the rival says that it goes to wait -/
  | awaitingWord
  | watching
  /-- in a release; `joins` if the rival was started -/
  | releasing (joins : Bool)
  | joining
  | done
  deriving DecidableEq, Repr

/-- `kept`: the first attempt took the lock and gives it back at the end. -/
inductive RivalPlace
  | unborn
  | starting
  | trying
  | noting (v : Verdict)
  | signalling (kept : Bool)
  | announcing (kept : Bool)
  | locking (kept : Bool)
  | reading (kept : Bool)
  | confirming (kept : Bool)
  | releasing (kept : Bool)
  | done
  deriving DecidableEq, Repr

structure Contention where
  core : Core Party := {}
  value : String := "x"
  holder : HolderPlace := .starting
  rival : RivalPlace := .unborn
  members : Party → Member := fun _ => {}
  /-- set by the rival, in this order -/
  wouldBlock : Bool := false
  tried : Bool := false
  announced : Bool := false
  read : String := ""
  acquired : Bool := false
  /-- the latest remark first -/
  remarks : List Remark := []

namespace Contention

/-- The lock of this scenario is the second of the run. -/
def lockNumber : Nat := 1

/-- The lock and its two threads. -/
def crew (s : Contention) : Crew Party := ⟨s.core, s.members⟩

def setMember (s : Contention) (p : Party) (m : Member) : Contention :=
  { s with members := fun q => if q = p then m else s.members q }

def remark (s : Contention) (r : Remark) : Contention := { s with remarks := r :: s.remarks }

def check (s : Contention) (ok : Bool) (what : String) : Contention := s.remark (.check ⟨ok, what⟩)

/-- `p` begins a call. -/
def start? (s : Contention) (p : Party) (r : Request) : Option Contention :=
  ((s.members p).start? r).map (s.setMember p)

/-- `p` takes a step of its call; the call's answer, if it is over. -/
def advance? (s : Contention) (p : Party) : Option (Contention × Option Answer) :=
  ((s.members p).advance? p s.core).map fun e =>
    let s := { s.setMember p e.member with core := e.core }
    (match e.notice with
      | none => s
      | some x => s.remark (.notice lockNumber p.number x), e.answer)

/-- The verdict counts as an acquisition that is ok. -/
def clean (v : Verdict) : Bool := (Acquisition.ofVerdict v ()).isOk

/-- The holder goes on after its attempt. -/
def judged (s : Contention) (v : Verdict) : Option Contention :=
  if clean v then some { s with holder := .awaitingTry, rival := .starting }
  else
    let s := s.check false "thread A acquires"
    if v.holds then ({ s with holder := .releasing false }).start? .holder (.release false)
    else some { s with holder := .done }

def holderStep (s : Contention) : Option Contention :=
  match s.holder with
  | .starting => ({ s with holder := .acquiring }).start? .holder (.acquire false)
  | .acquiring => (s.advance? .holder).bind fun (s, a) => match a with
    | some (.verdict v) => s.judged v
    | _ => some s
  | .awaitingTry =>
    if s.tried then some ({ s with holder := .awaitingWord }.check s.wouldBlock
      "try_lock() from thread B reports WouldBlock")
    else none
  | .awaitingWord => if s.announced then some { s with holder := .watching } else none
  | .watching => ({ s with holder := .releasing true }.check (!s.acquired)
      "thread B's lock() is suspended while A holds the lock").start? .holder (.release false)
  | .releasing joins => (s.advance? .holder).map fun (s, a) => match a with
    | some _ => { s with holder := if joins then .joining else .done }
    | none => s
  | .joining => match s.rival with
    | .done => some ({ s with holder := .done }.check (s.acquired && s.read = "x")
        "thread B acquires after A releases, reads \"x\"")
    | _ => none
  | .done => none

/-- The rival goes on after its second attempt. -/
def settled (s : Contention) (kept : Bool) (v : Verdict) : Option Contention :=
  if clean v then some { s with rival := .reading kept }
  else if v.holds then ({ s with rival := .releasing kept }).start? .rival (.release false)
  else if kept then ({ s with rival := .releasing false }).start? .rival (.release false)
  else some { s with rival := .done }

def rivalStep (s : Contention) : Option Contention :=
  match s.rival with
  | .unborn => none
  | .starting => ({ s with rival := .trying }).start? .rival (.acquire true)
  | .trying => (s.advance? .rival).map fun (s, a) => match a with
    | some (.verdict v) => { s with rival := .noting v }
    | _ => s
  | .noting v => some { s with
      rival := .signalling v.holds
      wouldBlock := (Acquisition.ofVerdict v ()).error.toOption = some .wouldBlock }
  | .signalling kept => some { s with rival := .announcing kept, tried := true }
  | .announcing kept =>
    ({ s with rival := .locking kept, announced := true }).start? .rival (.acquire false)
  | .locking kept => (s.advance? .rival).bind fun (s, a) => match a with
    | some (.verdict v) => s.settled kept v
    | _ => some s
  | .reading kept => some { s with rival := .confirming kept, read := s.value }
  | .confirming kept =>
    ({ s with rival := .releasing kept, acquired := true }).start? .rival (.release false)
  | .releasing kept => (s.advance? .rival).bind fun (s, a) => match a with
    | none => some s
    | some _ =>
      if kept then ({ s with rival := .releasing false }).start? .rival (.release false)
      else some { s with rival := .done }
  | .done => none

def step (s : Contention) : Party → Option Contention
  | .holder => s.holderStep
  | .rival => s.rivalStep

/-- States that some interleaving of the two threads reaches. -/
inductive Reachable : Contention → Prop
  | initial : Reachable {}
  | step {s t : Contention} {p : Party} : Reachable s → s.step p = some t → Reachable t

def isOver (s : Contention) : Bool := s.holder = .done

/-- The rival runs whenever it can; at most `fuel` steps. -/
def run : Nat → Contention → Contention
  | 0, s => s
  | fuel + 1, s => match s.rivalStep with
    | some t => run fuel t
    | none => match s.holderStep with
      | some t => run fuel t
      | none => s

/-- More than all steps of both threads. -/
def steps : Nat := 64

/-- How the scenario ends if the holder always gives the rival time to go as far as it can. -/
def outcome : Contention := run steps {}

def report (s : Contention) : Report :=
  .said .info "Scenario 2: cross-thread contention" :: s.remarks.reverse

end Contention
end Stress
end CheckedLock
