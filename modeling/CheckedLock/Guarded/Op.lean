import CheckedLock.Guarded.Acquire
import CheckedLock.Text.Column
/-! What one thread can do with mutexes, results and guards. -/
namespace CheckedLock
namespace Guarded

inductive MutexOp
  | create (value : Payload)
  | lock (r : Name)
  | tryLock (r : Name)
  | lockedByMe
  | isPoisoned
  | intoInner
  | toJson
  | fromJson (document : Document)

inductive ResultOp
  | status
  | error
  | read
  | write (value : Payload)
  /-- the clean payload into a guard slot -/
  | content (g : Name)
  /-- the payload, poisoned or not, into a guard slot -/
  | intoValue (g : Name)
  | ignorePoison
  | panicIfPoison
  | apply (policy : Option PoisonPolicy)
  | drop

inductive GuardOp
  | holds
  | release
  | read
  | size
  | write (value : Payload)
  | format (width : Nat)
  | log
  | panic
  | move (dest : Name)
  | swap (dest : Name)
  | drop

inductive Op
  | mutex (m : Name) (o : MutexOp)
  | result (r : Name) (o : ResultOp)
  | guard (g : Name) (o : GuardOp)
  /-- an exception begins to unwind the thread -/
  | throw
  /-- the latest exception ends -/
  | catch_

namespace World

variable {n : Nat}

/-- What is done to a slot is done by the thread that filled it. -/
def owner? (w : World n) : Op → Option (Fin n)
  | .result r _ => (w.results r).map (·.thread)
  | .guard g _ => (w.guards g).map (·.thread)
  | _ => none

/-- A question to the core of a mutex, which changes nothing. -/
def ask (w : World n) (t : Fin n) (m : Name) (r : Request) : Reply :=
  match w.mutexes m with
  | none => .refused
  | some x => match x.core.call t r with
    | .answered _ (.flag b) _ => .flag b
    | _ => .refused

/-- There is no answer yet if the operation acquires the mutex first. -/
def onMutex (w : World n) (t : Fin n) (m : Name) : MutexOp → World n × Option Reply
  | .create value => (w.setMutex m ⟨{}, value⟩, some .done)
  | .lock r => w.enter t m false (.keep r)
  | .tryLock r => w.enter t m true (.keep r)
  | .lockedByMe => (w, some (w.ask t m .owned))
  | .isPoisoned => (w, some (w.ask t m .poisoned))
  | .intoInner => w.enter t m false .takeValue
  | .toJson => w.enter t m false .encode
  | .fromJson d => w.enter t m false (.decode d)

/-- The value behind a guard. -/
def valueOf (w : World n) (g : Guard) : Except Misuse Payload :=
  match g.access with
  | .error e => .error e
  | .ok m => match w.mutexes m with
    | some x => .ok x.value
    | none => .error .accessWithoutLock

/-- Writes through a guard. -/
def writeThrough (w : World n) (g : Guard) (value : Payload) : World n × Reply :=
  match g.access with
  | .error e => (w, .misuse e)
  | .ok m => match w.mutexes m with
    | some x => (w.setMutex m { x with value := value }, .done)
    | none => (w, .misuse .accessWithoutLock)

/-- Puts a guard into a slot; what the slot held is released first. -/
def storeGuard (w : World n) (t : Fin n) (g : Name) (x : Guard) : World n :=
  (match w.guards g with
    | none => w
    | some old => w.release t old.held).setGuard g (some ⟨t, x⟩)

/-- Moves the guard of a slot away; the slot keeps what is left of it. -/
def takeGuard (w : World n) (g : Name) (s : Slot n Guard) : World n :=
  w.setGuard g (some { s with held := s.held.vacated })

/-- Moves a guard into another slot; onto itself it stays. -/
def moveGuard (w : World n) (g dest : Name) (s : Slot n Guard) : World n :=
  if g = dest then w else (w.takeGuard g s).storeGuard s.thread dest s.held

/-- Three moves by way of a temporary. -/
def swapGuards (w : World n) (g dest : Name) (s : Slot n Guard) : World n :=
  let w := w.takeGuard g s
  let w := match w.guards dest with
    | none => w
    | some other => w.moveGuard dest g other
  w.storeGuard s.thread dest s.held

/-- Moves the guard out of a result that gives it, into a guard slot. -/
def unpack (w : World n) (r g : Name) (s : Slot n (Acquisition Guard)) :
    Except Misuse Guard → World n × Reply
  | .error e => (w, .misuse e)
  | .ok x =>
    let left := { s with held := s.held.mapValue Guard.vacated }
    ((w.setResult r (some left)).storeGuard s.thread g x, .flag x.holds)

/-- Puts a changed result back into its slot. -/
def putBack (w : World n) (r : Name) (s : Slot n (Acquisition Guard)) (a : Acquisition Guard) :
    World n × Reply :=
  (w.setResult r (some { s with held := a }), .status a.status)

/-- Destroys a result slot and gives up what it holds. -/
def discardResult (w : World n) (r : Name) (s : Slot n (Acquisition Guard)) : World n :=
  (w.releaseResult s.thread s.held).setResult r none

/-- Destroys a guard slot and gives up what it holds. -/
def discardGuard (w : World n) (g : Name) (s : Slot n Guard) : World n :=
  (w.release s.thread s.held).setGuard g none

def replyOf {α : Type} (f : α → Reply) : Except Misuse α → Reply
  | .ok a => f a
  | .error m => .misuse m

def onResult (w : World n) (r : Name) (s : Slot n (Acquisition Guard)) :
    ResultOp → Except Panic (World n × Reply)
  | .status => .ok (w, .status s.held.status)
  | .error => .ok (w, replyOf .error s.held.error)
  | .read => .ok (w, replyOf .value (s.held.content.bind w.valueOf))
  | .write value => .ok (match s.held.content with
    | .error m => (w, .misuse m)
    | .ok g => w.writeThrough g value)
  | .content g => .ok (w.unpack r g s s.held.content)
  | .intoValue g => .ok (w.unpack r g s s.held.intoValue)
  | .ignorePoison => .ok (w.putBack r s s.held.ignorePoison)
  | .panicIfPoison => s.held.panicIfPoison.map (w.putBack r s)
  | .apply policy => (s.held.apply policy).map (w.putBack r s)
  | .drop => .ok (w.discardResult r s, .done)

/-- The text of a guard's value, for messages. -/
def display (w : World n) (g : Guard) : Except Misuse String :=
  (w.valueOf g).map fun p => p.display?.getD ""

def guardMessage (shown : String) : String := "guard=" ++ shown

/-- A log message whose text cannot be put together says why. -/
def loggedMessage : Except Misuse String → String
  | .ok shown => guardMessage shown
  | .error m => "[FORMAT ERROR] " ++ m.message

def panicMessage : Except Misuse String → Panic
  | .ok shown => .byCaller (guardMessage shown)
  | .error m => .unformattable m

/-- Whether the guard of a slot holds a lock. -/
def slotHolds (w : World n) (g : Name) : Bool :=
  match w.guards g with
  | none => false
  | some s => s.held.holds

def onGuard (w : World n) (g : Name) (s : Slot n Guard) :
    GuardOp → Except Panic (World n × Reply)
  | .holds => .ok (w, .flag s.held.holds)
  | .release => .ok ((w.release s.thread s.held).takeGuard g s, .flag s.held.holds)
  | .read => .ok (w, replyOf .value (w.valueOf s.held))
  | .size => .ok (w, replyOf (.size ·.size) (w.valueOf s.held))
  | .write value => .ok (w.writeThrough s.held value)
  | .format width => .ok (w, replyOf (.text <| Column.right width ·) (w.display s.held))
  | .log => .ok (w.note (.said s.thread .info (loggedMessage (w.display s.held))), .done)
  | .panic => .error (panicMessage (w.display s.held))
  | .move dest =>
    let v := w.moveGuard g dest s
    .ok (v, .moved (v.slotHolds g) (v.slotHolds dest))
  | .swap dest => .ok (match w.guards dest with
    | none => (w, .refused)
    | some _ => (w.swapGuards g dest s, .done))
  | .drop => .ok (w.discardGuard g s, .done)

/-- The first step of an operation of thread `t`; it is the only one if it answers. -/
def start (w : World n) (t : Fin n) : Op → Except Panic (World n × Option Reply)
  | .mutex m o => .ok (w.onMutex t m o)
  | .result r o => match w.results r with
    | none => .ok (w, some .refused)
    | some s => (w.onResult r s o).map fun (v, reply) => (v, some reply)
  | .guard g o => match w.guards g with
    | none => .ok (w, some .refused)
    | some s => (w.onGuard g s o).map fun (v, reply) => (v, some reply)
  | .throw => .ok (w.throw t, some .done)
  | .catch_ => .ok (w.catch_ t, some .done)

/-- One operation of thread `t`, as far as it gets without the other threads. -/
def perform (w : World n) (t : Fin n) (o : Op) : Except Panic (World n × Reply) :=
  (w.start t o).map fun (v, reply) => match reply with
    | some reply => (v, reply)
    | none => v.finish t

/-- One operation of a thread that does not wait; then those that can go on do. -/
def step (w : World n) (t : Fin n) (o : Op) :
    Except Panic (World n × Reply × List (Fin n × Reply)) :=
  if w.isWaiting t then .ok (w, .refused, [])
  else (w.perform t o).map fun (v, reply) =>
    let (v, woken) := v.settle n
    (v, reply, woken)

end World
end Guarded
end CheckedLock
