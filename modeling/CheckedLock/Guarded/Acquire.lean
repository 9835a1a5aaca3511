import CheckedLock.Guarded.State
/-! Acquiring a lock for a purpose, waiting for it, and going on once it is free. An acquisition has
two steps, the attempt and what is done about its verdict; other threads may act in between. -/
namespace CheckedLock
namespace Guarded

/-- Which conversion was asked for by a thread that holds the mutex already. -/
inductive Conversion
  | toJson | fromJson
  deriving DecidableEq, Repr

def Conversion.message (c : Conversion) (e : LockError) : String :=
  (match c with
    | .toJson => "to_json"
    | .fromJson => "from_json") ++ "(ThreadCheckedMutex): lock failed: " ++ e.name

/-- What an operation answers. -/
inductive Reply
  | done
  | flag (b : Bool)
  | status (s : Acquisition.Status)
  /-- status of a value moved out, and the value if there is one -/
  | taken (s : Acquisition.Status) (value : Option Payload)
  | value (p : Payload)
  | document (j : Json)
  | size (k : Nat)
  | text (s : String)
  | error (e : LockError)
  /-- whether the source and the target of a move hold a lock afterwards -/
  | moved (source target : Bool)
  | misuse (m : Misuse)
  | reentry (c : Conversion) (e : LockError)
  /-- the document does not have the shape of the value -/
  | misshapen
  | blocked
  /-- no such slot or mutex, or its thread waits -/
  | refused

namespace World

variable {n : Nat}

/-- Puts a result into a slot; what the slot held is given up first. -/
def storeResult (w : World n) (t : Fin n) (r : Name) (a : Acquisition Guard) : World n :=
  (match w.results r with
    | none => w
    | some old => w.releaseResult t old.held).setResult r (some ⟨t, a⟩)

/-- Reads a document into a mutex that `t` holds by `g`. A misshapen document leaves by an
exception, through the guard. -/
def decodeInto (w : World n) (t : Fin n) (m : Name) (x : Mutex n) (g : Guard) (d : Document) :
    World n × Reply :=
  match d.read? x.value.kind with
  | some value => ((w.setMutex m { x with value := value }).release t g, .done)
  | none => (((w.throw t).release t g).catch_ t, .misshapen)

/-- Does what an attempt was made for; `x` is its mutex. -/
def conclude (w : World n) (t : Fin n) (x : Mutex n) (a : Arrival) : World n × Reply :=
  let g := Guard.holding a.mutex a.depth
  match a.purpose with
  | .keep r =>
    let result := Acquisition.ofVerdict a.verdict g
    (w.storeResult t r result, .status result.status)
  | .takeValue =>
    let status := (Acquisition.ofVerdict a.verdict ()).status
    if a.verdict.holds then
      ((w.setMutex a.mutex { x with value := x.value.husk }).release t g,
        .taken status (some x.value))
    else (w, .taken status none)
  | .encode =>
    if a.verdict.holds then (w.release t g, .document x.value.toJson)
    else (w, .reentry .toJson a.verdict.error)
  | .decode d =>
    if a.verdict.holds then w.decodeInto t a.mutex x g d
    else (w, .reentry .fromJson a.verdict.error)

/-- What a call of the core of `m` came to: the verdict is there, or the thread waits. -/
def arrive (w : World n) (t : Fin n) (m : Name) (x : Mutex n) (p : Purpose) :
    Core.Course (Fin n) → World n
  | .answered core (.verdict v) seen =>
    let w := ((w.setMutex m { x with core := core }).noteAll m t seen).note
      (.attempted m t v (w.inFlight t))
    w.setThread t { w.threads t with arrived := some ⟨m, p, v, w.depth t⟩ }
  | .answered _ _ _ => w
  | .waiting core point seen =>
    let w := ((w.setMutex m { x with core := core }).noteAll m t seen).note (.suspended m t)
    w.setThread t { w.threads t with pending := some ⟨m, p, point⟩ }

/-- The first step of an acquisition: the attempt itself. -/
def enter (w : World n) (t : Fin n) (m : Name) (polling : Bool) (p : Purpose) :
    World n × Option Reply :=
  match w.mutexes m with
  | none => (w, some .refused)
  | some x => (w.arrive t m x p (x.core.call t (.acquire polling)), none)

/-- The step of a waiting thread that takes the free mutex. -/
def wake? (w : World n) (t : Fin n) : Option (World n) :=
  match (w.threads t).pending with
  | none => none
  | some p => match w.mutexes p.mutex with
    | none => none
    | some x => match x.core.resume t p.point with
      | .waiting _ _ _ => none
      | .answered core a seen =>
        some ((w.setThread t { w.threads t with pending := none }).arrive t p.mutex x p.purpose
          (.answered core a seen))

/-- The last step of an acquisition; a thread without a verdict waits. -/
def finish (w : World n) (t : Fin n) : World n × Reply :=
  match (w.threads t).arrived with
  | none => (w, .blocked)
  | some a => match w.mutexes a.mutex with
    | none => (w, .refused)
    | some x => (w.setThread t { w.threads t with arrived := none }).conclude t x a

/-- A waiting thread goes on, if it can. -/
def resume? (w : World n) (t : Fin n) : Option (World n × Reply) :=
  (w.wake? t).map (·.finish t)

/-- The first thread, by number, that can go on. -/
def resumeFirst? (w : World n) : Option (World n × Fin n × Reply) :=
  (List.finRange n).findSome? fun t => (w.resume? t).map fun (v, reply) => (v, t, reply)

/-- Waiting threads go on as long as one can, at most `fuel` of them. -/
def settle : Nat → World n → World n × List (Fin n × Reply)
  | 0, w => (w, [])
  | fuel + 1, w => match w.resumeFirst? with
    | none => (w, [])
    | some (v, t, reply) =>
      let (v, replies) := settle fuel v
      (v, (t, reply) :: replies)

end World
end Guarded
end CheckedLock
