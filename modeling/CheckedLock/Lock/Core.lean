/-! One lock: the record of its owner, the primitive that excludes other threads and the mark of
poison. The three are changed one at a time, and each change is one atomic step of a thread, so a
call can be interleaved with the calls of other threads. The record is read without the
primitive. -/
namespace CheckedLock

/-- Which thread holds the lock, as far as is written down. -/
structure OwnerRecord (τ : Type) where
  holder : Option τ := none
  deriving DecidableEq, Repr

namespace OwnerRecord

variable {τ : Type} [DecidableEq τ]

/-- Nobody's identity is `none`: it is what an empty record names. -/
def names (r : OwnerRecord τ) (id : Option τ) : Bool := r.holder = id

def set (_ : OwnerRecord τ) (id : Option τ) : OwnerRecord τ := ⟨id⟩

def clear (_ : OwnerRecord τ) : OwnerRecord τ := ⟨none⟩

@[simp] theorem names_set (r : OwnerRecord τ) (a b : Option τ) :
    (r.set a).names b = decide (a = b) := rfl

@[simp] theorem names_clear (r : OwnerRecord τ) (id : Option τ) :
    r.clear.names id = decide (none = id) := rfl

end OwnerRecord

structure Core (τ : Type) where
  owner : OwnerRecord τ := {}
  /-- the thread inside the primitive -/
  inside : Option τ := none
  /-- set when a holder left by an exception; never cleared -/
  poisoned : Bool := false
  deriving DecidableEq, Repr

/-- How an attempt to acquire ends. -/
inductive Verdict
  | acquired | acquiredPoisoned | lockedByCurrentThread | wouldBlock
  deriving DecidableEq, Repr

namespace Verdict

def name : Verdict → String
  | .acquired => "Acquired"
  | .acquiredPoisoned => "AcquiredPoisoned"
  | .lockedByCurrentThread => "LockedByCurrentThread"
  | .wouldBlock => "WouldBlock"

def holds : Verdict → Bool
  | .acquired | .acquiredPoisoned => true
  | .lockedByCurrentThread | .wouldBlock => false

end Verdict

/-- What a thread may ask of a lock. `polling` attempts never wait. -/
inductive Request
  | acquire (polling : Bool)
  | release (unwinding : Bool)
  | owned
  | poisoned
  deriving DecidableEq, Repr

inductive Answer
  | verdict (v : Verdict)
  | released
  | flag (b : Bool)
  deriving DecidableEq, Repr

/-- What a lock reports to the log. -/
inductive Notice
  | reentry (polling : Bool)
  | poisoned
  deriving DecidableEq, Repr

/-- The next step of a call. -/
inductive Point
  /-- read the owner record -/
  | checking (polling : Bool)
  /-- take the primitive -/
  | entering (polling : Bool)
  /-- write the own identity down -/
  | recording
  /-- read the mark -/
  | inspecting
  /-- read the mark before a release -/
  | judging (unwinding : Bool)
  | marking
  | clearing
  /-- leave the primitive -/
  | leaving
  | asking
  | reading
  deriving DecidableEq, Repr

def Request.entry : Request → Point
  | .acquire polling => .checking polling
  | .release unwinding => .judging unwinding
  | .owned => .asking
  | .poisoned => .reading

/-- Where a step leads: to the next one, or out of the call. -/
inductive Progress
  | next (p : Point)
  | answer (a : Answer)
  deriving DecidableEq, Repr

structure Move (τ : Type) where
  core : Core τ
  progress : Progress
  notice : Option Notice := none
  deriving DecidableEq, Repr

namespace Core

variable {τ : Type} [DecidableEq τ]

/-- The step of thread `t` at a point of its call; `none` while it has to wait. -/
def step (t : τ) (c : Core τ) : Point → Option (Move τ)
  | .checking polling =>
    if c.owner.names (some t) then
      some { core := c, progress := .answer (.verdict .lockedByCurrentThread),
             notice := some (.reentry polling) }
    else some { core := c, progress := .next (.entering polling) }
  | .entering polling => match c.inside with
    | none => some { core := { c with inside := some t }, progress := .next .recording }
    | some _ =>
      if polling then some { core := c, progress := .answer (.verdict .wouldBlock) } else none
  | .recording =>
    some { core := { c with owner := c.owner.set (some t) }, progress := .next .inspecting }
  | .inspecting =>
    some { core := c,
           progress := .answer (.verdict (if c.poisoned then .acquiredPoisoned else .acquired)) }
  | .judging unwinding =>
    some { core := c, progress := .next (if unwinding && !c.poisoned then .marking else .clearing) }
  | .marking =>
    some { core := { c with poisoned := true }, progress := .next .clearing,
           notice := some .poisoned }
  | .clearing => some { core := { c with owner := c.owner.clear }, progress := .next .leaving }
  | .leaving => some { core := { c with inside := none }, progress := .answer .released }
  | .asking => some { core := c, progress := .answer (.flag (c.owner.names (some t))) }
  | .reading => some { core := c, progress := .answer (.flag c.poisoned) }

/-- How far a call gets without interruption by other threads. -/
inductive Course (τ : Type)
  | answered (core : Core τ) (a : Answer) (notices : List Notice)
  | waiting (core : Core τ) (p : Point) (notices : List Notice)
  deriving DecidableEq, Repr

/-- Steps of one thread from point `p`, at most `fuel` of them. -/
def follow (t : τ) : Nat → Core τ → Point → List Notice → Course τ
  | 0, c, p, seen => .waiting c p seen
  | fuel + 1, c, p, seen => match c.step t p with
    | none => .waiting c p seen
    | some m => match m.progress with
      | .answer a => .answered m.core a (seen ++ m.notice.toList)
      | .next q => follow t fuel m.core q (seen ++ m.notice.toList)

/-- No call has more steps. -/
def callSteps : Nat := 4

/-- A whole call. -/
def call (t : τ) (c : Core τ) (r : Request) : Course τ :=
  follow t callSteps c r.entry []

/-- The rest of an acquisition that had to wait at the primitive. -/
def resume (t : τ) (c : Core τ) (p : Point) : Course τ :=
  follow t callSteps c p []

/-- A verdict on an acquisition whose primitive was free. -/
def grant (c : Core τ) : Verdict :=
  if c.poisoned then .acquiredPoisoned else .acquired

theorem call_acquire_of_names {t : τ} {c : Core τ} (polling : Bool)
    (h : c.owner.names (some t) = true) :
    c.call t (.acquire polling) =
      .answered c (.verdict .lockedByCurrentThread) [.reentry polling] := by
  simp [call, callSteps, Request.entry, follow, step, h]

theorem call_acquire_of_free {t : τ} {c : Core τ} (polling : Bool)
    (h : c.owner.names (some t) = false) (hfree : c.inside = none) :
    c.call t (.acquire polling) =
      .answered { c with inside := some t, owner := ⟨some t⟩ } (.verdict c.grant) [] := by
  simp [call, callSteps, Request.entry, follow, step, h, hfree, grant, OwnerRecord.set]

theorem call_acquire_of_taken {s t : τ} {c : Core τ} (h : c.owner.names (some t) = false)
    (htaken : c.inside = some s) :
    c.call t (.acquire true) = .answered c (.verdict .wouldBlock) [] := by
  simp [call, callSteps, Request.entry, follow, step, h, htaken]

theorem call_acquire_waits {s t : τ} {c : Core τ} (h : c.owner.names (some t) = false)
    (htaken : c.inside = some s) :
    c.call t (.acquire false) = .waiting c (.entering false) [] := by
  simp [call, callSteps, Request.entry, follow, step, h, htaken]

theorem resume_entering_of_free {t : τ} {c : Core τ} (polling : Bool) (hfree : c.inside = none) :
    c.resume t (.entering polling) =
      .answered { c with inside := some t, owner := ⟨some t⟩ } (.verdict c.grant) [] := by
  simp [resume, callSteps, follow, step, hfree, grant, OwnerRecord.set]

theorem resume_entering_of_taken {s t : τ} {c : Core τ} (htaken : c.inside = some s) :
    c.resume t (.entering false) = .waiting c (.entering false) [] := by
  simp [resume, callSteps, follow, step, htaken]

theorem call_release (t : τ) (c : Core τ) (unwinding : Bool) :
    c.call t (.release unwinding) =
      .answered { owner := ⟨none⟩, inside := none, poisoned := c.poisoned || unwinding } .released
        (if unwinding && !c.poisoned then [.poisoned] else []) := by
  cases unwinding <;> cases h : c.poisoned <;>
    simp [call, callSteps, Request.entry, follow, step, h, OwnerRecord.clear]

end Core
end CheckedLock
