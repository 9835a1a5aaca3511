import Mathlib.Logic.Basic
import CheckedLock.Guarded.Run

/-! How locks change hands. The history of a run is what its journal says of acquisitions and
releases. It determines who holds a lock, with which exceptions in flight, and whether some holder
left it by a new exception; in a lawful history only holders release. -/
namespace CheckedLock

namespace Core

variable {τ : Type}

/-- The core in the hands of `t`, on record. -/
def takenBy (c : Core τ) (t : τ) : Core τ := { c with owner := ⟨some t⟩, inside := some t }

/-- The core after a release. -/
def freed (c : Core τ) (unwinding : Bool) : Core τ := ⟨⟨none⟩, none, c.poisoned || unwinding⟩

end Core

namespace Guarded

variable {n : Nat}

/-- A lock changes hands; with the exceptions in flight on the thread. -/
inductive Deed (n : Nat)
  | acquired (m : Name) (t : Fin n) (v : Verdict) (inFlight : List Nat)
  | released (m : Name) (t : Fin n) (inFlight : List Nat)

namespace Deed

def mutex : Deed n → Name
  | .acquired m _ _ _ | .released m _ _ => m

def thread : Deed n → Fin n
  | .acquired _ t _ _ | .released _ t _ => t

def inFlight : Deed n → List Nat
  | .acquired _ _ _ F | .released _ _ F => F

end Deed

def Event.deed? : Event n → Option (Deed n)
  | .attempted m t v F => if v.holds then some (.acquired m t v F) else none
  | .released m t F => some (.released m t F)
  | .suspended _ _ | .noticed _ _ _ | .said _ _ _ => none

/-- The latest deed first. -/
def World.history (w : World n) : List (Deed n) := w.journal.filterMap Event.deed?

/-- Who holds `m` after the deeds, and the exceptions that were in flight at the acquisition. -/
def current (m : Name) : List (Deed n) → Option (Fin n × List Nat)
  | [] => none
  | .acquired k t _ F :: h => if k = m then some (t, F) else current m h
  | .released k _ _ :: h => if k = m then none else current m h

/-- A release of `m` with `now` in flight is late if they are more than at the acquisition. -/
def isLate (m : Name) (h : List (Deed n)) (now : List Nat) : Bool :=
  match current m h with
  | some (_, before) => decide (before.length < now.length)
  | none => false

/-- Whether some release of `m` was late. -/
def stained (m : Name) : List (Deed n) → Bool
  | [] => false
  | .acquired _ _ _ _ :: h => stained m h
  | .released k _ now :: h => (decide (k = m) && isLate m h now) || stained m h

/-- The history has a release of `m` at which more exceptions were in flight on the releasing thread
than at the acquisition that it ends. -/
def LateRelease (m : Name) (h : List (Deed n)) : Prop :=
  ∃ later t now earlier before, h = later ++ .released m t now :: earlier ∧
    current m earlier = some (t, before) ∧ before.length < now.length

/-- The core of `m` after the deeds. -/
def coreAfter (m : Name) (h : List (Deed n)) : Core (Fin n) where
  owner := ⟨(current m h).map (·.1)⟩
  inside := (current m h).map (·.1)
  poisoned := stained m h

/-- Free locks are acquired and their holders release them; a verdict tells of earlier late
releases. -/
def Lawful : List (Deed n) → Prop
  | [] => True
  | .acquired m _ v _ :: h => current m h = none ∧ v = (coreAfter m h).grant ∧ Lawful h
  | .released m t _ :: h => (∃ before, current m h = some (t, before)) ∧ Lawful h

section Facts

variable {m k : Name} {t : Fin n} {v : Verdict} {F : List Nat} {h : List (Deed n)}

theorem current_of_forall_ne {later : List (Deed n)} (hl : ∀ d ∈ later, d.mutex ≠ m) :
    current m (later ++ h) = current m h := by
  induction later with
  | nil => rfl
  | cons d later ih =>
    have hd := hl d (by simp)
    have ih := ih fun e he => hl e (by simp [he])
    cases d <;> simp_all [current, Deed.mutex]

theorem coreAfter_acquired_self :
    coreAfter m (.acquired m t v F :: h) = (coreAfter m h).takenBy t := by
  simp [coreAfter, current, stained, Core.takenBy]

theorem coreAfter_acquired_ne (hk : k ≠ m) :
    coreAfter m (.acquired k t v F :: h) = coreAfter m h := by
  simp [coreAfter, current, stained, hk]

theorem coreAfter_released_self :
    coreAfter m (.released m t F :: h) = (coreAfter m h).freed (isLate m h F) := by
  simp [coreAfter, current, stained, Core.freed, Bool.or_comm]

theorem coreAfter_released_ne (hk : k ≠ m) :
    coreAfter m (.released k t F :: h) = coreAfter m h := by
  simp [coreAfter, current, stained, hk]

theorem current_eq_none_of_forall_ne (hm : ∀ d ∈ h, d.mutex ≠ m) : current m h = none := by
  simpa [current] using current_of_forall_ne (h := []) hm

theorem stained_append_of_stained {later : List (Deed n)} (hs : stained m h = true) :
    stained m (later ++ h) = true := by
  induction later with
  | nil => exact hs
  | cons d later ih => cases d <;> simp [stained, ih]

theorem stained_eq_false_of_forall_ne (hm : ∀ d ∈ h, d.mutex ≠ m) : stained m h = false := by
  induction h with
  | nil => rfl
  | cons d h ih =>
    have hd := hm d (by simp)
    have ih := ih fun e he => hm e (by simp [he])
    cases d <;> simp_all [stained, Deed.mutex]

/-- A lock without deeds is new. -/
theorem coreAfter_of_forall_ne (hm : ∀ d ∈ h, d.mutex ≠ m) : coreAfter m h = {} := by
  simp [coreAfter, current_eq_none_of_forall_ne hm, stained_eq_false_of_forall_ne hm]

theorem Lawful.of_cons {d : Deed n} (hd : Lawful (d :: h)) : Lawful h := by
  cases d with
  | acquired => exact hd.2.2
  | released => exact hd.2

theorem Lawful.of_append {later : List (Deed n)} (hl : Lawful (later ++ h)) : Lawful h := by
  induction later with
  | nil => exact hl
  | cons d later ih => exact ih hl.of_cons

theorem stained_iff (hl : Lawful h) : stained m h = true ↔ LateRelease m h := by
  constructor
  · intro hs
    induction h with
    | nil => cases hs
    | cons d h ih =>
      -- the release is the first deed, or it is among the others
      have rest : stained m h = true → LateRelease m (d :: h) := fun hs => by
        obtain ⟨later, t, now, earlier, before, rfl, hc, hlt⟩ := ih hl.of_cons hs
        exact ⟨d :: later, t, now, earlier, before, rfl, hc, hlt⟩
      cases d with
      | acquired => exact rest hs
      | released k u now =>
        rcases Bool.or_eq_true _ _ ▸ hs with hk | hk
        · obtain ⟨hkm, hlate⟩ := Bool.and_eq_true _ _ ▸ hk
          obtain rfl : k = m := of_decide_eq_true hkm
          obtain ⟨before, hc⟩ := hl.1
          exact ⟨[], u, now, h, before, rfl, hc, by simpa [isLate, hc] using hlate⟩
        · exact rest hk
  · rintro ⟨later, t, now, earlier, before, rfl, hc, hlt⟩
    apply stained_append_of_stained
    simp [stained, isLate, hc, hlt]

/-- The holder's acquisition is the latest deed on its lock. -/
theorem exists_acquired_of_current {before : List Nat} (hc : current m h = some (t, before)) :
    ∃ later v earlier, h = later ++ .acquired m t v before :: earlier ∧
      ∀ d ∈ later, d.mutex ≠ m := by
  induction h with
  | nil => cases hc
  | cons d h ih =>
    by_cases hd : d.mutex = m
    · cases d with
      | acquired k u v F =>
        obtain rfl : k = m := hd
        simp only [current, if_true, Option.some.injEq, Prod.mk.injEq] at hc
        obtain ⟨rfl, rfl⟩ := hc
        exact ⟨[], v, h, rfl, by simp⟩
      | released k u F => simp [current, show k = m from hd] at hc
    · have hrest : current m ([d] ++ h) = current m h := current_of_forall_ne (by simpa using hd)
      obtain ⟨later, v, earlier, rfl, hl⟩ := ih (hrest ▸ hc)
      exact ⟨d :: later, v, earlier, rfl, by simpa [hd] using hl⟩

end Facts

end Guarded
end CheckedLock
