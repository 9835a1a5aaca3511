import CheckedLock.Proofs.Guarded.Conservation

/-! Poison and the history of a lock. A mutex is poisoned if and only if some release of it was
late, it stays so, and whoever acquires it is told what was the case when the lock changed hands. -/
namespace CheckedLock
namespace Guarded

variable {n : Nat} {m : Name} {t : Fin n}

theorem LateRelease.cons {h : List (Deed n)} (hl : LateRelease m h) (d : Deed n) :
    LateRelease m (d :: h) := by
  obtain ⟨later, t, now, earlier, before, rfl, hc, hlt⟩ := hl
  exact ⟨d :: later, t, now, earlier, before, rfl, hc, hlt⟩

theorem coreAfter_of_forall_mutex_ne {later h : List (Deed n)} (hl : ∀ d ∈ later, d.mutex ≠ m) :
    coreAfter m (later ++ h) = coreAfter m h := by
  induction later with
  | nil => rfl
  | cons d later ih =>
    have ih := ih fun e he => hl e (by simp [he])
    exact (coreAfter_of_mutex_ne (hl d (by simp))).trans ih

theorem Core.grant_eq_iff (c : Core (Fin n)) : c.grant = .acquiredPoisoned ↔ c.poisoned = true := by
  unfold Core.grant
  split <;> simp_all

/-- A verdict is about the history before it. -/
theorem Lawful.verdict_iff {v : Verdict} {before : List Nat} {h : List (Deed n)}
    (hl : Lawful (.acquired m t v before :: h)) : v = .acquiredPoisoned ↔ LateRelease m h := by
  rw [hl.2.1, Core.grant_eq_iff, ← stained_iff hl.2.2]
  rfl

/-- What the status of an acquired lock says about it. -/
structure Tells (s : Acquisition.Status) (late : Prop) : Prop where
  hasValue : s.hasValue = true
  isPoisoned : s.isPoisoned = true ↔ late
  error : s.error = some .poisoned ↔ late
  isOk : s.isOk = true ↔ ¬ late

theorem tells_ofVerdict {α : Type} {v : Verdict} {late : Prop} (payload : α)
    (hv : v.holds = true) (h : v = .acquiredPoisoned ↔ late) :
    Tells (Acquisition.ofVerdict v payload).status late := by
  cases v with
  | acquired =>
    have hlate : ¬ late := fun hl => nomatch h.mpr hl
    constructor <;> simp [hlate, Acquisition.ofVerdict, Acquisition.clean, Acquisition.status,
      Acquisition.isOk, Acquisition.hasValue]
  | acquiredPoisoned =>
    have hlate : late := h.mp rfl
    constructor <;> simp [hlate, Acquisition.ofVerdict, Acquisition.tainted, Acquisition.status,
      Acquisition.isOk, Acquisition.hasValue, Acquisition.error, Except.toOption]
  | lockedByCurrentThread => cases hv
  | wouldBlock => cases hv

namespace World

/-- The runs from a world on. -/
inductive Leads (w : World n) : World n → Prop
  | refl : Leads w w
  | turn {u v : World n} {x : Turn n} {reply : Option Reply} :
    Leads w u → u.Allows x → u.turn x = some (v, reply) → Leads w v

/-- The answer to an acquisition says whether a late release came before, and has the payload: the
guard in its slot, or the value. -/
def Reports (w : World n) (t : Fin n) (a : Arrival) (late : Prop) : Prop :=
  match a.purpose with
  | .keep r => ∃ x, (w.finish t).2 = .status x.status ∧ (w.finish t).1.results r = some ⟨t, x⟩ ∧
      x.inner = .ok (.holding a.mutex a.depth) ∧ Tells x.status late
  | .takeValue => ∃ s x, w.mutexes a.mutex = some x ∧ (w.finish t).2 = .taken s (some x.value) ∧
      Tells s late
  | .encode | .decode _ => True

structure PoisonKept (w : World n) : Prop where
  asked : ∀ {m x}, w.mutexes m = some x → ∀ t, ∃ b, w.ask t m .poisoned = .flag b ∧
    (b = true ↔ LateRelease m w.history)
  /-- The number in a guard is the one of the acquisition, wherever the guard has gone. -/
  recorded : ∀ {p t g m}, w.guardAt p = some ⟨t, g⟩ → g.lock = some m →
    ∃ before, current m w.history = some (t, before) ∧ before.length = g.depth
  never_cleared : ∀ {v}, w.Leads v → ∀ {m t}, w.ask t m .poisoned = .flag true →
    v.ask t m .poisoned = .flag true
  /-- Between the acquisition and the answer nothing happens to the mutex. -/
  reported : ∀ {t a}, (w.threads t).arrived = some a → a.verdict.holds = true →
    ∃ later before earlier, w.history = later ++ .acquired a.mutex t a.verdict before :: earlier ∧
      (∀ d ∈ later, d.mutex ≠ a.mutex) ∧ w.Reports t a (LateRelease a.mutex earlier)

variable {w v : World n} {x : Mutex n} {a : Arrival}

theorem ask_poisoned (hx : w.mutexes m = some x) (t : Fin n) :
    w.ask t m .poisoned = .flag x.core.poisoned := by
  simp [ask, hx, Core.call, Core.callSteps, Core.follow, Request.entry, Core.step]

theorem exists_of_ask {b : Bool} (h : w.ask t m .poisoned = .flag b) :
    ∃ x, w.mutexes m = some x ∧ x.core.poisoned = b := by
  cases hx : w.mutexes m with
  | none => simp [ask, hx] at h
  | some x =>
    rw [ask_poisoned hx] at h
    exact ⟨x, rfl, Reply.flag.inj h⟩

namespace Orderly

variable (hw : w.Orderly)
include hw

theorem poisoned_iff (hx : w.mutexes m = some x) :
    x.core.poisoned = true ↔ LateRelease m w.history := by
  have he : x.core = coreAfter m w.history := hw.sound.core_eq (ledger_core hx)
  rw [he]
  exact stained_iff hw.sound.lawful

theorem poisoned_of_advance (h : Advance t w v) {u : Fin n}
    (hp : w.ask u m .poisoned = .flag true) : v.ask u m .poisoned = .flag true := by
  obtain ⟨x, hx, hpx⟩ := exists_of_ask hp
  have hlate := (hw.poisoned_iff hx).mp hpx
  obtain ⟨y, hy⟩ := exists_mutex (m := m) (h.posting.core_ne_none (by simp [ledger_core hx]))
  have hlate' : LateRelease m v.history := by
    obtain he | ⟨d, -, he, -⟩ := h.posting.history
    · exact (show v.history = w.history from he) ▸ hlate
    · exact (show v.history = d :: w.history from he) ▸ hlate.cons d
  rw [ask_poisoned hy, ((hw.advance h).poisoned_iff hy).mpr hlate']

/-- The verdict of a thread is the latest deed on its mutex. -/
theorem acquired_of_arrived (ha : (w.threads t).arrived = some a)
    (hv : a.verdict.holds = true) : ∃ later before earlier,
      w.history = later ++ .acquired a.mutex t a.verdict before :: earlier ∧
      ∀ d ∈ later, d.mutex ≠ a.mutex := by
  obtain ⟨before, hc, -⟩ := hw.current_of_arrived ha hv
  obtain ⟨later, v, earlier, hh, hl⟩ := exists_acquired_of_current hc
  have hlaw : Lawful (.acquired a.mutex t v before :: earlier) := by
    have hlaw : Lawful w.history := hw.sound.lawful
    exact (hh ▸ hlaw).of_append
  have hcore : coreAfter a.mutex w.history = (coreAfter a.mutex earlier).takenBy t := by
    rw [hh, coreAfter_of_forall_mutex_ne hl, coreAfter_acquired_self]
  have hverdict : v = a.verdict := by
    rw [(hw.inOrder t).verdict a ha hv, hlaw.2.1, hcore]
    rfl
  exact ⟨later, before, earlier, hverdict ▸ hh, hl⟩

theorem reports (ha : (w.threads t).arrived = some a) (hv : a.verdict.holds = true) {late : Prop}
    (hlate : a.verdict = .acquiredPoisoned ↔ late) : w.Reports t a late := by
  obtain ⟨-, x, hx, hfin⟩ := hw.finish_eq ha
  unfold Reports
  rw [hfin]
  cases hp : a.purpose with
  | keep r =>
    refine ⟨Acquisition.ofVerdict a.verdict (.holding a.mutex a.depth), ?_, ?_, ?_, ?_⟩
    · simp [conclude, hp]
    · simp [conclude, hp, storeResult_results]
    · cases he : a.verdict <;> simp_all [Acquisition.ofVerdict, Acquisition.clean,
        Acquisition.tainted, Verdict.holds]
    · exact tells_ofVerdict _ hv hlate
  | takeValue =>
    refine ⟨_, x, hx, ?_, tells_ofVerdict () hv hlate⟩
    simp [conclude, hp, hv]
  | encode => trivial
  | decode d => trivial

end Orderly

theorem Reachable.leads (hw : w.Reachable) (h : w.Leads v) : v.Reachable := by
  induction h with
  | refl => exact hw
  | turn _ ha ht ih => exact ih.turn ha ht

theorem Reachable.poison_kept (h : w.Reachable) : w.PoisonKept := by
  have hw := h.orderly
  constructor
  case asked =>
    intro m x hx t
    exact ⟨x.core.poisoned, ask_poisoned hx t, hw.poisoned_iff hx⟩
  case recorded =>
    intro p t g m hg hl
    exact hw.sound.current_of_hold (p := p) (h := ⟨t, m, g.depth⟩)
      (by simp [ledger, hg, Slot.hold?, hl])
  case never_cleared =>
    intro v hv m t hp
    induction hv with
    | refl => exact hp
    | turn hu ha ht ih =>
      have hu := (h.leads hu).orderly
      exact hu.poisoned_of_advance (hu.turn ha ht) ih
  case reported =>
    intro t a ha hv
    obtain ⟨later, before, earlier, hh, hl⟩ := hw.acquired_of_arrived ha hv
    have hlaw : Lawful w.history := hw.sound.lawful
    exact ⟨later, before, earlier, hh, hl,
      hw.reports ha hv (Lawful.verdict_iff (hh ▸ hlaw).of_append)⟩

/-- A thread has waited for the mutex while the other one left it by an exception. -/
theorem poison_kept_for_waiting_thread : ∃ w : World 2, w.Reachable ∧
    (w.threads 1).arrived = some ⟨"m", .keep "s", .acquiredPoisoned, 0⟩ ∧ w.PoisonKept := by
  have h₁ := (Reachable.initial (n := 2)).turn (x := .start 0 (.mutex "m" (.create (.int 0))))
    rfl rfl
  have h₂ := h₁.turn (x := .start 0 (.mutex "m" (.lock "r"))) ⟨nofun, fun u => nofun⟩ rfl
  have h₃ := h₂.turn (x := .finish 0) trivial rfl
  have h₄ := h₃.turn (x := .start 1 (.mutex "m" (.lock "s"))) ⟨nofun, by decide⟩ rfl
  have h₅ := h₄.turn (x := .start 0 .throw) trivial rfl
  have h₆ := h₅.turn (x := .start 0 (.result "r" .drop)) (by rintro s ⟨⟩; rfl) rfl
  have h := h₆.turn (x := .wake 1) trivial rfl
  exact ⟨_, h, rfl, h.poison_kept⟩

end World
end Guarded
end CheckedLock
