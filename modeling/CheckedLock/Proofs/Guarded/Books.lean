import CheckedLock.Proofs.Guarded.Ledger

/-! The books of a world, and what its operations do to them. Every operation of a thread comes to a
few moves between places and to giving up what one place holds. -/
namespace CheckedLock

def Acquisition.payload? {α : Type} (a : Acquisition α) : Option α :=
  match a.inner with
  | .ok v => some v
  | .failure _ _ => none

namespace Guarded

variable {n : Nat}

def Slot.guard? (s : Slot n (Acquisition Guard)) : Option (Slot n Guard) :=
  s.held.payload?.map (Slot.mk s.thread)

def Arrival.guard? (a : Arrival) : Option Guard :=
  if a.verdict.holds then some (.holding a.mutex a.depth) else none

def Slot.hold? (s : Slot n Guard) : Option (Hold n) :=
  s.held.lock.map fun m => ⟨s.thread, m, s.held.depth⟩

@[simp] theorem Slot.hold?_vacated (t : Fin n) (g : Guard) :
    (Slot.mk t g.vacated).hold? = none := rfl

@[simp] theorem Slot.hold?_holding (t : Fin n) (m : Name) (d : Nat) :
    (Slot.mk t (Guard.holding m d)).hold? = some ⟨t, m, d⟩ := rfl

namespace World

/-- The guard object at a place. -/
def guardAt (w : World n) : Place n → Option (Slot n Guard)
  | .result r => (w.results r).bind Slot.guard?
  | .guard g => w.guards g
  | .hand t => (w.threads t).arrived.bind fun a => a.guard?.map (Slot.mk t)

def ledger (w : World n) : Ledger n where
  hold p := (w.guardAt p).bind Slot.hold?
  core m := (w.mutexes m).map (·.core)
  inFlight := w.inFlight
  history := w.history

@[simp] theorem ledger_initial : (({} : World n)).ledger = .blank n := by
  ext1
  · funext p
    cases p <;> rfl
  all_goals rfl

theorem ledger_core {w : World n} {m : Name} {x : Mutex n} (hx : w.mutexes m = some x) :
    w.ledger.core m = some x.core := by simp [ledger, hx]

theorem exists_mutex {w : World n} {m : Name} (hm : w.ledger.core m ≠ none) :
    ∃ x, w.mutexes m = some x := by
  obtain ⟨c, hc⟩ := Option.ne_none_iff_exists'.mp hm
  obtain ⟨x, hx, -⟩ := Option.map_eq_some_iff.mp hc
  exact ⟨x, hx⟩

theorem guardAt_congr {w v : World n} (hr : v.results = w.results) (hg : v.guards = w.guards)
    (ht : v.threads = w.threads) : v.guardAt = w.guardAt := by
  funext p
  cases p <;> simp [guardAt, hr, hg, ht]

variable (w : World n)

theorem ledger_note {e : Event n} (he : e.deed? = none) : (w.note e).ledger = w.ledger := by
  ext1
  · rfl
  · rfl
  · rfl
  · simp [ledger, history, note, he]

theorem ledger_note_deed {e : Event n} {d : Deed n} (he : e.deed? = some d) :
    (w.note e).ledger = { w.ledger with history := d :: w.ledger.history } := by
  ext1
  · rfl
  · rfl
  · rfl
  · simp [ledger, history, note, he]

@[simp] theorem ledger_noteAll (m : Name) (t : Fin n) (seen : List Notice) :
    (w.noteAll m t seen).ledger = w.ledger := by
  induction seen generalizing w with
  | nil => rfl
  | cons x seen ih => exact (ih (w.note (.noticed m t x))).trans (w.ledger_note rfl)

theorem guardAt_setResult (r : Name) (x : Option (Slot n (Acquisition Guard))) :
    (w.setResult r x).guardAt = Function.update w.guardAt (.result r) (x.bind Slot.guard?) := by
  funext p
  cases p with
  | result k =>
    by_cases hk : k = r
    · subst hk; simp [guardAt]
    · simp [guardAt, setResult_ne _ _ hk, hk]
  | guard g => simp [guardAt, setResult]
  | hand t => simp [guardAt, setResult]

theorem guardAt_setGuard (g : Name) (x : Option (Slot n Guard)) :
    (w.setGuard g x).guardAt = Function.update w.guardAt (.guard g) x := by
  funext p
  cases p with
  | result r => simp [guardAt, setGuard]
  | guard k =>
    by_cases hk : k = g
    · subst hk; simp [guardAt]
    · simp [guardAt, setGuard_ne _ _ hk, hk]
  | hand t => simp [guardAt, setGuard]

theorem guardAt_setThread (t : Fin n) (x : ThreadState) :
    (w.setThread t x).guardAt = Function.update w.guardAt (.hand t)
      (x.arrived.bind fun a => a.guard?.map (Slot.mk t)) := by
  funext p
  cases p with
  | result r => simp [guardAt, setThread]
  | guard g => simp [guardAt, setThread]
  | hand u =>
    by_cases hu : u = t
    · subst hu; simp [guardAt]
    · simp [guardAt, setThread_ne _ _ hu, hu]

theorem ledger_setResult (r : Name) (x : Option (Slot n (Acquisition Guard))) :
    (w.setResult r x).ledger =
      w.ledger.put (.result r) ((x.bind Slot.guard?).bind Slot.hold?) := by
  ext1
  · funext p
    simp only [ledger, guardAt_setResult, Ledger.put, Function.update_apply]
    split <;> rfl
  all_goals rfl

theorem ledger_setGuard (g : Name) (x : Option (Slot n Guard)) :
    (w.setGuard g x).ledger = w.ledger.put (.guard g) (x.bind Slot.hold?) := by
  ext1
  · funext p
    simp only [ledger, guardAt_setGuard, Ledger.put, Function.update_apply]
    split <;> rfl
  all_goals rfl

theorem ledger_setMutex (m : Name) (x : Mutex n) :
    (w.setMutex m x).ledger =
      { w.ledger with core := Function.update w.ledger.core m (some x.core) } := by
  ext1
  · rfl
  · funext k
    by_cases hk : k = m
    · subst hk; simp [ledger]
    · simp [ledger, setMutex_ne _ _ hk, hk]
  all_goals rfl

theorem ledger_setThread (t : Fin n) (x : ThreadState) :
    (w.setThread t x).ledger = (w.ledger.fly t x.inFlight).put (.hand t)
      ((x.arrived.bind fun a => a.guard?.map (Slot.mk t)).bind Slot.hold?) := by
  ext1
  · funext p
    simp only [ledger, guardAt_setThread, Ledger.put, Ledger.fly, Function.update_apply]
    split <;> rfl
  · rfl
  · funext u
    by_cases hu : u = t
    · subst hu; simp [ledger, inFlight, Ledger.put, Ledger.fly]
    · simp [ledger, inFlight, setThread_ne _ _ hu, Ledger.put, Ledger.fly, hu]
  · rfl

@[simp] theorem ledger_fly_self (t : Fin n) : w.ledger.fly t (w.inFlight t) = w.ledger := by
  simp [Ledger.fly, ledger]

theorem ledger_throw (t : Fin n) :
    (w.throw t).ledger = w.ledger.fly t ((w.threads t).thrown :: w.inFlight t) := by
  rw [throw, ledger_setThread]
  exact Ledger.put_of_eq rfl

theorem ledger_catch (t : Fin n) : (w.catch_ t).ledger = w.ledger.fly t (w.inFlight t).tail := by
  rw [catch_, ledger_setThread]
  exact Ledger.put_of_eq rfl

/-- A value of its mutex does not stand in the books. -/
theorem ledger_setMutex_value {m : Name} {x : Mutex n} (hx : w.mutexes m = some x) (p : Payload) :
    (w.setMutex m { x with value := p }).ledger = w.ledger := by
  rw [ledger_setMutex]
  rw [← ledger_core hx, Function.update_eq_self]

theorem ledger_release (t : Fin n) (g : Guard) :
    (w.release t g).ledger = w.ledger.closes (Slot.mk t g).hold? := by
  cases hl : g.lock with
  | none => simp [release, hl, Slot.hold?, Ledger.closes]
  | some m =>
    cases hm : w.mutexes m with
    | none => simp [release, hl, hm, Slot.hold?, Ledger.closes, Ledger.close, ledger]
    | some x =>
      have hc := ledger_core hm
      have hd : (Event.released m t (w.inFlight t)).deed? =
        some (.released m t (w.inFlight t)) := rfl
      simp only [release, hl, hm, Core.call_release, ledger_note_deed _ hd, ledger_noteAll,
        ledger_setMutex, Slot.hold?, Option.map_some, Ledger.closes, Ledger.close, hc]
      rfl

theorem ledger_releaseResult (s : Slot n (Acquisition Guard)) :
    (w.releaseResult s.thread s.held).ledger = w.ledger.closes (s.guard?.bind Slot.hold?) := by
  unfold releaseResult
  cases hi : s.held.inner with
  | ok g => simp [ledger_release, Slot.guard?, Acquisition.payload?, hi]
  | failure e c => simp [Slot.guard?, Acquisition.payload?, hi, Ledger.closes]

@[simp] theorem noteAll_frame (m : Name) (t : Fin n) (seen : List Notice) :
    (w.noteAll m t seen).results = w.results ∧ (w.noteAll m t seen).guards = w.guards ∧
      (w.noteAll m t seen).threads = w.threads := by
  induction seen generalizing w with
  | nil => exact ⟨rfl, rfl, rfl⟩
  | cons x seen ih => exact ih (w.note (.noticed m t x))

/-- A release reaches the mutex and the journal only. -/
@[simp] theorem release_frame (t : Fin n) (g : Guard) :
    (w.release t g).results = w.results ∧ (w.release t g).guards = w.guards ∧
      (w.release t g).threads = w.threads := by
  unfold release
  repeat' split
  all_goals simp [note, setMutex]

@[simp] theorem releaseResult_frame (t : Fin n) (a : Acquisition Guard) :
    (w.releaseResult t a).results = w.results ∧ (w.releaseResult t a).guards = w.guards ∧
      (w.releaseResult t a).threads = w.threads := by
  unfold releaseResult
  split <;> simp

theorem guardAt_release (t : Fin n) (g : Guard) : (w.release t g).guardAt = w.guardAt := by
  obtain ⟨hr, hg, ht⟩ := w.release_frame t g
  exact guardAt_congr hr hg ht

theorem guardAt_releaseResult (t : Fin n) (a : Acquisition Guard) :
    (w.releaseResult t a).guardAt = w.guardAt := by
  obtain ⟨hr, hg, ht⟩ := w.releaseResult_frame t a
  exact guardAt_congr hr hg ht

theorem guardAt_storeResult (t : Fin n) (r : Name) (a : Acquisition Guard) :
    (w.storeResult t r a).guardAt =
      Function.update w.guardAt (.result r) (Slot.mk t a).guard? := by
  unfold storeResult
  rw [guardAt_setResult]
  split
  · rfl
  · rw [guardAt_releaseResult]; rfl

theorem guardAt_storeGuard (t : Fin n) (g : Name) (x : Guard) :
    (w.storeGuard t g x).guardAt = Function.update w.guardAt (.guard g) (some ⟨t, x⟩) := by
  unfold storeGuard
  rw [guardAt_setGuard]
  split
  · rfl
  · rw [guardAt_release]

@[simp] theorem storeResult_threads (t : Fin n) (r : Name) (a : Acquisition Guard) :
    (w.storeResult t r a).threads = w.threads := by
  unfold storeResult
  split <;> simp [setResult]

theorem storeResult_results (t : Fin n) (r : Name) (a : Acquisition Guard) :
    (w.storeResult t r a).results = fun k => if k = r then some ⟨t, a⟩ else w.results k := by
  unfold storeResult
  split <;> simp [setResult]

@[simp] theorem storeGuard_frame (t : Fin n) (g : Name) (x : Guard) :
    (w.storeGuard t g x).results = w.results ∧ (w.storeGuard t g x).threads = w.threads := by
  unfold storeGuard
  split <;> simp [setGuard]

variable {w}

theorem hold_result {r : Name} {s : Slot n (Acquisition Guard)} (hs : w.results r = some s) :
    w.ledger.hold (.result r) = s.guard?.bind Slot.hold? := by simp [ledger, guardAt, hs]

theorem hold_guard {g : Name} {s : Slot n Guard} (hs : w.guards g = some s) :
    w.ledger.hold (.guard g) = s.hold? := by simp [ledger, guardAt, hs]

theorem ledger_storeResult {t : Fin n} {r : Name} (a : Acquisition Guard)
    (hr : Mine t (w.results r)) :
    (w.storeResult t r a).ledger =
      (w.ledger.surrender (.result r)).put (.result r) ((Slot.mk t a).guard?.bind Slot.hold?) := by
  unfold storeResult
  rw [ledger_setResult]
  cases hs : w.results r with
  | none =>
    have hp : w.ledger.hold (.result r) = none := by simp [ledger, guardAt, hs]
    simp [Ledger.surrender_of_none hp]
  | some old =>
    obtain rfl : old.thread = t := hr old hs
    simp [ledger_releaseResult, Ledger.surrender, hold_result hs]

theorem ledger_storeGuard {t : Fin n} {g : Name} (x : Guard) (hg : Mine t (w.guards g)) :
    (w.storeGuard t g x).ledger =
      (w.ledger.surrender (.guard g)).put (.guard g) (Slot.mk t x).hold? := by
  unfold storeGuard
  rw [ledger_setGuard]
  cases hs : w.guards g with
  | none =>
    have hp : w.ledger.hold (.guard g) = none := by simp [ledger, guardAt, hs]
    simp [Ledger.surrender_of_none hp]
  | some old =>
    obtain rfl : old.thread = t := hg old hs
    simp [ledger_release, Ledger.surrender, hold_guard hs]

theorem ledger_takeGuard (g : Name) (s : Slot n Guard) :
    (w.takeGuard g s).ledger = w.ledger.put (.guard g) none := by
  simp only [takeGuard, ledger_setGuard]
  rfl

theorem ledger_discardResult {r : Name} {s : Slot n (Acquisition Guard)}
    (hs : w.results r = some s) :
    (w.discardResult r s).ledger = w.ledger.surrender (.result r) := by
  simp [discardResult, ledger_setResult, ledger_releaseResult, Ledger.surrender, hold_result hs]

theorem ledger_discardGuard {g : Name} {s : Slot n Guard} (hs : w.guards g = some s) :
    (w.discardGuard g s).ledger = w.ledger.surrender (.guard g) := by
  simp [discardGuard, ledger_setGuard, ledger_release, Ledger.surrender, hold_guard hs]

/-- A guard that is released and stays where it is. -/
theorem ledger_release_takeGuard {g : Name} {s : Slot n Guard} (hs : w.guards g = some s) :
    ((w.release s.thread s.held).takeGuard g s).ledger = w.ledger.surrender (.guard g) := by
  simp [ledger_takeGuard, ledger_release, Ledger.surrender, hold_guard hs]

/-- Another mark on a result is no entry in the books. -/
theorem ledger_remark {r : Name} {s : Slot n (Acquisition Guard)} (hs : w.results r = some s)
    {a : Acquisition Guard} (ha : a.inner = s.held.inner) :
    (w.setResult r (some { s with held := a })).ledger = w.ledger := by
  rw [ledger_setResult]
  apply Ledger.put_of_eq
  simp [hold_result hs, Slot.guard?, Acquisition.payload?, ha]

theorem ledger_moveGuard {g dest : Name} {s : Slot n Guard} (hs : w.guards g = some s)
    (hd : Mine s.thread (w.guards dest)) (hne : g ≠ dest) :
    (w.moveGuard g dest s).ledger =
      (w.ledger.surrender (.guard dest)).move (.guard g) (.guard dest) := by
  have hp : Place.guard (n := n) g ≠ .guard dest := fun h => hne (Place.guard.inj h)
  have hd' : Mine s.thread ((w.takeGuard g s).guards dest) := by
    rwa [takeGuard, setGuard_ne _ _ (Ne.symm hne)]
  rw [moveGuard, if_neg hne, ledger_storeGuard _ hd', ledger_takeGuard, Ledger.surrender_put _ hp]
  simp [Ledger.move, Ledger.hold_surrender_of_ne _ hp, hold_guard hs]

theorem ledger_unpack {r g : Name} {s : Slot n (Acquisition Guard)} {x : Guard}
    (hs : w.results r = some s) (hx : s.held.inner = .ok x) (hg : Mine s.thread (w.guards g)) :
    (((w.setResult r (some { s with held := s.held.mapValue Guard.vacated }))).storeGuard
      s.thread g x).ledger = (w.ledger.surrender (.guard g)).move (.result r) (.guard g) := by
  have hp : Place.result (n := n) r ≠ .guard g := by simp
  have hleft : (Slot.guard? { s with held := s.held.mapValue Guard.vacated }).bind Slot.hold? =
      none := by simp [Slot.guard?, Acquisition.payload?, Acquisition.mapValue, hx]
  rw [ledger_storeGuard _ (by simpa [setResult] using hg), ledger_setResult, Option.bind_some,
    hleft, Ledger.surrender_put _ hp]
  simp [Ledger.move, Ledger.hold_surrender_of_ne _ hp, hold_result hs, Slot.guard?,
    Acquisition.payload?, hx]

@[simp] theorem setGuard_setGuard (g : Name) (x y : Option (Slot n Guard)) :
    (w.setGuard g x).setGuard g y = w.setGuard g y := by
  simp only [setGuard, World.mk.injEq, true_and, and_true]
  funext k
  split <;> rfl

theorem setGuard_comm {g k : Name} (h : g ≠ k) (x y : Option (Slot n Guard)) :
    (w.setGuard g x).setGuard k y = (w.setGuard k y).setGuard g x := by
  simp only [setGuard, World.mk.injEq, true_and, and_true]
  funext i
  split <;> split <;> simp_all

/-- Over a guard that holds nothing there is nothing to release. -/
theorem storeGuard_of_vacated {t u : Fin n} {g : Name} {x y : Guard}
    (hg : w.guards g = some ⟨u, x.vacated⟩) : w.storeGuard t g y = w.setGuard g (some ⟨t, y⟩) := by
  simp only [storeGuard, hg]
  rfl

/-- Nothing is released while two guards change places. -/
theorem swapGuards_eq {g dest : Name} {other : Slot n Guard} (s : Slot n Guard)
    (ho : w.guards dest = some other) :
    w.swapGuards g dest s = (w.setGuard g (some other)).setGuard dest (some s) := by
  by_cases hne : g = dest
  · subst hne
    simp only [swapGuards, takeGuard, moveGuard, setGuard_self, if_true]
    rw [storeGuard_of_vacated (setGuard_self _ _ _)]
    simp
  · have hd : (w.takeGuard g s).guards dest = some other := by
      rw [takeGuard, setGuard_ne _ _ (Ne.symm hne), ho]
    have hg : ((w.takeGuard g s).takeGuard dest other).guards g =
        some ⟨s.thread, s.held.vacated⟩ := by
      rw [takeGuard, setGuard_ne _ _ hne, takeGuard, setGuard_self]
    have hd' : (((w.takeGuard g s).takeGuard dest other).setGuard g (some other)).guards dest =
        some ⟨other.thread, other.held.vacated⟩ := by
      rw [setGuard_ne _ _ (Ne.symm hne), takeGuard, setGuard_self]
    simp only [swapGuards, hd, moveGuard, if_neg (Ne.symm hne)]
    rw [storeGuard_of_vacated hg, storeGuard_of_vacated hd']
    simp only [takeGuard]
    rw [setGuard_comm (Ne.symm hne), setGuard_setGuard, setGuard_setGuard]

theorem ledger_swapGuards {g dest : Name} {s other : Slot n Guard} (hs : w.guards g = some s)
    (ho : w.guards dest = some other) :
    (w.swapGuards g dest s).ledger = w.ledger.swap (.guard g) (.guard dest) := by
  rw [swapGuards_eq s ho, ledger_setGuard, ledger_setGuard]
  ext1
  · funext p
    by_cases hd : p = .guard dest
    · simp [Ledger.swap, Ledger.put, hd, hold_guard hs]
    · by_cases hg : p = .guard g
      · have hne : Place.guard (n := n) g ≠ .guard dest := hg ▸ hd
        simp [Ledger.swap, Ledger.put, hg, hne, hold_guard ho]
      · simp [Ledger.swap, Ledger.put, hd, hg, Equiv.swap_apply_of_ne_of_ne]
  all_goals rfl

end World
end Guarded
end CheckedLock
