import CheckedLock.Proofs.Guarded.Conservation

/-! The values behind the locks. What a turn does to them is one overwriting at most: the first
value of a new mutex, or an edit behind a lock that the thread of the turn holds. -/
namespace CheckedLock
namespace Guarded

variable {n : Nat}

/-- A value at one name, over what was there. -/
def assign (f : Name → Option Payload) : Option (Name × Payload) → Name → Option Payload
  | none => f
  | some (m, p) => Function.update f m (some p)

@[simp] theorem assign_none (f : Name → Option Payload) : assign f none = f := rfl

@[simp] theorem assign_some (f : Name → Option Payload) (m : Name) (p : Payload) :
    assign f (some (m, p)) = Function.update f m (some p) := rfl

/-- What an acquisition for this purpose leaves in the place of the value, if it touches it. -/
def Purpose.leaves? : Purpose → Payload → Option Payload
  | .takeValue, p => some p.husk
  | .decode d, p => d.read? p.kind
  | .keep _, _ | .encode, _ => none

/-- The first value of the mutex that a turn creates. -/
def Turn.made? : Turn n → Option (Name × Payload)
  | .start _ (.mutex m (.create p)) => some (m, p)
  | .start _ _ | .wake _ | .finish _ => none

namespace World

def value? (w : World n) (m : Name) : Option Payload := (w.mutexes m).map (·.value)

/-- What a turn puts behind which lock: a write through the guard that has the lock, or what an
acquisition that got it was for. -/
def edit? (w : World n) : Turn n → Option (Name × Payload)
  | .start _ (.guard g (.write p)) => ((w.guards g).bind (·.held.lock)).map (·, p)
  | .start _ (.result r (.write p)) =>
    ((w.results r).bind fun s => s.held.content.toOption.bind (·.lock)).map (·, p)
  | .finish t => (w.threads t).arrived.bind fun a =>
    if a.verdict.holds then ((w.value? a.mutex).bind a.purpose.leaves?).map (a.mutex, ·) else none
  | .start _ _ | .wake _ => none

section Frame

variable (w : World n)

@[simp] theorem value?_note (e : Event n) : (w.note e).value? = w.value? := rfl

@[simp] theorem value?_setResult (r : Name) (x : Option (Slot n (Acquisition Guard))) :
    (w.setResult r x).value? = w.value? := rfl

@[simp] theorem value?_setGuard (g : Name) (x : Option (Slot n Guard)) :
    (w.setGuard g x).value? = w.value? := rfl

@[simp] theorem value?_setThread (t : Fin n) (x : ThreadState) :
    (w.setThread t x).value? = w.value? := rfl

@[simp] theorem value?_noteAll (m : Name) (t : Fin n) (seen : List Notice) :
    (w.noteAll m t seen).value? = w.value? := by
  induction seen generalizing w with
  | nil => rfl
  | cons x seen ih => exact ih (w.note (.noticed m t x))

theorem value?_setMutex (m : Name) (x : Mutex n) :
    (w.setMutex m x).value? = Function.update w.value? m (some x.value) := by
  funext k
  by_cases hk : k = m
  · subst hk; simp [value?]
  · simp [value?, setMutex_ne _ _ hk, hk]

variable {w} in
/-- Another core under the same value. -/
theorem value?_setMutex_core {m : Name} {x : Mutex n} (hx : w.mutexes m = some x)
    (c : Core (Fin n)) : (w.setMutex m { x with core := c }).value? = w.value? := by
  rw [value?_setMutex]
  apply Function.update_eq_self_iff.mpr
  simp [value?, hx]

@[simp] theorem value?_throw (t : Fin n) : (w.throw t).value? = w.value? := rfl

@[simp] theorem value?_catch (t : Fin n) : (w.catch_ t).value? = w.value? := rfl

@[simp] theorem value?_release (t : Fin n) (g : Guard) : (w.release t g).value? = w.value? := by
  cases hl : g.lock with
  | none => simp [release, hl]
  | some m =>
    cases hx : w.mutexes m with
    | none => simp [release, hl, hx]
    | some x => simp [release, hl, hx, Core.call_release, value?_setMutex_core hx]

@[simp] theorem value?_releaseResult (t : Fin n) (a : Acquisition Guard) :
    (w.releaseResult t a).value? = w.value? := by
  unfold releaseResult
  split <;> simp

@[simp] theorem value?_storeResult (t : Fin n) (r : Name) (a : Acquisition Guard) :
    (w.storeResult t r a).value? = w.value? := by
  unfold storeResult
  split <;> simp

@[simp] theorem value?_storeGuard (t : Fin n) (g : Name) (x : Guard) :
    (w.storeGuard t g x).value? = w.value? := by
  unfold storeGuard
  split <;> simp

@[simp] theorem value?_takeGuard (g : Name) (s : Slot n Guard) :
    (w.takeGuard g s).value? = w.value? := rfl

@[simp] theorem value?_moveGuard (g dest : Name) (s : Slot n Guard) :
    (w.moveGuard g dest s).value? = w.value? := by
  unfold moveGuard
  split <;> simp

@[simp] theorem value?_swapGuards (g dest : Name) (s : Slot n Guard) :
    (w.swapGuards g dest s).value? = w.value? := by
  simp only [swapGuards, value?_storeGuard]
  split <;> simp

@[simp] theorem value?_unpack (r g : Name) (s : Slot n (Acquisition Guard))
    (e : Except Misuse Guard) : (w.unpack r g s e).1.value? = w.value? := by
  cases e <;> simp [unpack]

@[simp] theorem value?_discardResult (r : Name) (s : Slot n (Acquisition Guard)) :
    (w.discardResult r s).value? = w.value? := by simp [discardResult]

@[simp] theorem value?_discardGuard (g : Name) (s : Slot n Guard) :
    (w.discardGuard g s).value? = w.value? := by simp [discardGuard]

end Frame

variable {w v : World n} {t : Fin n} {m : Name} {q : Place n} {g : Guard}

/-- An attempt is not about the value. -/
theorem value?_arrive {x : Mutex n} (hx : w.mutexes m = some x) (p : Purpose)
    (c : Core.Course (Fin n)) : (w.arrive t m x p c).value? = w.value? := by
  unfold arrive
  split <;> simp [value?_setMutex_core hx]

theorem value?_enter (polling : Bool) (p : Purpose) :
    (w.enter t m polling p).1.value? = w.value? := by
  unfold enter
  split
  · rfl
  · next x hx => exact value?_arrive hx p _

namespace Orderly

variable (hw : w.Orderly)
include hw

/-- A guard with a lock opens the mutex. -/
theorem access_of_lock (hq : w.guardAt q = some ⟨t, g⟩) (hl : g.lock = some m) :
    g.access = .ok m ∧ ∃ x, w.mutexes m = some x := by
  constructor
  · have ht : g.target = some m := (hw.paired q _ hq).trans hl
    simp [Guard.access, ht]
  · exact exists_mutex (hw.known_of_locks ⟨g, hq, hl⟩)

theorem access_of_unlocked (hq : w.guardAt q = some ⟨t, g⟩) (hl : g.lock = none) :
    g.access = .error .accessWithoutLock := by
  have ht : g.target = none := (hw.paired q _ hq).trans hl
  simp [Guard.access, ht]

theorem valueOf_of_lock (hq : w.guardAt q = some ⟨t, g⟩) (hl : g.lock = some m) :
    ∃ p, w.value? m = some p ∧ w.valueOf g = .ok p := by
  obtain ⟨ha, x, hx⟩ := hw.access_of_lock hq hl
  exact ⟨x.value, by simp [value?, hx], by simp [valueOf, ha, hx]⟩

theorem valueOf_of_unlocked (hq : w.guardAt q = some ⟨t, g⟩) (hl : g.lock = none) :
    w.valueOf g = .error .accessWithoutLock := by
  simp [valueOf, hw.access_of_unlocked hq hl]

theorem writeThrough_of_unlocked (hq : w.guardAt q = some ⟨t, g⟩) (hl : g.lock = none)
    (p : Payload) : w.writeThrough g p = (w, .misuse .accessWithoutLock) := by
  simp [writeThrough, hw.access_of_unlocked hq hl]

theorem value?_writeThrough (hq : w.guardAt q = some ⟨t, g⟩) (p : Payload) :
    (w.writeThrough g p).1.value? = assign w.value? (g.lock.map (·, p)) := by
  cases hl : g.lock with
  | none => simp [hw.writeThrough_of_unlocked hq hl]
  | some m =>
    obtain ⟨ha, x, hx⟩ := hw.access_of_lock hq hl
    simp [writeThrough, ha, hx, value?_setMutex]

end Orderly

theorem guardAt_result {r : Name} {s : Slot n (Acquisition Guard)} (hs : w.results r = some s)
    (hi : s.held.inner = .ok g) : w.guardAt (.result r) = some ⟨s.thread, g⟩ := by
  simp [guardAt, hs, Slot.guard?, Acquisition.payload?, hi]

theorem guardAt_hand {a : Arrival} (ha : (w.threads t).arrived = some a)
    (hv : a.verdict.holds = true) :
    w.guardAt (.hand t) = some ⟨t, .holding a.mutex a.depth⟩ := by
  simp [guardAt, ha, Arrival.guard?, hv]

theorem Orderly.value?_onResult (hw : w.Orderly) {r : Name} {s : Slot n (Acquisition Guard)}
    {o : ResultOp} {reply : Reply} (hs : w.results r = some s)
    (h : w.onResult r s o = .ok (v, reply)) :
    v.value? = assign w.value? (w.edit? (.start t (.result r o))) := by
  cases o with
  | write p =>
    obtain he := congrArg Prod.fst (Except.ok.inj h)
    cases hc : s.held.content with
    | error e =>
      simp only [hc] at he
      simp [← he, edit?, hs, hc, Except.toOption]
    | ok g =>
      simp only [hc] at he
      simp [← he, edit?, hs, hc, Except.toOption,
        hw.value?_writeThrough (guardAt_result hs (inner_of_content hc))]
  | panicIfPoison | apply =>
    obtain ⟨a, -, hb⟩ := except_map_eq_ok h
    obtain ⟨rfl, -⟩ := Prod.mk.inj hb
    rfl
  | status | error | read | ignorePoison =>
    obtain ⟨rfl, -⟩ := Prod.mk.inj (Except.ok.inj h)
    rfl
  | content | intoValue | drop =>
    obtain rfl := congrArg Prod.fst (Except.ok.inj h)
    simp [edit?]

theorem Orderly.value?_onGuard (hw : w.Orderly) {k : Name} {s : Slot n Guard} {o : GuardOp}
    {reply : Reply} (hs : w.guards k = some s) (h : w.onGuard k s o = .ok (v, reply)) :
    v.value? = assign w.value? (w.edit? (.start t (.guard k o))) := by
  cases o with
  | write p =>
    obtain rfl := congrArg Prod.fst (Except.ok.inj h)
    simpa [edit?, hs] using hw.value?_writeThrough (q := .guard k) hs p
  | panic => cases h
  | swap dest =>
    obtain rfl := congrArg Prod.fst (Except.ok.inj h)
    split <;> simp [edit?]
  | holds | read | size | format | log =>
    obtain ⟨rfl, -⟩ := Prod.mk.inj (Except.ok.inj h)
    rfl
  | release | move | drop =>
    obtain rfl := congrArg Prod.fst (Except.ok.inj h)
    simp [edit?]

theorem Orderly.value?_start (hw : w.Orderly) {o : Op} {answer : Option Reply}
    (h : w.start t o = .ok (v, answer)) :
    v.value? = assign w.value? ((Turn.start t o).made?.or (w.edit? (.start t o))) := by
  cases o with
  | throw | catch_ => obtain ⟨rfl, -⟩ := Prod.mk.inj (Except.ok.inj h); rfl
  | result r o =>
    simp only [start] at h
    cases hs : w.results r with
    | none =>
      simp only [hs] at h
      obtain ⟨rfl, -⟩ := Prod.mk.inj (Except.ok.inj h)
      cases o <;> simp [Turn.made?, edit?, hs]
    | some s =>
      simp only [hs] at h
      obtain ⟨⟨v', reply⟩, hv, he⟩ := except_map_eq_ok h
      obtain ⟨rfl, -⟩ := Prod.mk.inj he
      simpa [Turn.made?] using hw.value?_onResult hs hv
  | guard g o =>
    simp only [start] at h
    cases hs : w.guards g with
    | none =>
      simp only [hs] at h
      obtain ⟨rfl, -⟩ := Prod.mk.inj (Except.ok.inj h)
      cases o <;> simp [Turn.made?, edit?, hs]
    | some s =>
      simp only [hs] at h
      obtain ⟨⟨v', reply⟩, hv, he⟩ := except_map_eq_ok h
      obtain ⟨rfl, -⟩ := Prod.mk.inj he
      simpa [Turn.made?] using hw.value?_onGuard hs hv
  | mutex m o =>
    obtain rfl := congrArg Prod.fst (Except.ok.inj h)
    cases o with
    | create p => simp [Turn.made?, onMutex, value?_setMutex]
    | lockedByMe | isPoisoned => rfl
    | lock | tryLock | intoInner | toJson | fromJson =>
      simp [Turn.made?, edit?, onMutex, value?_enter]

theorem value?_conclude {a : Arrival} {x : Mutex n} :
    (w.conclude t x a).1.value? = assign w.value?
      (if a.verdict.holds then (a.purpose.leaves? x.value).map (a.mutex, ·) else none) := by
  cases hp : a.purpose with
  | keep r => simp [conclude, hp, Purpose.leaves?]
  | encode => simp only [conclude, hp]; split <;> simp [Purpose.leaves?]
  | takeValue => simp only [conclude, hp]; split <;> simp [Purpose.leaves?, value?_setMutex]
  | decode d =>
    simp only [conclude, hp]
    split
    · cases hd : d.read? x.value.kind <;>
        simp [decodeInto, hd, Purpose.leaves?, value?_setMutex]
    · simp

/-- What a turn does to the values. -/
theorem Orderly.value?_turn (hw : w.Orderly) {k : Turn n} {reply : Option Reply}
    (h : w.turn k = some (v, reply)) : v.value? = assign w.value? (k.made?.or (w.edit? k)) := by
  cases k with
  | start t o =>
    simp only [World.turn] at h
    split at h
    · cases hs : w.start t o with
      | error e => simp [hs, Except.toOption] at h
      | ok y =>
        obtain ⟨v', answer⟩ := y
        obtain ⟨rfl, -⟩ : v' = v ∧ answer = reply := by simpa [hs, Except.toOption] using h
        exact hw.value?_start hs
    · cases h
  | wake t =>
    obtain ⟨y, hy, he⟩ := Option.map_eq_some_iff.mp h
    obtain ⟨rfl, -⟩ := Prod.mk.inj he
    obtain ⟨p, x, -, hx, -, rfl⟩ := hw.wake_eq hy
    exact value?_arrive (w := w.roused t) hx _ _
  | finish t =>
    simp only [World.turn] at h
    split at h
    · next ha =>
      obtain ⟨a, ha⟩ := Option.isSome_iff_exists.mp ha
      obtain ⟨rfl, -⟩ := Prod.mk.inj (Option.some.inj h)
      obtain ⟨-, x, hx, hfin⟩ := hw.finish_eq ha
      have hval : w.value? a.mutex = some x.value := by simp [value?, hx]
      rw [hfin, value?_conclude]
      simp [Turn.made?, edit?, ha, hval, laidDown]
    · cases h

/-- Who edits a value holds its lock. -/
theorem locks_of_edit {k : Turn n} {p : Payload} (ha : w.Allows k)
    (he : w.edit? k = some (m, p)) : ∃ q, w.Locks q m k.thread := by
  unfold edit? at he
  split at he
  · next t g p' =>
    obtain ⟨k, hk, he⟩ := Option.map_eq_some_iff.mp he
    obtain ⟨rfl, -⟩ := Prod.mk.inj he
    obtain ⟨s, hs, hl⟩ := Option.bind_eq_some_iff.mp hk
    obtain rfl : s.thread = t := ha s hs
    exact ⟨.guard g, s.held, hs, hl⟩
  · next t r p' =>
    obtain ⟨k, hk, he⟩ := Option.map_eq_some_iff.mp he
    obtain ⟨rfl, -⟩ := Prod.mk.inj he
    obtain ⟨s, hs, hl⟩ := Option.bind_eq_some_iff.mp hk
    obtain rfl : s.thread = t := ha s hs
    obtain ⟨g, hg, hl⟩ := Option.bind_eq_some_iff.mp hl
    have hc : s.held.content = .ok g := by
      cases hc : s.held.content <;> simp_all [Except.toOption]
    exact ⟨.result r, g, guardAt_result hs (inner_of_content hc), hl⟩
  · next t =>
    obtain ⟨a, harr, he⟩ := Option.bind_eq_some_iff.mp he
    split at he
    · next hv =>
      obtain ⟨p', -, he⟩ := Option.map_eq_some_iff.mp he
      obtain ⟨rfl, -⟩ := Prod.mk.inj he
      exact ⟨.hand t, _, guardAt_hand harr hv, rfl⟩
    · cases he
  all_goals cases he

end World
end Guarded
end CheckedLock
