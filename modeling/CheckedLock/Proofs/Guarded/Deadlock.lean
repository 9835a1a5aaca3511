import CheckedLock.Proofs.Guarded.Conservation
import Mathlib.Dynamics.PeriodicPts.Defs
import Mathlib.Data.Fintype.Pigeonhole

/-! Deadlock. Only an acquisition that may wait suspends its thread, and only on a mutex that
another thread holds. When nothing can go on any more and whoever is not suspended has no guard
left, the suspended threads wait for each other in a ring. -/
namespace CheckedLock
namespace Guarded

variable {n : Nat}

/-- Whether the operation waits for a mutex that is taken. -/
def MutexOp.mayWait : MutexOp → Bool
  | .lock _ | .intoInner | .toJson | .fromJson _ => true
  | .create _ | .tryLock _ | .lockedByMe | .isPoisoned => false

/-- What the operation acquires its mutex for. -/
def MutexOp.purpose? : MutexOp → Option Purpose
  | .lock r | .tryLock r => some (.keep r)
  | .intoInner => some .takeValue
  | .toJson => some .encode
  | .fromJson d => some (.decode d)
  | .create _ | .lockedByMe | .isPoisoned => none

/-- If each member of a finite family has a successor in it, and none is its own, then some members
follow each other in a ring. -/
theorem exists_ring {α : Type} [Finite α] {r : α → α → Prop} {p : α → Prop}
    (hnext : ∀ a, p a → ∃ b, r a b ∧ p b) (hself : ∀ a, p a → ¬ r a a) {a : α} (ha : p a) :
    ∃ c : Cycle α, 2 ≤ c.length ∧ c.Nodup ∧ c.Chain r := by
  choose next hr hp using hnext
  let f : {a // p a} → {a // p a} := fun x => ⟨next x x.2, hp x x.2⟩
  obtain ⟨i, j, hij, he⟩ := Finite.exists_ne_map_eq_of_infinite fun k : ℕ => f^[k] ⟨a, ha⟩
  wlog hlt : i < j generalizing i j
  · exact this j i hij.symm he.symm (by omega)
  -- the walk along `next` comes back to its `i`-th member
  let x := f^[i] ⟨a, ha⟩
  have hx : x ∈ Function.periodicPts f := by
    refine Function.mk_mem_periodicPts (n := j - i) (by omega) ?_
    show f^[j - i] (f^[i] ⟨a, ha⟩) = f^[i] ⟨a, ha⟩
    rw [← Function.iterate_add_apply, Nat.sub_add_cancel hlt.le]
    exact he.symm
  have hpos := Function.minimalPeriod_pos_of_mem_periodicPts hx
  have hne : Function.minimalPeriod f x ≠ 1 := by
    intro h₁
    have hfix : f x = x := Function.minimalPeriod_eq_one_iff_isFixedPt.mp h₁
    have hrx : r x (f x) := hr x x.2
    rw [hfix] at hrx
    exact hself x x.2 hrx
  refine ⟨(Function.periodicOrbit f x).map Subtype.val, ?_, ?_, ?_⟩
  · rw [Function.periodicOrbit, Cycle.map_coe, Cycle.length_coe, List.length_map,
      List.length_map, List.length_range]
    omega
  · exact Function.nodup_periodicOrbit.map Subtype.val_injective
  · rw [Cycle.chain_map, Function.periodicOrbit_chain' _ hx]
    intro k
    rw [Function.iterate_succ_apply']
    exact hr _ (f^[k] x).2

/-- The holder of a lock is still the same if another thread did the last deed. -/
theorem current_of_cons {m : Name} {t : Fin n} {before : List Nat} {d : Deed n}
    {h : List (Deed n)} (hc : current m (d :: h) = some (t, before)) (hd : d.thread ≠ t) :
    current m h = some (t, before) := by
  cases d with
  | acquired k u v F =>
    simp only [current] at hc
    split at hc
    · obtain ⟨rfl, -⟩ := Prod.mk.inj (Option.some.inj hc)
      exact absurd rfl hd
    · exact hc
  | released k u F =>
    simp only [current] at hc
    split at hc
    · cases hc
    · exact hc

namespace World

/-- The mutex on which thread `t` is suspended. -/
def awaits (w : World n) (t : Fin n) : Option Name := (w.threads t).pending.map (·.mutex)

def Holds (w : World n) (t : Fin n) (m : Name) : Prop :=
  ∃ x, w.mutexes m = some x ∧ x.core.inside = some t

/-- Thread `t` is suspended on a mutex that `u` holds. -/
def WaitsFor (w : World n) (t u : Fin n) : Prop := ∃ m, w.awaits t = some m ∧ w.Holds u m

/-- Thread `t` has no guard object, neither in a result or a guard slot nor in its hand. -/
def Unarmed (w : World n) (t : Fin n) : Prop := ∀ p, ∀ s ∈ w.guardAt p, s.thread ≠ t

/-- No free mutex has a suspended waiter. -/
def Jammed (w : World n) : Prop :=
  ∀ t m x, w.awaits t = some m → w.mutexes m = some x → x.core.inside ≠ none

/-- The worlds of runs in which only thread `t` takes turns. -/
inductive Solo (t : Fin n) : World n → Prop
  | initial : Solo t {}
  | turn {w v : World n} {x : Turn n} {reply : Option Reply} :
    Solo t w → x.thread = t → w.Allows x → w.turn x = some (v, reply) → Solo t v

/-- What suspension comes to. -/
structure Waiting (w : World n) : Prop where
  /-- The mutex is another thread's, or it is free and the thread can go on. -/
  on_other : ∀ {t m}, w.awaits t = some m → ¬ w.Holds t m ∧
    ((∃ u, u ≠ t ∧ w.Holds u m) ∨ (w.wake? t).isSome)
  /-- A turn suspends nobody but its thread, at the start of an operation that may wait, and another
  thread holds the mutex then. -/
  begins : ∀ {k v reply}, w.Allows k → w.turn k = some (v, reply) → ∀ {t m}, v.awaits t = some m →
    w.awaits t = some m ∨ ∃ o u, k = .start t (.mutex m o) ∧ o.mayWait = true ∧ u ≠ t ∧
      w.Holds u m ∧ v.Holds u m
  ring : w.Jammed → (∀ t, w.isWaiting t = false → w.Unarmed t) → ∀ {t}, w.isWaiting t = true →
    ∃ c : Cycle (Fin n), 2 ≤ c.length ∧ c.Nodup ∧ c.Chain w.WaitsFor
  alone : ∀ {t}, w.Solo t → ∀ u, w.isWaiting u = false

variable {w v : World n} {t u : Fin n} {m : Name}

theorem awaits_eq_some : w.awaits t = some m ↔
    ∃ p, (w.threads t).pending = some p ∧ p.mutex = m := Option.map_eq_some_iff

theorem isWaiting_iff : w.isWaiting t = true ↔ ∃ m, w.awaits t = some m := by
  rw [isWaiting, ← Option.isSome_map (f := Pending.mutex), Option.isSome_iff_exists]
  rfl

theorem holds_iff_core : w.Holds t m ↔ ∃ c, w.ledger.core m = some c ∧ c.inside = some t := by
  simp [Holds, ledger]

/-- An operation without an answer yet enters a mutex; it polls unless it may wait. -/
theorem start_enters {o : Op} (h : w.start t o = .ok (v, none)) :
    ∃ m mo x p, o = .mutex m mo ∧ mo.purpose? = some p ∧ w.mutexes m = some x ∧
      v = w.arrive t m x p (x.core.call t (.acquire (!mo.mayWait))) := by
  have answered : ∀ {α : Type} {e : Except Panic (World n × Reply)} {f : Reply → α},
      e.map (fun y => (y.1, some (f y.2))) ≠ .ok (v, none) := by
    intro α e f he
    obtain ⟨y, -, hy⟩ := except_map_eq_ok he
    cases hy
  cases o with
  | throw | catch_ => cases h
  | result r o =>
    simp only [start] at h
    split at h
    · cases h
    · exact absurd h (answered (f := id))
  | guard g o =>
    simp only [start] at h
    split at h
    · cases h
    · exact absurd h (answered (f := id))
  | mutex m mo =>
    have entered : ∀ p, mo.purpose? = some p → w.enter t m (!mo.mayWait) p = (v, none) →
        ∃ k o x p, Op.mutex m mo = .mutex k o ∧ o.purpose? = some p ∧ w.mutexes k = some x ∧
          v = w.arrive t k x p (x.core.call t (.acquire (!o.mayWait))) := by
      intro p hp he
      unfold enter at he
      split at he
      · cases he
      · next x hx => exact ⟨m, mo, x, p, rfl, hp, hx, (congrArg Prod.fst he).symm⟩
    have h := Except.ok.inj h
    cases mo with
    | create | lockedByMe | isPoisoned => cases h
    | lock | tryLock | intoInner | toJson | fromJson => exact entered _ rfl h

/-- An attempt that leaves its thread suspended has found another thread inside. -/
theorem Orderly.arrive_waits (hw : w.Orderly) {x : Mutex n} {p : Purpose} {q : Pending}
    {polling : Bool} (hx : w.mutexes m = some x) (hr : w.isResting t = true)
    (hq : ((w.arrive t m x p (x.core.call t (.acquire polling))).threads t).pending = some q) :
    q.mutex = m ∧ polling = false ∧ (∃ u, u ≠ t ∧ x.core.inside = some u) ∧
      (w.arrive t m x p (x.core.call t (.acquire polling))).ledger = w.ledger := by
  have hfree : (w.threads t).pending = none := (isResting_iff.mp hr).1
  have hcall := attempt_of_call (t := t) (hw.sound.holder_eq_inside (ledger_core hx)) polling
  generalize x.core.call t (.acquire polling) = c at hq hcall ⊢
  cases hcall with
  | own | granted | turnedAway =>
    rw [arrive_answered_threads] at hq
    cases hfree.symm.trans hq
  | waits hin hne hpoll =>
    rw [arrive_waiting_threads] at hq
    obtain rfl := Option.some.inj hq
    exact ⟨rfl, hpoll, ⟨_, hne, hin⟩, ledger_arrive_waiting hx _ _⟩

/-- A thread that is suspended after its own turn has just started to wait for another one. -/
theorem Orderly.suspends (hw : w.Orderly) {k : Turn n} {reply : Option Reply} (hk : w.Allows k)
    (h : w.turn k = some (v, reply)) {q : Pending}
    (hq : (v.threads k.thread).pending = some q) : ∃ o u, k = .start k.thread (.mutex q.mutex o) ∧
      o.mayWait = true ∧ u ≠ k.thread ∧ w.Holds u q.mutex ∧ v.ledger = w.ledger := by
  cases k with
  | start t o =>
    simp only [World.turn] at h
    split at h
    case isFalse => cases h
    case isTrue hr =>
      cases hs : w.start t o with
      | error e => simp [hs, Except.toOption] at h
      | ok y =>
        obtain ⟨v', answer⟩ := y
        obtain ⟨rfl, -⟩ : v' = v ∧ answer = reply := by simpa [hs, Except.toOption] using h
        obtain ⟨-, hc⟩ | ⟨rfl, -⟩ := start_cases hk hs
        · -- what answers at once leaves its thread as it was
          cases (isResting_iff.mp hr).1.symm.trans (hc.calm.pending.symm.trans hq)
        · obtain ⟨m, mo, x, p, rfl, -, hx, rfl⟩ := start_enters hs
          obtain ⟨rfl, hpoll, ⟨u, hu, hin⟩, hl⟩ := hw.arrive_waits hx hr hq
          exact ⟨mo, u, rfl, by simpa using hpoll, hu, ⟨x, hx, hin⟩, hl⟩
  | wake t =>
    obtain ⟨y, hy, he⟩ := Option.map_eq_some_iff.mp h
    obtain ⟨rfl, -⟩ := Prod.mk.inj he
    obtain ⟨p, x, -, -, -, rfl⟩ := hw.wake_eq hy
    rw [show (Turn.wake t).thread = t from rfl, arrive_answered_threads] at hq
    simp at hq
  | finish t =>
    simp only [World.turn] at h
    split at h
    case isFalse => cases h
    case isTrue ha =>
      obtain ⟨a, ha⟩ := Option.isSome_iff_exists.mp ha
      obtain ⟨rfl, -⟩ := Prod.mk.inj (Option.some.inj h)
      cases ((hw.finish_eq ha).1.symm.trans (finish_pending w t).symm).trans hq

theorem Orderly.holds_iff (hw : w.Orderly) :
    w.Holds t m ↔ ∃ before, current m w.history = some (t, before) := by
  constructor
  · rintro ⟨x, hx, hin⟩
    exact (hw.inside_iff hx t).mp hin
  · intro hc
    obtain ⟨p, hp⟩ := (hw.locks_iff_current t m).mpr hc
    obtain ⟨x, hx⟩ := exists_mutex (hw.known_of_locks hp)
    exact ⟨x, hx, (hw.inside_iff hx t).mpr hc⟩

/-- Other threads do not make a thread the holder of a mutex. -/
theorem Orderly.holds_of_turn (hw : w.Orderly) {k : Turn n} {reply : Option Reply}
    (hk : w.Allows k) (h : w.turn k = some (v, reply)) (hu : u ≠ k.thread) (hm : v.Holds u m) :
    w.Holds u m := by
  have hadv := hw.turn hk h
  obtain ⟨before, hc⟩ := (hw.advance hadv).holds_iff.mp hm
  refine hw.holds_iff.mpr ⟨before, ?_⟩
  obtain he | ⟨d, hd, he, -⟩ := hadv.posting.history
  · exact (show v.history = w.history from he) ▸ hc
  · exact current_of_cons ((show v.history = d :: w.history from he) ▸ hc) (hd ▸ hu.symm)

/-- Nobody comes to hold the mutex that he is suspended on. -/
theorem Reachable.not_own (h : w.Reachable) (hm : w.awaits t = some m) : ¬ w.Holds t m := by
  induction h with
  | initial => cases hm
  | @turn w v k reply hr ha ht ih =>
    have hw := hr.orderly
    intro hold
    obtain ⟨q, hq, rfl⟩ := awaits_eq_some.mp hm
    by_cases htk : t = k.thread
    · subst htk
      obtain ⟨o, u, -, -, hu, hheld, hl⟩ := hw.suspends ha ht hq
      obtain ⟨c, hc, hin⟩ := holds_iff_core.mp hold
      obtain ⟨d, hd, hin'⟩ := holds_iff_core.mp hheld
      rw [hl] at hc
      obtain rfl := Option.some.inj (hc.symm.trans hd)
      exact hu (Option.some.inj (hin'.symm.trans hin))
    · rw [(hw.turn ha ht).others t htk] at hq
      exact ih (awaits_eq_some.mpr ⟨q, hq, rfl⟩) (hw.holds_of_turn ha ht htk hold)

/-- A free mutex lets its waiter go on. -/
theorem Orderly.held_or_wakes (hw : w.Orderly) (hm : w.awaits t = some m) :
    (∃ u, w.Holds u m) ∨ (w.wake? t).isSome = true := by
  obtain ⟨q, hq, rfl⟩ := awaits_eq_some.mp hm
  obtain ⟨hpoint, hknown, -⟩ := (hw.inOrder t).waits q hq
  obtain ⟨x, hx⟩ := exists_mutex hknown
  cases hin : x.core.inside with
  | some u => exact .inl ⟨u, x, hx, hin⟩
  | none => exact .inr (by simp [wake?, hq, hx, hpoint, Core.resume_entering_of_free _ hin])

/-- A thread that holds a mutex has a guard. -/
theorem Reachable.not_unarmed (h : w.Reachable) (hm : w.Holds t m) : ¬ w.Unarmed t := by
  obtain ⟨x, hx, hin⟩ := hm
  obtain ⟨p, g, hg, -⟩ := (h.orderly.inside_iff_locks hx t).mp hin
  exact fun hu => hu p _ hg rfl

theorem Reachable.exists_waitsFor (h : w.Reachable) (hjam : w.Jammed)
    (hrest : ∀ t, w.isWaiting t = false → w.Unarmed t) (ht : w.isWaiting t = true) :
    ∃ u, w.WaitsFor t u ∧ w.isWaiting u = true := by
  obtain ⟨m, hm⟩ := isWaiting_iff.mp ht
  obtain ⟨q, hq, rfl⟩ := awaits_eq_some.mp hm
  obtain ⟨x, hx⟩ := exists_mutex ((h.orderly.inOrder t).waits q hq).2.1
  obtain ⟨u, hu⟩ := Option.ne_none_iff_exists'.mp (hjam t _ x hm hx)
  refine ⟨u, ⟨_, hm, x, hx, hu⟩, ?_⟩
  by_contra hne
  exact h.not_unarmed ⟨x, hx, hu⟩ (hrest u (Bool.eq_false_iff.mpr hne))

theorem Solo.reachable (h : w.Solo t) : w.Reachable := by
  induction h with
  | initial => exact .initial
  | turn _ _ ha hk ih => exact ih.turn ha hk

/-- One thread alone does all the deeds, so nobody is in its way. -/
theorem Solo.never_waits (h : w.Solo t) :
    (∀ d ∈ w.history, d.thread = t) ∧ ∀ u, (w.threads u).pending = none := by
  induction h with
  | initial => exact ⟨nofun, fun _ => rfl⟩
  | @turn w v k reply hs hkt ha hk ih =>
    have hw := hs.reachable.orderly
    have hadv := hw.turn ha hk
    refine ⟨?_, fun u => ?_⟩
    · obtain he | ⟨d, hd, he, -⟩ := hadv.posting.history
      · rw [show v.history = w.history from he]
        exact ih.1
      · rw [show v.history = d :: w.history from he]
        exact List.forall_mem_cons.mpr ⟨hd.trans hkt, ih.1⟩
    · by_cases hu : u = k.thread
      · subst hu
        by_contra hne
        obtain ⟨q, hq⟩ := Option.ne_none_iff_exists'.mp hne
        obtain ⟨o, u, -, -, hu, hheld, -⟩ := hw.suspends ha hk hq
        obtain ⟨before, hc⟩ := hw.holds_iff.mp hheld
        obtain ⟨later, d, earlier, hh, -⟩ := exists_acquired_of_current hc
        exact hu ((ih.1 (.acquired q.mutex u d before) (by simp [hh])).trans hkt.symm)
      · rw [hadv.others u hu]
        exact ih.2 u

theorem Reachable.suspended_by_others (h : w.Reachable) : w.Waiting := by
  have hw := h.orderly
  constructor
  case on_other =>
    intro t m hm
    have hown := h.not_own hm
    refine ⟨hown, (hw.held_or_wakes hm).imp_left ?_⟩
    rintro ⟨u, hu⟩
    exact ⟨u, fun hut => hown (hut ▸ hu), hu⟩
  case begins =>
    intro k v reply ha hk t m hm
    obtain ⟨q, hq, rfl⟩ := awaits_eq_some.mp hm
    by_cases ht : t = k.thread
    · subst ht
      obtain ⟨o, u, hstart, hwait, hu, hheld, hl⟩ := hw.suspends ha hk hq
      refine .inr ⟨o, u, hstart, hwait, hu, hheld, ?_⟩
      rw [holds_iff_core, hl]
      exact holds_iff_core.mp hheld
    · rw [(hw.turn ha hk).others t ht] at hq
      exact .inl (awaits_eq_some.mpr ⟨q, hq, rfl⟩)
  case ring =>
    intro hjam hrest t ht
    have hself : ∀ u, w.isWaiting u = true → ¬ w.WaitsFor u u := by
      rintro u - ⟨m, hm, hown⟩
      exact h.not_own hm hown
    exact exists_ring (fun u hu => h.exists_waitsFor hjam hrest hu) hself ht
  case alone =>
    intro t ht u
    simp [isWaiting, ht.never_waits.2 u]

/-- Each of two threads holds one mutex and waits for the other one's. -/
theorem suspended_in_a_ring : ∃ w : World 2, w.Reachable ∧ w.Waiting ∧ w.WaitsFor 0 1 ∧
    w.WaitsFor 1 0 ∧ ∃ c : Cycle (Fin 2), 2 ≤ c.length ∧ c.Nodup ∧ c.Chain w.WaitsFor := by
  have h₁ := (Reachable.initial (n := 2)).turn (x := .start 0 (.mutex "a" (.create (.int 0))))
    rfl rfl
  have h₂ := h₁.turn (x := .start 0 (.mutex "b" (.create (.int 0)))) rfl rfl
  have h₃ := h₂.turn (x := .start 0 (.mutex "a" (.lock "r"))) ⟨nofun, fun u => nofun⟩ rfl
  have h₄ := h₃.turn (x := .finish 0) trivial rfl
  have h₅ := h₄.turn (x := .start 1 (.mutex "b" (.lock "s"))) ⟨nofun, by decide⟩ rfl
  have h₆ := h₅.turn (x := .finish 1) trivial rfl
  have h₇ := h₆.turn (x := .start 0 (.mutex "b" .toJson)) trivial rfl
  have h := h₇.turn (x := .start 1 (.mutex "a" .intoInner)) trivial rfl
  have hwaiting := h.suspended_by_others
  refine ⟨_, h, hwaiting, ⟨"b", rfl, _, rfl, rfl⟩, ⟨"a", rfl, _, rfl, rfl⟩,
    hwaiting.ring ?_ ?_ (t := 0) rfl⟩
  · refine Fin.forall_fin_two.mpr ⟨?_, ?_⟩ <;>
      · rintro m x ⟨⟩ ⟨⟩
        nofun
  · refine Fin.forall_fin_two.mpr ⟨?_, ?_⟩ <;> exact nofun

end World
end Guarded
end CheckedLock
