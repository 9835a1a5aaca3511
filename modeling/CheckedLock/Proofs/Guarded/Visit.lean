import CheckedLock.Proofs.Guarded.Chronicle
import CheckedLock.Proofs.Guarded.Deadlock
import CheckedLock.Proofs.Guarded.Relocation
import CheckedLock.Proofs.Lock.Documents

/-! Visits. Some operations take a mutex, do something with its value and give it back in the same
call. A thread that has the mutex is turned away and nothing happens; another one leaves the mutex
free behind it, whether it gets an answer or an exception, and nothing else changes. -/
namespace CheckedLock
namespace Guarded

variable {n : Nat}

/-- What the operation wants with the value if it gives the mutex back in the same call. -/
def MutexOp.visit? : MutexOp → Option Purpose
  | .intoInner => some .takeValue
  | .toJson => some .encode
  | .fromJson d => some (.decode d)
  | .create _ | .lock _ | .tryLock _ | .lockedByMe | .isPoisoned => none

theorem MutexOp.visit_cases {o : MutexOp} {p : Purpose} (h : o.visit? = some p) :
    (o = .intoInner ∧ p = .takeValue) ∨ (o = .toJson ∧ p = .encode) ∨
      ∃ d, o = .fromJson d ∧ p = .decode d := by
  cases o with
  | create | lock | tryLock | lockedByMe | isPoisoned => cases h
  | intoInner => exact .inl ⟨rfl, (Option.some.inj h).symm⟩
  | toJson => exact .inr (.inl ⟨rfl, (Option.some.inj h).symm⟩)
  | fromJson d => exact .inr (.inr ⟨d, rfl, (Option.some.inj h).symm⟩)

/-- The answer to a thread that has the mutex already. -/
inductive Rebuffed : MutexOp → Reply → Prop
  | intoInner : Rebuffed .intoInner (.taken ⟨false, false, false, some .lockedByCurrentThread⟩ none)
  | toJson : Rebuffed .toJson (.reentry .toJson .lockedByCurrentThread)
  | fromJson (d : Document) : Rebuffed (.fromJson d) (.reentry .fromJson .lockedByCurrentThread)

/-- The answer of a visit to a mutex with this value and this mark, and the two that it leaves. -/
inductive Visited (value : Payload) (poisoned : Bool) : MutexOp → Reply → Payload → Bool → Prop
  | taken : Visited value poisoned .intoInner
      (.taken ⟨!poisoned, true, poisoned, if poisoned then some .poisoned else none⟩ (some value))
      value.husk poisoned
  | written : Visited value poisoned .toJson (.document value.toJson) value poisoned
  | read {d : Document} {new : Payload} : Payload.Shaped value.kind d.json →
    d.read? value.kind = some new → Visited value poisoned (.fromJson d) .done new poisoned
  /-- The exception passes the guard, so it leaves its mark. -/
  | misshapen {d : Document} : ¬ Payload.Shaped value.kind d.json →
    Visited value poisoned (.fromJson d) .misshapen value true

namespace World

/-- What follows while thread `t` is amid an operation and does not take the last step of it. -/
inductive Amid (t : Fin n) (w : World n) : World n → Prop
  | refl : Amid t w w
  | turn {v u : World n} {k : Turn n} {reply : Option Reply} :
    Amid t w v → k ≠ .finish t → v.Allows k → v.turn k = some (u, reply) → Amid t w u

/-- No mutex, no slot and no exception in flight is another one. -/
structure SameLocks (w v : World n) : Prop where
  mutexes : v.mutexes = w.mutexes
  results : v.results = w.results
  guards : v.guards = w.guards
  inFlight : v.inFlight = w.inFlight

/-- The last step of a visit of thread `t`, which has the mutex. It leaves the mutex without owner
on record and with nobody inside. -/
def Leaves (u : World n) (t : Fin n) (m : Name) (o : MutexOp) : Prop :=
  ∃ y z reply value poisoned, u.mutexes m = some y ∧ y.core = ⟨⟨some t⟩, some t, y.core.poisoned⟩ ∧
    u.turn (.finish t) = some (z, some reply) ∧
    Visited y.value y.core.poisoned o reply value poisoned ∧ z.isResting t = true ∧
    (u.setMutex m ⟨⟨⟨none⟩, none, poisoned⟩, value⟩).SameLocks z

/-- The thread waits for the mutex; it gets the mutex as it is once nobody is inside. -/
def Queues (u : World n) (t : Fin n) (m : Name) : Prop :=
  u.awaits t = some m ∧ ((∃ s ≠ t, u.Holds s m) ∨ ∃ y z, u.mutexes m = some y ∧
    y.core.inside = none ∧ u.turn (.wake t) = some (z, none) ∧
    (u.setMutex m ⟨y.core.takenBy t, y.value⟩).SameLocks z)

/-- How a visit of thread `t` to `m` goes from its first step on, which led from `w` to `v`; the
mutex was `x`. -/
structure Balanced (w : World n) (t : Fin n) (m : Name) (x : Mutex n) (o : MutexOp)
    (v : World n) : Prop where
  /-- The thread has the mutex: it is turned away, and nothing happens. -/
  own : x.core.inside = some t → w.SameLocks v ∧ ∀ {u}, v.Amid t u → u.mutexes m = some x ∧
    ∃ z reply, u.turn (.finish t) = some (z, some reply) ∧ Rebuffed o reply ∧ u.SameLocks z
  free : x.core.inside = none → (w.setMutex m ⟨x.core.takenBy t, x.value⟩).SameLocks v ∧
    v.Leaves t m o
  taken : ∀ {s}, x.core.inside = some s → s ≠ t → w.SameLocks v ∧ v.Queues t m
  /-- As long as the thread does not have the mutex it waits; then one step completes the call. -/
  amid : x.core.inside ≠ some t → ∀ {u}, v.Amid t u → u.Queues t m ∨ u.Leaves t m o
  /-- Nobody touches the mutex between its acquisition and the last step. -/
  undisturbed : x.core.inside ≠ some t → ∀ {u y}, v.Amid t u → u.Leaves t m o → u.Amid t y →
    y.mutexes m = u.mutexes m ∧ y.Leaves t m o

variable {w v u : World n} {t : Fin n} {m : Name} {x : Mutex n} {o : MutexOp} {p : Purpose}

theorem setMutex_eq_self (hx : w.mutexes m = some x) : w.setMutex m x = w := by
  have hf : (fun k => if k = m then some x else w.mutexes k) = w.mutexes := by
    funext k
    split
    · next hk => rw [hk, hx]
    · rfl
  simp only [setMutex, hf]

@[simp] theorem setMutex_setMutex (x y : Mutex n) :
    (w.setMutex m x).setMutex m y = w.setMutex m y := by
  simp only [setMutex, World.mk.injEq, and_true]
  funext k
  split <;> rfl

theorem SameLocks.trans (h : u.SameLocks w) (k : w.SameLocks v) : u.SameLocks v :=
  ⟨k.mutexes.trans h.mutexes, k.results.trans h.results, k.guards.trans h.guards,
    k.inFlight.trans h.inFlight⟩

theorem SameLocks.setMutex (h : w.SameLocks v) (m : Name) (x : Mutex n) :
    (w.setMutex m x).SameLocks (v.setMutex m x) where
  mutexes := by simp only [World.setMutex, h.mutexes]
  results := h.results
  guards := h.guards
  inFlight := h.inFlight

theorem sameLocks_laidDown : w.SameLocks (w.laidDown t) := by
  refine ⟨rfl, rfl, rfl, ?_⟩
  funext k
  by_cases hk : k = t
  · rw [hk, laidDown_inFlight]
  · simp [inFlight, laidDown, setThread_ne _ _ hk]

theorem sameLocks_roused : w.SameLocks (w.roused t) := by
  refine ⟨rfl, rfl, rfl, ?_⟩
  funext k
  by_cases hk : k = t
  · simp [hk, inFlight]
  · simp [inFlight, roused_threads_ne hk]

theorem arrive_inFlight (c : Core.Course (Fin n)) :
    (w.arrive t m x p c).inFlight = w.inFlight := by
  funext k
  by_cases hk : k = t
  · rw [hk]
    exact (arrive_numbered c).1
  · simp only [inFlight, arrive_threads_ne c hk]

theorem sameLocks_arrive_answered (c : Core (Fin n)) (a : Verdict) (seen : List Notice) :
    (w.setMutex m ⟨c, x.value⟩).SameLocks
      (w.arrive t m x p (.answered c (.verdict a) seen)) where
  mutexes := noteAll_mutexes _ _ _
  results := (arrive_frame _).1
  guards := (arrive_frame _).2
  inFlight := arrive_inFlight _

theorem sameLocks_arrive_waiting (hx : w.mutexes m = some x) (q : Point) (seen : List Notice) :
    w.SameLocks (w.arrive t m x p (.waiting x.core q seen)) where
  mutexes := by
    have hset : (w.setMutex m { x with core := x.core }) = w := setMutex_eq_self hx
    exact (noteAll_mutexes _ _ _).trans (congrArg World.mutexes hset)
  results := (arrive_frame _).1
  guards := (arrive_frame _).2
  inFlight := arrive_inFlight _

/-- A release frees its mutex and does nothing else. -/
theorem sameLocks_release (hx : w.mutexes m = some x) (d : Nat) :
    (w.setMutex m { x with core := x.core.freed (decide (d < w.depth t)) }).SameLocks
      (w.release t (.holding m d)) := by
  refine ⟨?_, (release_frame w t _).1, (release_frame w t _).2.1, ?_⟩
  · simp only [release, Guard.holding, hx, Core.call_release, note, noteAll_mutexes]
    rfl
  · funext k
    simp [inFlight, setMutex]

/-- The exception of a misshapen document is caught once it has passed the guard. -/
theorem sameLocks_misshapen (hx : w.mutexes m = some x) :
    (w.setMutex m { x with core := x.core.freed true }).SameLocks
      (((w.throw t).release t (.holding m (w.depth t))).catch_ t) := by
  have hdepth : decide (w.depth t < (w.throw t).depth t) = true := by
    simp [depth, inFlight, World.throw]
  have hrel := sameLocks_release (w := w.throw t) (t := t) hx (w.depth t)
  rw [hdepth] at hrel
  refine ⟨hrel.mutexes, hrel.results, hrel.guards, ?_⟩
  funext k
  by_cases hk : k = t
  · subst hk
    simp [inFlight, catch_, World.throw, setMutex]
  · simp [inFlight, catch_, World.throw, setMutex, setThread_ne _ _ hk]

/-- What is done about a verdict of acquisition. -/
theorem conclude_visited (hx : w.mutexes m = some x) (ho : o.visit? = some p) :
    ∃ reply value poisoned, Visited x.value x.core.poisoned o reply value poisoned ∧
      (w.conclude t x ⟨m, p, x.core.grant, w.depth t⟩).2 = reply ∧
      (w.setMutex m ⟨⟨⟨none⟩, none, poisoned⟩, value⟩).SameLocks
        (w.conclude t x ⟨m, p, x.core.grant, w.depth t⟩).1 := by
  have hgrant := Core.holds_grant x.core
  have hfreed : x.core.freed false = ⟨⟨none⟩, none, x.core.poisoned⟩ := by simp [Core.freed]
  have hleft : ∀ value, (w.setMutex m ⟨⟨⟨none⟩, none, x.core.poisoned⟩, value⟩).SameLocks
      ((w.setMutex m { x with value := value }).release t (.holding m (w.depth t))) := by
    intro value
    have h := sameLocks_release (w := w.setMutex m { x with value := value }) (t := t)
      (setMutex_self _ _ _) (w.depth t)
    rw [setMutex_setMutex] at h
    simpa [depth, inFlight, setMutex, hfreed] using h
  obtain ⟨rfl, rfl⟩ | ⟨rfl, rfl⟩ | ⟨d, rfl, rfl⟩ := MutexOp.visit_cases ho
  · refine ⟨_, _, _, .taken, ?_, by simpa [conclude, hgrant] using hleft x.value.husk⟩
    simp only [conclude, hgrant, if_true]
    cases hp : x.core.poisoned <;> simp [Core.grant, hp] <;> rfl
  · refine ⟨_, _, _, .written, by simp [conclude, hgrant], ?_⟩
    have h := hleft x.value
    rw [setMutex_eq_self (x := { x with value := x.value }) hx] at h
    simpa [conclude, hgrant] using h
  · simp only [conclude, hgrant, if_true, decodeInto]
    cases hd : d.read? x.value.kind with
    | some value =>
      have hshape := Payload.ofJson?_isSome_iff.mp (Option.isSome_of_eq_some hd)
      exact ⟨_, _, _, .read hshape hd, rfl, hleft value⟩
    | none =>
      refine ⟨_, _, _, .misshapen (Payload.ofJson?_eq_none_iff.mp hd), rfl, ?_⟩
      simpa [Core.freed] using sameLocks_misshapen (t := t) hx

theorem conclude_rebuffed (ho : o.visit? = some p) (d : Nat) :
    (w.conclude t x ⟨m, p, .lockedByCurrentThread, d⟩).1 = w ∧
      Rebuffed o (w.conclude t x ⟨m, p, .lockedByCurrentThread, d⟩).2 := by
  obtain ⟨rfl, rfl⟩ | ⟨rfl, rfl⟩ | ⟨d, rfl, rfl⟩ := MutexOp.visit_cases ho
  · exact ⟨rfl, .intoInner⟩
  · exact ⟨rfl, .toJson⟩
  · exact ⟨rfl, .fromJson d⟩

/-- Other threads leave a held mutex alone, with its value. -/
theorem Orderly.mutex_eq_of_turn (hw : w.Orderly) {k : Turn n} {reply : Option Reply}
    (hk : w.Allows k) (h : w.turn k = some (v, reply)) (hm : w.Holds t m) (ht : t ≠ k.thread) :
    v.mutexes m = w.mutexes m := by
  obtain ⟨x, hx, hin⟩ := hm
  obtain ⟨before, hc⟩ := (hw.inside_iff hx t).mp hin
  have hadv := hw.turn hk h
  obtain ⟨y, hy⟩ := exists_mutex (m := m) (hadv.posting.core_ne_none (by simp [ledger_core hx]))
  have hcore : y.core = x.core :=
    calc y.core = coreAfter m v.history := (hw.advance hadv).sound.core_eq (ledger_core hy)
      _ = coreAfter m w.history := hadv.posting.coreAfter_eq hw.sound ht hc
      _ = x.core := (hw.sound.core_eq (ledger_core hx)).symm
  have hvalue : v.value? m = w.value? m := by
    by_contra hne
    obtain ⟨p, hp⟩ := hw.changes_only h hk (by simp [value?, hx]) hne
    -- an edit is made by the holder
    obtain ⟨b, hb⟩ := (hw.locks_iff_current k.thread m).mp (locks_of_edit hk hp)
    exact ht (Prod.mk.inj (Option.some.inj (hc.symm.trans hb))).1
  have hval : y.value = x.value := by simpa [value?, hx, hy] using hvalue
  obtain ⟨c, p⟩ := x
  obtain ⟨d, q⟩ := y
  obtain rfl : d = c := hcore
  obtain rfl : q = p := hval
  rw [hx, hy]

/-- A thread that has a verdict can only act on it. -/
theorem Orderly.thread_ne_of_arrived (hw : w.Orderly) {k : Turn n} {reply : Option Reply}
    (ha : (w.threads t).arrived ≠ none) (hk : k ≠ .finish t) (h : w.turn k = some (v, reply)) :
    t ≠ k.thread := by
  rintro rfl
  cases k with
  | start u op => exact ha (isResting_iff.mp (turn_start_eq.mp h).1).2
  | finish u => exact hk rfl
  | wake u =>
    obtain ⟨y, hy, -⟩ := Option.map_eq_some_iff.mp h
    obtain ⟨q, -, hq, -⟩ := hw.wake_eq hy
    exact ha ((hw.inOrder u).waits q hq).2.2

/-- A thread that waits can only be woken. -/
theorem Orderly.wake_of_waiting {k : Turn n} {reply : Option Reply} (hw : w.Orderly)
    (hp : (w.threads t).pending ≠ none) (h : w.turn k = some (v, reply)) (ht : k.thread = t) :
    k = .wake t := by
  subst ht
  cases k with
  | start u op => exact absurd (isResting_iff.mp (turn_start_eq.mp h).1).1 hp
  | wake u => rfl
  | finish u =>
    simp only [World.turn] at h
    split at h
    · next ha =>
      obtain ⟨a, ha⟩ := Option.isSome_iff_exists.mp ha
      exact absurd (hw.finish_eq ha).1 hp
    · cases h

theorem Amid.reachable (h : w.Amid t u) (hw : w.Reachable) : u.Reachable := by
  induction h with
  | refl => exact hw
  | turn _ _ ha ht ih => exact ih.turn ha ht

/-- Until the thread acts on its verdict nothing happens to it or to what it holds. -/
theorem Amid.undisturbed (h : w.Amid t u) (hw : w.Reachable) (ha : (w.threads t).arrived ≠ none)
    (hm : w.Holds t m) : u.threads t = w.threads t ∧ u.mutexes m = w.mutexes m := by
  induction h with
  | refl => exact ⟨rfl, rfl⟩
  | @turn y z k reply hy hk hallow hturn ih =>
    obtain ⟨hthread, hmutex⟩ := ih
    have hord := (hy.reachable hw).orderly
    have hne := hord.thread_ne_of_arrived (by rwa [hthread]) hk hturn
    have hheld : y.Holds t m := by rwa [Holds, hmutex]
    exact ⟨((hord.turn hallow hturn).others t hne).trans hthread,
      (hord.mutex_eq_of_turn hallow hturn hheld hne).trans hmutex⟩

/-- Thread `t` has acquired `m` for `p` and is about to act on its verdict. -/
def Inside (w : World n) (t : Fin n) (m : Name) (p : Purpose) : Prop :=
  ∃ a, (w.threads t).arrived = some ⟨m, p, a, w.depth t⟩ ∧ a.holds = true

theorem Inside.holds (h : w.Inside t m p) (hw : w.Orderly) : w.Holds t m := by
  obtain ⟨a, ha, hv⟩ := h
  obtain ⟨before, hc, -⟩ := hw.current_of_arrived ha hv
  exact hw.holds_iff.mpr ⟨before, hc⟩

theorem inside_arrive_granted :
    (w.arrive t m x p (.answered (x.core.takenBy t) (.verdict x.core.grant) [])).Inside t m p := by
  refine ⟨x.core.grant, ?_, Core.holds_grant x.core⟩
  have hdepth : (w.arrive t m x p
      (.answered (x.core.takenBy t) (.verdict x.core.grant) [])).depth t = w.depth t := by
    rw [depth, depth, arrive_inFlight]
  rw [hdepth, arrive_answered_threads]

theorem turn_finish {a : Arrival} (ha : (w.threads t).arrived = some a) :
    w.turn (.finish t) = some ((w.finish t).1, some (w.finish t).2) := by
  simp [World.turn, ha]

theorem Orderly.isResting_finish (hw : w.Orderly) {a : Arrival}
    (ha : (w.threads t).arrived = some a) : (w.finish t).1.isResting t = true :=
  isResting_iff.mpr ⟨(finish_pending w t).trans (hw.finish_eq ha).1, hw.finish_arrived⟩

theorem Inside.leaves (h : u.Inside t m p) (hu : u.Orderly) (ho : o.visit? = some p) :
    u.Leaves t m o := by
  obtain ⟨a, ha, hv⟩ := h
  obtain ⟨before, hc, -⟩ := hu.current_of_arrived ha hv
  obtain ⟨-, y, hy, hfin⟩ := hu.finish_eq ha
  have hcore : y.core = coreAfter m u.history := hu.sound.core_eq (ledger_core hy)
  have hgrant : a = y.core.grant := by
    rw [hcore]
    exact (hu.inOrder t).verdict _ ha hv
  have hdepth : u.depth t = (u.laidDown t).depth t := by rw [depth, depth, laidDown_inFlight]
  obtain ⟨reply, value, poisoned, hvis, hreply, hsame⟩ :=
    conclude_visited (w := u.laidDown t) (t := t) hy ho
  have hturn := turn_finish ha
  rw [hfin, hgrant, hdepth] at hturn
  refine ⟨y, _, reply, value, poisoned, hy, ?_, by rw [hturn, hreply], hvis, ?_, ?_⟩
  · rw [hcore]
    simp [coreAfter, hc]
  · have hrest := hu.isResting_finish ha
    rwa [hfin, hgrant, hdepth] at hrest
  · exact ⟨hsame.mutexes, hsame.results, hsame.guards,
      hsame.inFlight.trans sameLocks_laidDown.inFlight⟩

theorem Orderly.queues (hw : w.Orderly) (hm : w.awaits t = some m) (hown : ¬ w.Holds t m) :
    w.Queues t m := by
  refine ⟨hm, ?_⟩
  obtain ⟨s, hs⟩ | hwake := hw.held_or_wakes hm
  · exact .inl ⟨s, fun he => hown (he ▸ hs), hs⟩
  · obtain ⟨z, hz⟩ := Option.isSome_iff_exists.mp hwake
    obtain ⟨q, y, hq, hy, hin, rfl⟩ := hw.wake_eq hz
    obtain ⟨q', hq', rfl⟩ := awaits_eq_some.mp hm
    obtain rfl := Option.some.inj (hq.symm.trans hq')
    refine .inr ⟨y, _, hy, hin, Option.map_eq_some_iff.mpr ⟨_, hz, rfl⟩, ?_⟩
    exact (sameLocks_roused.setMutex q.mutex _).trans (sameLocks_arrive_answered _ _ _)

theorem Inside.amid (h : w.Inside t m p) (hw : w.Reachable) (hu : w.Amid t u) :
    u.Inside t m p ∧ u.mutexes m = w.mutexes m := by
  have hm := h.holds hw.orderly
  obtain ⟨a, ha, hv⟩ := h
  obtain ⟨hthread, hmutex⟩ := hu.undisturbed hw (by simp [ha]) hm
  refine ⟨⟨a, ?_, hv⟩, hmutex⟩
  rw [depth, inFlight, hthread]
  exact ha

/-- Thread `t` waits for `m` or is inside. -/
def Underway (w : World n) (t : Fin n) (m : Name) (p : Purpose) : Prop :=
  (w.threads t).pending = some ⟨m, p, .entering false⟩ ∨ w.Inside t m p

theorem Underway.turn (h : w.Underway t m p) (hw : w.Reachable) {k : Turn n}
    {reply : Option Reply} (hk : k ≠ .finish t) (hallow : w.Allows k)
    (hturn : w.turn k = some (v, reply)) : v.Underway t m p := by
  obtain hpend | hin := h
  · by_cases hne : k.thread = t
    · obtain rfl := hw.orderly.wake_of_waiting (by simp [hpend]) hturn hne
      obtain ⟨y, hy, he⟩ := Option.map_eq_some_iff.mp hturn
      obtain ⟨rfl, -⟩ := Prod.mk.inj he
      obtain ⟨q, x, hq, -, -, rfl⟩ := hw.orderly.wake_eq hy
      obtain rfl := Option.some.inj (hpend.symm.trans hq)
      exact .inr inside_arrive_granted
    · left
      rw [(hw.orderly.turn hallow hturn).others t (Ne.symm hne), hpend]
  · exact .inr (hin.amid hw (.turn .refl hk hallow hturn)).1

theorem Underway.amid (h : w.Underway t m p) (hw : w.Reachable) (hu : w.Amid t u) :
    u.Underway t m p := by
  induction hu with
  | refl => exact h
  | turn hy hk hallow hturn ih => exact ih.turn (hy.reachable hw) hk hallow hturn

theorem Underway.queues_or_leaves (h : u.Underway t m p) (hu : u.Reachable)
    (ho : o.visit? = some p) : u.Queues t m ∨ u.Leaves t m o := by
  obtain hpend | hin := h
  · have hm : u.awaits t = some m := awaits_eq_some.mpr ⟨_, hpend, rfl⟩
    exact .inl (hu.orderly.queues hm (hu.not_own hm))
  · exact .inr (hin.leaves hu.orderly ho)

/-- A thread whose last step is due is inside. -/
theorem Underway.inside (h : u.Underway t m p) (hu : u.Orderly) (hl : u.Leaves t m o) :
    u.Inside t m p := by
  obtain hpend | hin := h
  · obtain ⟨y, z, reply, value, poisoned, -, -, hturn, -⟩ := hl
    simp only [World.turn] at hturn
    split at hturn
    · next ha =>
      obtain ⟨a, ha⟩ := Option.isSome_iff_exists.mp ha
      cases hpend.symm.trans (hu.finish_eq ha).1
    · cases hturn
  · exact hin

/-- A visit that is underway gets to its last step with the mutex as it was acquired. -/
theorem Underway.runs (h : v.Underway t m p) (hv : v.Reachable) (ho : o.visit? = some p) :
    (∀ {u}, v.Amid t u → u.Queues t m ∨ u.Leaves t m o) ∧
      ∀ {u y}, v.Amid t u → u.Leaves t m o → u.Amid t y →
        y.mutexes m = u.mutexes m ∧ y.Leaves t m o := by
  refine ⟨fun hu => (h.amid hv hu).queues_or_leaves (hu.reachable hv) ho, ?_⟩
  intro u y hu hl hy
  have hreach := hu.reachable hv
  obtain ⟨hin, hm⟩ := ((h.amid hv hu).inside hreach.orderly hl).amid hreach hy
  exact ⟨hm, hin.leaves (hy.reachable hreach).orderly ho⟩

theorem onMutex_visit (ho : o.visit? = some p) (w : World n) (t : Fin n) (m : Name) :
    w.onMutex t m o = w.enter t m false p := by
  obtain ⟨rfl, rfl⟩ | ⟨rfl, rfl⟩ | ⟨d, rfl, rfl⟩ := MutexOp.visit_cases ho <;> rfl

/-- The first step of a visit is the attempt to acquire the mutex. -/
theorem turn_visit (hr : w.isResting t = true) (hx : w.mutexes m = some x)
    (ho : o.visit? = some p) : w.turn (.start t (.mutex m o)) =
      some (w.arrive t m x p (x.core.call t (.acquire false)), none) := by
  refine turn_start_eq.mpr ⟨hr, ?_⟩
  simp only [start, onMutex_visit ho, enter, hx]

theorem allows_visit (ho : o.visit? = some p) : w.Allows (.start t (.mutex m o)) := by
  obtain ⟨rfl, -⟩ | ⟨rfl, -⟩ | ⟨j, rfl, -⟩ := MutexOp.visit_cases ho <;> trivial

/-- The attempt of a thread that has the mutex, and all that comes of it. -/
theorem sameLocks_of_own (hx : w.mutexes m = some x) (hin : x.core.inside = some t)
    (ho : o.visit? = some p)
    (hv : v = w.arrive t m x p
      (.answered x.core (.verdict .lockedByCurrentThread) [.reentry false]))
    (hreach : v.Reachable) : w.SameLocks v ∧ ∀ {u}, v.Amid t u → u.mutexes m = some x ∧
      ∃ z reply, u.turn (.finish t) = some (z, some reply) ∧ Rebuffed o reply ∧ u.SameLocks z := by
  have hsame : w.SameLocks v := by
    have h := sameLocks_arrive_answered (w := w) (t := t) (m := m) (x := x) (p := p) x.core
      .lockedByCurrentThread [.reentry false]
    rwa [← hv, setMutex_eq_self (x := ⟨x.core, x.value⟩) hx] at h
  have hmutex : v.mutexes m = some x := by rw [hsame.mutexes, hx]
  have ha : (v.threads t).arrived = some ⟨m, p, .lockedByCurrentThread, w.depth t⟩ := by
    rw [hv, arrive_answered_threads]
  refine ⟨hsame, fun {u} hu => ?_⟩
  obtain ⟨hthread, hm⟩ := hu.undisturbed hreach (by simp [ha]) ⟨x, hmutex, hin⟩
  rw [← hthread] at ha
  obtain ⟨-, y, -, hfin⟩ := (hu.reachable hreach).orderly.finish_eq ha
  obtain ⟨hnext, hreply⟩ := conclude_rebuffed (w := u.laidDown t) (t := t) (m := m) (x := y) ho
    (w.depth t)
  have hturn := turn_finish ha
  rw [hfin, hnext] at hturn
  exact ⟨hm.trans hmutex, _, _, hturn, hreply, sameLocks_laidDown⟩

/-- Unless the mutex is the thread's own, the attempt is on the way to the last step. -/
theorem underway_arrive {c : Core.Course (Fin n)} (h : Attempt t x.core false c)
    (hown : x.core.inside ≠ some t) : (w.arrive t m x p c).Underway t m p := by
  cases h with
  | own hin => exact absurd hin hown
  | granted => exact .inr inside_arrive_granted
  | turnedAway _ _ hpoll => cases hpoll
  | waits => exact .inl (by rw [arrive_waiting_threads])

/-- Whoever calls, whatever is in flight and whatever the document is, the mutex is free after the
call, unless it was the caller's before; then the call does nothing. -/
theorem Reachable.balanced (h : w.Reachable) (hr : w.isResting t = true)
    (hx : w.mutexes m = some x) (ho : o.visit? ≠ none) :
    ∃ v, w.turn (.start t (.mutex m o)) = some (v, none) ∧ w.Balanced t m x o v := by
  obtain ⟨p, ho⟩ := Option.ne_none_iff_exists'.mp ho
  have hturn := turn_visit hr hx ho
  have hv := h.turn (allows_visit ho) hturn
  have hcall := attempt_of_call (t := t) (h.orderly.sound.holder_eq_inside (ledger_core hx)) false
  refine ⟨_, hturn, ?_⟩
  generalize x.core.call t (.acquire false) = c at hv hcall ⊢
  have hruns := fun hown => (underway_arrive (w := w) (m := m) (p := p) hcall hown).runs hv ho
  refine ⟨?own, ?free, ?taken, fun hown => (hruns hown).1, fun hown => (hruns hown).2⟩
  case own =>
    intro hown
    cases hcall with
    | own => exact sameLocks_of_own hx hown ho rfl hv
    | granted hin => cases hown.symm.trans hin
    | turnedAway hin hne => exact absurd (Option.some.inj (hin.symm.trans hown)) hne
    | waits hin hne => exact absurd (Option.some.inj (hin.symm.trans hown)) hne
  case free =>
    intro hfree
    cases hcall with
    | own hin => cases hfree.symm.trans hin
    | granted =>
      exact ⟨sameLocks_arrive_answered _ _ _, inside_arrive_granted.leaves hv.orderly ho⟩
    | turnedAway hin => cases hfree.symm.trans hin
    | waits hin => cases hfree.symm.trans hin
  case taken =>
    intro s hs hne
    cases hcall with
    | own hin => exact absurd (Option.some.inj (hs.symm.trans hin)) hne
    | granted hin => cases hs.symm.trans hin
    | turnedAway _ _ hpoll => cases hpoll
    | waits =>
      have hm : (w.arrive t m x p (.waiting x.core (.entering false) [])).awaits t = some m := by
        rw [awaits, arrive_waiting_threads]
        rfl
      exact ⟨sameLocks_arrive_waiting hx _ _, hv.orderly.queues hm (hv.not_own hm)⟩

/-- The thread unwinds, waits for the mutex, gets it and leaves it by one more exception, which ends
in the call. -/
theorem balanced_while_unwinding : ∃ (w v u z : World 2) (x : Mutex 2), w.Reachable ∧
    w.isResting 0 = true ∧ w.mutexes "m" = some x ∧ w.inFlight 0 = [0] ∧
    w.turn (.start 0 (.mutex "m" (.fromJson ⟨.string "x", fun _ => 0⟩))) = some (v, none) ∧
    w.Balanced 0 "m" x (.fromJson ⟨.string "x", fun _ => 0⟩) v ∧ v.Queues 0 "m" ∧ v.Amid 0 u ∧
    u.turn (.finish 0) = some (z, some .misshapen) ∧
    z.mutexes "m" = some ⟨⟨⟨none⟩, none, true⟩, .int 7⟩ ∧ z.inFlight 0 = [0] := by
  have h₁ := (Reachable.initial (n := 2)).turn (x := .start 0 (.mutex "m" (.create (.int 7))))
    rfl rfl
  have h₂ := h₁.turn (x := .start 1 (.mutex "m" (.lock "s"))) ⟨nofun, fun u => nofun⟩ rfl
  have h₃ := h₂.turn (x := .finish 1) trivial rfl
  have h := h₃.turn (x := .start 0 .throw) trivial rfl
  obtain ⟨v, hv, hbal⟩ := h.balanced (t := 0) (m := "m") (x := ⟨⟨⟨some 1⟩, some 1, false⟩, .int 7⟩)
    (o := .fromJson ⟨.string "x", fun _ => 0⟩) rfl rfl nofun
  obtain rfl : _ = v := congrArg Prod.fst (Option.some.inj hv)
  refine ⟨_, _, _, _, _, h, rfl, rfl, rfl, hv, hbal, (hbal.taken rfl (by decide)).2,
    .turn (k := .wake 0) (.turn (k := .start 1 (.result "s" .drop)) .refl nofun ?_ rfl) nofun
      trivial rfl, rfl, rfl, rfl⟩
  rintro s ⟨⟩
  rfl

end World
end Guarded
end CheckedLock
