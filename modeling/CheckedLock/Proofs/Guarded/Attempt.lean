import CheckedLock.Proofs.Guarded.Order

/-! Attempts. A thread that asks for a mutex has it already, gets it, is turned away or waits; once
it has the verdict it keeps the guard or is done with it in the same step. -/
namespace CheckedLock
namespace Guarded

variable {n : Nat} {t : Fin n}

/-- What a call for a lock comes to. -/
inductive Attempt (t : Fin n) (c : Core (Fin n)) (polling : Bool) : Core.Course (Fin n) → Prop
  | own : c.inside = some t →
    Attempt t c polling (.answered c (.verdict .lockedByCurrentThread) [.reentry polling])
  | granted : c.inside = none →
    Attempt t c polling (.answered (c.takenBy t) (.verdict c.grant) [])
  | turnedAway {s : Fin n} : c.inside = some s → s ≠ t → polling = true →
    Attempt t c polling (.answered c (.verdict .wouldBlock) [])
  | waits {s : Fin n} : c.inside = some s → s ≠ t → polling = false →
    Attempt t c polling (.waiting c (.entering false) [])

/-- Between operations the record is right. -/
theorem attempt_of_call {c : Core (Fin n)} (h : c.owner.holder = c.inside) (polling : Bool) :
    Attempt t c polling (c.call t (.acquire polling)) := by
  cases hc : c.inside with
  | none =>
    have hn : c.owner.names (some t) = false := by simp [OwnerRecord.names, h, hc]
    rw [Core.call_acquire_of_free polling hn hc]
    exact .granted hc
  | some s =>
    by_cases hs : s = t
    · have hn : c.owner.names (some t) = true := by simp [OwnerRecord.names, h, hc, hs]
      rw [Core.call_acquire_of_names polling hn]
      exact .own (hs ▸ hc)
    · have hn : c.owner.names (some t) = false := by simp [OwnerRecord.names, h, hc, hs]
      cases polling with
      | false => rw [Core.call_acquire_waits hn hc]; exact .waits hc hs rfl
      | true => rw [Core.call_acquire_of_taken hn hc]; exact .turnedAway hc hs rfl

theorem Core.holds_grant (c : Core (Fin n)) : c.grant.holds = true := by
  unfold Core.grant
  split <;> rfl

theorem Ledger.Sound.holder_eq_inside {l : Ledger n} (hl : l.Sound) {m : Name} {c : Core (Fin n)}
    (hm : l.core m = some c) : c.owner.holder = c.inside := by
  rw [hl.core_eq hm]
  rfl

namespace World

variable {w : World n} {m : Name} {x : Mutex n} {p : Purpose} {v : Verdict}

@[simp] theorem arrive_frame (c : Core.Course (Fin n)) :
    (w.arrive t m x p c).results = w.results ∧ (w.arrive t m x p c).guards = w.guards := by
  cases c with
  | answered core a seen => cases a <;> simp [arrive, setThread, note, setMutex]
  | waiting core q seen => simp [arrive, setThread, note, setMutex]

theorem arrive_threads_ne (c : Core.Course (Fin n)) {u : Fin n} (hu : u ≠ t) :
    (w.arrive t m x p c).threads u = w.threads u := by
  cases c with
  | answered core a seen => cases a <;> simp [arrive, setThread, note, setMutex, hu]
  | waiting core q seen => simp [arrive, setThread, note, setMutex, hu]

theorem arrive_answered_threads (c : Core (Fin n)) (seen : List Notice) :
    (w.arrive t m x p (.answered c (.verdict v) seen)).threads t =
      { w.threads t with arrived := some ⟨m, p, v, w.depth t⟩ } := by
  simp [arrive, note, setMutex, depth, inFlight]

theorem arrive_waiting_threads (c : Core (Fin n)) (q : Point) (seen : List Notice) :
    (w.arrive t m x p (.waiting c q seen)).threads t =
      { w.threads t with pending := some ⟨m, p, q⟩ } := by
  simp [arrive, note, setMutex]

theorem ledger_setMutex_same (hx : w.mutexes m = some x) :
    (w.setMutex m { x with core := x.core }).ledger = w.ledger :=
  ledger_setMutex_value w hx x.value

theorem ledger_arrive_failed (hx : w.mutexes m = some x) (ha : (w.threads t).arrived = none)
    (hv : v.holds = false) (seen : List Notice) :
    (w.arrive t m x p (.answered x.core (.verdict v) seen)).ledger = w.ledger := by
  have he : (Event.attempted m t v (w.inFlight t)).deed? = none := by simp [Event.deed?, hv]
  have hin : ∀ y : World n, y.threads = w.threads → (y.threads t).inFlight = w.inFlight t :=
    fun y hy => by rw [hy]; rfl
  simp only [arrive, ledger_setThread]
  rw [ledger_note _ he, ledger_noteAll, ledger_setMutex_same hx, hin _ (by simp [note, setMutex]),
    ledger_fly_self]
  exact Ledger.put_of_eq (by simp [hold_hand_of_none ha, Arrival.guard?, hv])

theorem ledger_arrive_granted (seen : List Notice) :
    (w.arrive t m x p (.answered (x.core.takenBy t) (.verdict x.core.grant) seen)).ledger =
      w.ledger.take t m x.core := by
  have he : (Event.attempted m t x.core.grant (w.inFlight t)).deed? =
      some (.acquired m t x.core.grant (w.inFlight t)) := by
    simp [Event.deed?, Core.holds_grant]
  have hself : Function.update w.inFlight t (w.threads t).inFlight = w.inFlight :=
    Function.update_eq_self t w.inFlight
  simp only [arrive, ledger_setThread, ledger_note_deed _ he, ledger_noteAll, ledger_setMutex]
  ext1
  · simp [Ledger.put, Ledger.take, Ledger.fly, Arrival.guard?, Core.holds_grant, ledger, depth,
      inFlight, note, setMutex]
  · rfl
  · simp [Ledger.put, Ledger.take, Ledger.fly, ledger, note, setMutex, hself]
  · rfl

theorem ledger_arrive_waiting (hx : w.mutexes m = some x) (q : Point) (seen : List Notice) :
    (w.arrive t m x p (.waiting x.core q seen)).ledger = w.ledger := by
  have hin : ∀ y : World n, y.threads = w.threads → (y.threads t).inFlight = w.inFlight t :=
    fun y hy => by rw [hy]; rfl
  have har : ∀ y : World n, y.threads = w.threads → (y.threads t).arrived = (w.threads t).arrived :=
    fun y hy => by rw [hy]
  have hs : (Event.suspended (n := n) m t).deed? = none := rfl
  simp only [arrive, ledger_setThread]
  rw [ledger_note _ hs, ledger_noteAll, ledger_setMutex_same hx, hin _ (by simp [note, setMutex]),
    har _ (by simp [note, setMutex]), ledger_fly_self]
  exact Ledger.put_of_eq rfl

/-- The guard of a verdict has its lock and its target. -/
theorem target_eq_of_arrival {a : Arrival} {s : Slot n Guard}
    (hs : a.guard?.map (Slot.mk t) = some s) : s.held.target = s.held.lock := by
  obtain ⟨g, hg, rfl⟩ := Option.map_eq_some_iff.mp hs
  unfold Arrival.guard? at hg
  split at hg
  · obtain rfl := Option.some.inj hg
    rfl
  · cases hg

theorem paired_arrive (hp : Paired w.guardAt) (c : Core.Course (Fin n)) :
    Paired (w.arrive t m x p c).guardAt := by
  have har : ∀ y : World n, y.threads = w.threads → (y.threads t).arrived = (w.threads t).arrived :=
    fun y hy => by rw [hy]
  cases c with
  | answered core a seen =>
    cases a with
    | verdict v =>
      simp only [arrive, guardAt_setThread]
      rw [guardAt_congr (w := w) (by simp [note, setMutex]) (by simp [note, setMutex])
        (by simp [note, setMutex])]
      exact hp.update _ fun s hs => target_eq_of_arrival hs
    | released => exact hp
    | flag b => exact hp
  | waiting core q seen =>
    simp only [arrive, guardAt_setThread]
    rw [guardAt_congr (w := w) (by simp [note, setMutex]) (by simp [note, setMutex])
      (by simp [note, setMutex]), har _ (by simp [note, setMutex])]
    exact hp.update _ fun s hs => hp (.hand t) s hs

theorem isResting_iff : w.isResting t = true ↔
    (w.threads t).pending = none ∧ (w.threads t).arrived = none := by
  simp [isResting]

theorem arrive_numbered (c : Core.Course (Fin n)) :
    ((w.arrive t m x p c).threads t).inFlight = (w.threads t).inFlight ∧
      ((w.arrive t m x p c).threads t).thrown = (w.threads t).thrown := by
  cases c with
  | answered core a seen => cases a <;> simp [arrive, note, setMutex]
  | waiting core q seen => simp [arrive, note, setMutex]

variable {polling : Bool} {c : Core.Course (Fin n)}

/-- A verdict of acquisition tells of the mark as the history has it. -/
theorem verdict_arrive (hl : w.ledger.Sound) (hx : w.mutexes m = some x) (p : Purpose) :
    x.core.grant = (coreAfter m (w.arrive t m x p
      (.answered (x.core.takenBy t) (.verdict x.core.grant) [])).history).grant := by
  have hh : (w.arrive t m x p (.answered (x.core.takenBy t) (.verdict x.core.grant) [])).history =
      .acquired m t x.core.grant (w.inFlight t) :: w.history :=
    congrArg Ledger.history (ledger_arrive_granted (p := p) [])
  have he : x.core = coreAfter m w.history := hl.core_eq (ledger_core hx)
  rw [hh, coreAfter_acquired_self, ← he]
  rfl

/-- After the attempt the thread has a verdict or waits. -/
theorem arrive_outcome (hl : w.ledger.Sound) (hr : w.isResting t = true)
    (hx : w.mutexes m = some x) (h : Attempt t x.core polling c) :
    (((w.arrive t m x p c).threads t).pending = none ∧
      ∃ v, ((w.arrive t m x p c).threads t).arrived = some ⟨m, p, v, w.depth t⟩ ∧
        (v.holds = true → v = (coreAfter m (w.arrive t m x p c).history).grant)) ∨
    (((w.arrive t m x p c).threads t).pending = some ⟨m, p, .entering false⟩ ∧
      ((w.arrive t m x p c).threads t).arrived = none) := by
  obtain ⟨hp, ha⟩ := isResting_iff.mp hr
  cases h with
  | own =>
    refine .inl ⟨?_, .lockedByCurrentThread, ?_, by simp [Verdict.holds]⟩ <;>
      rw [arrive_answered_threads]
    exact hp
  | granted =>
    refine .inl ⟨?_, x.core.grant, ?_, fun _ => verdict_arrive hl hx p⟩ <;>
      rw [arrive_answered_threads]
    exact hp
  | turnedAway =>
    refine .inl ⟨?_, .wouldBlock, ?_, by simp [Verdict.holds]⟩ <;> rw [arrive_answered_threads]
    exact hp
  | waits =>
    refine .inr ⟨?_, ?_⟩ <;> rw [arrive_waiting_threads]
    exact ha

/-- A failed attempt is no posting, and neither is a wait. -/
theorem posting_arrive (hr : w.isResting t = true) (hx : w.mutexes m = some x)
    (h : Attempt t x.core polling c) : w.ledger.Posting t (w.arrive t m x p c).ledger := by
  obtain ⟨-, ha⟩ := isResting_iff.mp hr
  cases h with
  | own => rw [ledger_arrive_failed hx ha rfl]; exact .stay
  | granted hfree =>
    rw [ledger_arrive_granted]
    exact .take (ledger_core hx) hfree (hold_hand_of_none ha)
  | turnedAway => rw [ledger_arrive_failed hx ha rfl]; exact .stay
  | waits => rw [ledger_arrive_waiting hx]; exact .stay

theorem Orderly.arrive (hw : w.Orderly) (hr : w.isResting t = true) (hx : w.mutexes m = some x)
    (hslot : ∀ r, p.slot? = some r →
      Mine t (w.results r) ∧ ∀ u ≠ t, (w.threads u).target? ≠ some r)
    (h : Attempt t x.core polling c) : Advance t w (w.arrive t m x p c) := by
  have hout := arrive_outcome (p := p) hw.sound hr hx h
  have hpost := posting_arrive (p := p) hr hx h
  have hknown : (w.arrive t m x p c).ledger.core m ≠ none :=
    hpost.core_ne_none (by simp [ledger_core hx])
  have htarget : ((w.arrive t m x p c).threads t).target? = p.slot? := by
    obtain ⟨hp, v, ha, -⟩ | ⟨hp, ha⟩ := hout <;> simp [ThreadState.target?, hp, ha]
  refine ⟨hpost, fun u => arrive_threads_ne c, ?_, ?_, ?_, fun hp => paired_arrive hp c⟩
  · constructor
    case waits =>
      intro q hq
      obtain ⟨hp, -⟩ | ⟨hp, ha⟩ := hout
      · simp [hp] at hq
      · obtain rfl := Option.some.inj (hp.symm.trans hq)
        exact ⟨rfl, hknown, ha⟩
    case known =>
      intro a ha'
      obtain ⟨-, v, ha, -⟩ | ⟨-, ha⟩ := hout
      · obtain rfl := Option.some.inj (ha.symm.trans ha')
        exact hknown
      · simp [ha] at ha'
    case verdict =>
      intro a ha' hh
      obtain ⟨-, v, ha, hv⟩ | ⟨-, ha⟩ := hout
      · obtain rfl := Option.some.inj (ha.symm.trans ha')
        exact hv hh
      · simp [ha] at ha'
    case mine =>
      intro r hr'
      rw [(arrive_frame c).1]
      exact (hslot r (htarget ▸ hr')).1
    case numbered =>
      rw [(arrive_numbered c).1, (arrive_numbered c).2]
      exact (hw.inOrder t).numbered
  · intro r hr'
    exact (hslot r (htarget ▸ hr')).2
  · intro r s hs
    exact .inr ⟨s, by rwa [(arrive_frame c).1] at hs, rfl⟩

theorem guardAt_setThread_disarmed {y : ThreadState} (hy : y.arrived = none) :
    (w.setThread t y).guardAt = Function.update w.guardAt (.hand t) none := by
  rw [guardAt_setThread, hy]
  rfl

/-- Thread `t` no longer waits. -/
def roused (w : World n) (t : Fin n) : World n :=
  w.setThread t { w.threads t with pending := none }

@[simp] theorem roused_threads : (w.roused t).threads t = { w.threads t with pending := none } :=
  setThread_self _ _ _

theorem roused_threads_ne {u : Fin n} (hu : u ≠ t) : (w.roused t).threads u = w.threads u :=
  setThread_ne _ _ hu

theorem ledger_roused : (w.roused t).ledger = w.ledger := by
  have hf : w.ledger.fly t (w.threads t).inFlight = w.ledger := w.ledger_fly_self t
  rw [roused, ledger_setThread, hf]
  exact Ledger.put_of_eq rfl

theorem Orderly.rouse (hw : w.Orderly) (ha : (w.threads t).arrived = none) :
    Advance t w (w.roused t) where
  posting := by rw [ledger_roused]; exact .stay
  others u hu := roused_threads_ne hu
  inOrder := .of_idle (by simp) (by simpa using ha) (by simpa using (hw.inOrder t).numbered)
  apart := by simp [ThreadState.target?, ha]
  results r s hs := .inr ⟨s, hs, rfl⟩
  paired hp := by
    rw [roused, guardAt_setThread_disarmed (by exact ha)]
    exact hp.update_none _

/-- A waiting thread goes on if its mutex is free, and takes it. -/
theorem Orderly.wake_eq (hw : w.Orderly) {v : World n} (h : w.wake? t = some v) :
    ∃ q x, (w.threads t).pending = some q ∧ w.mutexes q.mutex = some x ∧ x.core.inside = none ∧
      v = (w.roused t).arrive t q.mutex x q.purpose
        (.answered (x.core.takenBy t) (.verdict x.core.grant) []) := by
  unfold wake? at h
  split at h
  · cases h
  next q hq =>
  split at h
  · cases h
  next x hx =>
  have hpoint := ((hw.inOrder t).waits q hq).1
  cases hin : x.core.inside with
  | some s =>
    rw [hpoint, Core.resume_entering_of_taken hin] at h
    cases h
  | none =>
    rw [hpoint, Core.resume_entering_of_free _ hin] at h
    exact ⟨q, x, hq, hx, hin, (Option.some.inj h).symm⟩

/-- The attempt after a wait is like one that comes just now. -/
theorem Orderly.wake (hw : w.Orderly) {v : World n} (h : w.wake? t = some v) : Advance t w v := by
  obtain ⟨q, x, hq, hx, hin, rfl⟩ := hw.wake_eq h
  have ha := ((hw.inOrder t).waits q hq).2.2
  have htarget : (w.threads t).target? = q.purpose.slot? := by simp [ThreadState.target?, hq]
  have hslot : ∀ r, q.purpose.slot? = some r → Mine t ((w.roused t).results r) ∧
      ∀ u ≠ t, ((w.roused t).threads u).target? ≠ some r := by
    refine fun r hr => ⟨(hw.inOrder t).mine r (htarget.trans hr), fun u hu he => ?_⟩
    rw [roused_threads_ne hu] at he
    exact hu (hw.apart u t r he (htarget.trans hr))
  have hgranted : Attempt t x.core false
    (.answered (x.core.takenBy t) (.verdict x.core.grant) []) := .granted hin
  have hrouse := hw.rouse ha
  have harrive := (hw.advance hrouse).arrive (m := q.mutex) (by simp [isResting, ha]) hx hslot
    hgranted
  refine ⟨ledger_roused (w := w) (t := t) ▸ harrive.posting, ?_, harrive.inOrder, ?_, ?_,
    harrive.paired ∘ hrouse.paired⟩
  · exact fun u hu => (harrive.others u hu).trans (roused_threads_ne hu)
  · intro r hr u hu
    rw [← roused_threads_ne hu]
    exact harrive.apart r hr u hu
  · intro r s hs
    rw [(arrive_frame _).1] at hs
    exact .inr ⟨s, hs, rfl⟩

end World
end Guarded
end CheckedLock
