import CheckedLock.Proofs.Guarded.Attempt

/-! Whole turns. A thread that acts on its verdict keeps the guard in its slot, or gives it up in
the same step, also if a misshapen document makes it leave by an exception. Every world of a run is
in order. -/
namespace CheckedLock
namespace Guarded

variable {n : Nat} {t : Fin n}

/-- What a place has is given up, wherever the place's entry has gone meanwhile. -/
theorem Ledger.closes_put_none {l : Ledger n} {p : Place n} {h : Option (Hold n)}
    (hp : l.hold p = h) : (l.put p none).closes h = l.surrender p := by
  rw [closes_put, ← hp]
  rfl

namespace World

variable {w v : World n} {a : Arrival} {x : Mutex n}

/-- The thread puts its verdict down to act on it. -/
def laidDown (w : World n) (t : Fin n) : World n :=
  w.setThread t { w.threads t with arrived := none }

@[simp] theorem laidDown_threads :
    (w.laidDown t).threads t = { w.threads t with arrived := none } :=
  setThread_self _ _ _

@[simp] theorem laidDown_results : (w.laidDown t).results = w.results := rfl

@[simp] theorem laidDown_mutexes : (w.laidDown t).mutexes = w.mutexes := rfl

@[simp] theorem laidDown_inFlight : (w.laidDown t).inFlight t = w.inFlight t := by
  simp [inFlight]

theorem ledger_laidDown : (w.laidDown t).ledger = w.ledger.put (.hand t) none := by
  have hf : w.ledger.fly t (w.threads t).inFlight = w.ledger := w.ledger_fly_self t
  rw [laidDown, ledger_setThread, hf]
  rfl

theorem guardAt_laidDown : (w.laidDown t).guardAt = Function.update w.guardAt (.hand t) none :=
  guardAt_setThread_disarmed rfl

theorem Calm.refl (t : Fin n) (w : World n) : Calm t w w :=
  .of_threads rfl (fun _ s hs => ⟨s, hs, rfl⟩) id

theorem Calm.setMutex (t : Fin n) (w : World n) (m : Name) (x : Mutex n) :
    Calm t w (w.setMutex m x) := .of_threads rfl (fun _ s hs => ⟨s, hs, rfl⟩) id

theorem Calm.release (t : Fin n) (w : World n) (g : Guard) : Calm t w (w.release t g) := by
  refine .of_threads (by simp) ?_ (by rw [guardAt_release]; exact id)
  intro r s hs
  exact ⟨s, by rwa [(release_frame w t g).1] at hs, rfl⟩

/-- A verdict that is not for a slot changes nothing else. -/
theorem conclude_calm (hs : a.purpose.slot? = none) : Calm t w (w.conclude t x a).1 := by
  have hrel : ∀ y : World n, Calm t w y → Calm t w (y.release t (.holding a.mutex a.depth)) :=
    fun y hy => hy.trans (Calm.release t y _)
  cases hp : a.purpose with
  | keep r => simp [hp, Purpose.slot?] at hs
  | takeValue =>
    simp only [conclude, hp]
    split
    · exact hrel _ (.setMutex t w _ _)
    · exact .refl t w
  | encode =>
    simp only [conclude, hp]
    split
    · exact hrel w (.refl t w)
    · exact .refl t w
  | decode d =>
    simp only [conclude, hp]
    split
    · unfold decodeInto
      split
      · exact hrel _ (.setMutex t w _ _)
      · exact (hrel _ Change.throw.calm).trans Change.catch_.calm
    · exact .refl t w

theorem owned_hand : w.ledger.Owned t (.hand t) := by
  refine owned_of_guardAt fun s hs => ?_
  obtain ⟨a, -, hm⟩ := Option.bind_eq_some_iff.mp hs
  obtain ⟨g, -, rfl⟩ := Option.map_eq_some_iff.mp hm
  rfl

/-- The guard of a verdict is released at once. -/
theorem ledger_release_hand (ha : (w.threads t).arrived = some a) (hv : a.verdict.holds = true)
    (he : v.ledger = (w.laidDown t).ledger) :
    (v.release t (.holding a.mutex a.depth)).ledger = w.ledger.surrender (.hand t) := by
  rw [ledger_release, he, ledger_laidDown]
  exact Ledger.closes_put_none (hold_hand_of_holds ha hv)

theorem ledger_laidDown_of_failed (ha : (w.threads t).arrived = some a)
    (hv : ¬ a.verdict.holds = true) : (w.laidDown t).ledger = w.ledger := by
  rw [ledger_laidDown]
  exact Ledger.put_of_eq (by simp [hold_hand ha, Arrival.guard?, hv])

theorem guard?_ofVerdict : (Slot.mk t (Acquisition.ofVerdict a.verdict
    (Guard.holding a.mutex a.depth))).guard? = a.guard?.map (Slot.mk t) := by
  cases hv : a.verdict <;>
    simp [Slot.guard?, Arrival.guard?, hv, Verdict.holds, Acquisition.ofVerdict, Acquisition.clean,
      Acquisition.tainted, Acquisition.failed, Acquisition.payload?]

/-- The result goes to its slot, and what was there before is given up. -/
theorem ledger_storeResult_hand {r : Name} (ha : (w.threads t).arrived = some a)
    (hr : Mine t (w.results r)) :
    ((w.laidDown t).storeResult t r (Acquisition.ofVerdict a.verdict
      (Guard.holding a.mutex a.depth))).ledger =
      (w.ledger.surrender (.result r)).move (.hand t) (.result r) := by
  have hp : Place.hand t ≠ .result r := by simp
  rw [ledger_storeResult _ (by simpa using hr), guard?_ofVerdict, ← hold_hand ha, ledger_laidDown,
    Ledger.surrender_put _ hp]
  simp [Ledger.move, Ledger.hold_surrender_of_ne _ hp]

/-- The exception of a misshapen document passes the guard and ends. -/
theorem ledger_misshapen (ha : (w.threads t).arrived = some a) (hv : a.verdict.holds = true) :
    ((((w.laidDown t).throw t).release t (.holding a.mutex a.depth)).catch_ t).ledger =
      ((w.ledger.fly t ((w.threads t).thrown :: w.inFlight t)).surrender (.hand t)).fly t
        (w.inFlight t) := by
  have hin : (((w.laidDown t).throw t).release t (.holding a.mutex a.depth)).inFlight t =
      (w.threads t).thrown :: w.inFlight t := by
    simp [World.throw, inFlight]
  have hh := hold_hand_of_holds ha hv
  rw [ledger_catch, hin, ledger_release, ledger_throw, ledger_laidDown, laidDown_inFlight,
    laidDown_threads, List.tail_cons]
  exact congrArg (Ledger.fly · t (w.inFlight t)) (Ledger.closes_put_none
    (l := w.ledger.fly t ((w.threads t).thrown :: w.inFlight t)) hh)

theorem Orderly.posting_conclude (hw : w.Orderly) (ha : (w.threads t).arrived = some a)
    (hp : (w.threads t).pending = none) (hx : w.mutexes a.mutex = some x) :
    w.ledger.Posting t ((w.laidDown t).conclude t x a).1.ledger := by
  have hset : ∀ y, ((w.laidDown t).setMutex a.mutex { x with value := y }).ledger =
      (w.laidDown t).ledger := ledger_setMutex_value _ hx
  cases hpu : a.purpose with
  | keep r =>
    have hr : Mine t (w.results r) :=
      (hw.inOrder t).mine r (by simp [ThreadState.target?, hp, ha, hpu, Purpose.slot?])
    simp only [conclude, hpu, ledger_storeResult_hand ha hr]
    exact .replace (by simp) owned_hand (owned_result hr)
  | takeValue =>
    simp only [conclude, hpu]
    split
    · next hv =>
      rw [ledger_release_hand ha hv (hset _)]
      exact .surrender owned_hand
    · next hv => rw [ledger_laidDown_of_failed ha hv]; exact .stay
  | encode =>
    simp only [conclude, hpu]
    split
    · next hv =>
      rw [ledger_release_hand ha hv rfl]
      exact .surrender owned_hand
    · next hv => rw [ledger_laidDown_of_failed ha hv]; exact .stay
  | decode d =>
    simp only [conclude, hpu]
    split
    · next hv =>
      unfold decodeInto
      split
      · rw [ledger_release_hand ha hv (hset _)]
        exact .surrender owned_hand
      · rw [ledger_misshapen ha hv]
        refine .unwind owned_hand (List.nodup_cons.mpr ⟨fun he => ?_, hw.sound.nodup t⟩)
        exact Nat.lt_irrefl _ ((hw.inOrder t).numbered _ he)
    · next hv => rw [ledger_laidDown_of_failed ha hv]; exact .stay

/-- Acting on a verdict neither waits nor brings a new one. -/
theorem conclude_thread : ((w.conclude t x a).1.threads t).pending = (w.threads t).pending ∧
    ((w.conclude t x a).1.threads t).arrived = (w.threads t).arrived := by
  cases hs : a.purpose.slot? with
  | none => exact ⟨(conclude_calm hs).pending, (conclude_calm hs).arrived⟩
  | some r =>
    have hpu : a.purpose = .keep r := by
      cases hpu : a.purpose <;> simp_all [Purpose.slot?]
    simp [conclude, hpu]

theorem finish_pending (w : World n) (t : Fin n) :
    ((w.finish t).1.threads t).pending = (w.threads t).pending := by
  unfold World.finish
  split
  · rfl
  split
  · rfl
  · rw [conclude_thread.1, setThread_self]

/-- The mutex of a verdict is there, so the thread acts on it. -/
theorem Orderly.finish_eq (hw : w.Orderly) (ha : (w.threads t).arrived = some a) :
    (w.threads t).pending = none ∧ ∃ x, w.mutexes a.mutex = some x ∧
      w.finish t = (w.laidDown t).conclude t x a := by
  constructor
  · cases hp : (w.threads t).pending with
    | none => rfl
    | some p => simp [((hw.inOrder t).waits p hp).2.2] at ha
  · obtain ⟨x, hx⟩ := exists_mutex ((hw.inOrder t).known a ha)
    exact ⟨x, hx, by simp [World.finish, ha, hx, laidDown]⟩

theorem Orderly.finish (hw : w.Orderly) (ha : (w.threads t).arrived = some a) :
    Advance t w (w.finish t).1 := by
  obtain ⟨hp, x, hx, hfin⟩ := hw.finish_eq ha
  have hpost := hw.posting_conclude ha hp hx
  have hn := (hw.inOrder t).numbered
  rw [hfin]
  have hne : ∀ u ≠ t, (w.laidDown t).threads u = w.threads u := fun u hu => setThread_ne _ _ hu
  have hdown : Paired w.guardAt → Paired (w.laidDown t).guardAt := fun h => by
    rw [guardAt_laidDown]
    exact h.update_none _
  cases hs : a.purpose.slot? with
  | none =>
    exact (conclude_calm hs).advance (by simpa using hp) (by simp) (by simpa using hn) hne rfl hdown
      hpost
  | some r =>
    have hpu : a.purpose = .keep r := by
      cases hpu : a.purpose <;> simp_all [Purpose.slot?]
    have hth : ((w.laidDown t).conclude t x a).1.threads = (w.laidDown t).threads := by
      simp [conclude, hpu]
    refine ⟨hpost, fun u hu => by rw [hth, hne u hu], ?_, ?_, ?_, ?_⟩
    · exact .of_idle (by rw [hth]; simpa using hp) (by rw [hth]; simp) (by rw [hth]; simpa using hn)
    · intro k hk
      rw [hth] at hk
      simp [ThreadState.target?, hp] at hk
    · intro k s hk
      by_cases hkr : k = r
      · exact .inl (by simp [ThreadState.target?, hp, ha, hs, hkr])
      · simp only [conclude, hpu, storeResult_results, if_neg hkr] at hk
        exact .inr ⟨s, hk, rfl⟩
    · intro hpair
      simp only [conclude, hpu]
      rw [guardAt_storeResult, guard?_ofVerdict]
      exact (hdown hpair).update _ fun s hs => target_eq_of_arrival hs

/-- Every turn goes in order. -/
theorem Orderly.turn (hw : w.Orderly) {k : Turn n} {reply : Option Reply} (hk : w.Allows k)
    (h : w.turn k = some (v, reply)) : Advance k.thread w v := by
  cases k with
  | start t o =>
    simp only [World.turn] at h
    split at h
    · next hr =>
      cases hs : w.start t o with
      | error e => simp [hs, Except.toOption] at h
      | ok y =>
        obtain ⟨v', answer⟩ := y
        obtain ⟨rfl, -⟩ : v' = v ∧ answer = reply := by simpa [hs, Except.toOption] using h
        obtain ⟨-, hc⟩ | ⟨-, m, x, polling, p, hx, rfl, hslot⟩ := start_cases hk hs
        · exact hw.change hr hc
        · have hholder := hw.sound.holder_eq_inside (ledger_core hx)
          have hcall := attempt_of_call (t := t) hholder polling
          exact hw.arrive hr hx (fun r hr => ⟨(hslot r hr).1, fun u _ => (hslot r hr).2 u⟩) hcall
    · cases h
  | wake t =>
    obtain ⟨y, hy, he⟩ := Option.map_eq_some_iff.mp h
    obtain ⟨rfl, -⟩ := Prod.mk.inj he
    exact hw.wake hy
  | finish t =>
    simp only [World.turn] at h
    split at h
    · next ha =>
      obtain ⟨a, ha⟩ := Option.isSome_iff_exists.mp ha
      obtain ⟨rfl, -⟩ := Prod.mk.inj (Option.some.inj h)
      exact hw.finish ha
    · cases h

theorem Reachable.orderly (h : w.Reachable) : w.Orderly := by
  induction h with
  | initial => exact orderly_initial
  | turn _ ha ht ih => exact ih.advance (ih.turn ha ht)

theorem Orderly.finish_arrived (hw : w.Orderly) : ((w.finish t).1.threads t).arrived = none := by
  cases ha : (w.threads t).arrived with
  | none => simp [World.finish, ha]
  | some a =>
    obtain ⟨-, x, -, hfin⟩ := hw.finish_eq ha
    rw [hfin, conclude_thread.2]
    simp

/-- A thread acts on its verdict, if it has one. -/
theorem Reachable.finish (h : w.Reachable) (t : Fin n) : (w.finish t).1.Reachable ∧
    ∀ u, u = t ∨ (w.threads u).arrived = none → ((w.finish t).1.threads u).arrived = none := by
  cases ha : (w.threads t).arrived with
  | none =>
    have hfin : (w.finish t).1 = w := by simp [World.finish, ha]
    rw [hfin]
    exact ⟨h, fun u hu => hu.elim (fun hut => hut ▸ ha) id⟩
  | some a =>
    refine ⟨h.turn (x := .finish t) trivial (by simp [World.turn, ha]; rfl), fun u hu => ?_⟩
    by_cases hut : u = t
    · rw [hut]
      exact h.orderly.finish_arrived
    · rw [(h.orderly.finish ha).others u hut]
      exact hu.resolve_left hut

theorem Reachable.perform (h : w.Reachable) (hr : w.isResting t = true) {o : Op}
    (hp : w.Permits t o) {reply : Reply} (hv : w.perform t o = .ok (v, reply)) :
    v.Reachable ∧ ∀ u, (w.threads u).arrived = none → (v.threads u).arrived = none := by
  obtain ⟨⟨y, answer⟩, hy, he⟩ := except_map_eq_ok hv
  have hturn : w.turn (.start t o) = some (y, answer) := by
    simp [World.turn, hr, hy, Except.toOption]
  have hreach : y.Reachable := h.turn (x := .start t o) hp hturn
  have hothers := (h.orderly.turn (k := .start t o) hp hturn).others
  obtain ⟨ha, hc⟩ | ⟨rfl, -⟩ := start_cases hp hy
  · obtain ⟨r, rfl⟩ := Option.ne_none_iff_exists'.mp ha
    obtain rfl : y = v := congrArg Prod.fst he
    refine ⟨hreach, fun u hu => ?_⟩
    by_cases hut : u = t
    · rw [hut, hc.calm.arrived, ← hut, hu]
    · rw [hothers u hut, hu]
  · obtain rfl : (y.finish t).1 = v := congrArg Prod.fst he
    obtain ⟨hfin, hacted⟩ := hreach.finish t
    refine ⟨hfin, fun u hu => hacted u ?_⟩
    by_cases hut : u = t
    · exact .inl hut
    · rw [hothers u hut]
      exact .inr hu

theorem Reachable.resume (h : w.Reachable) {reply : Reply}
    (hv : w.resume? t = some (v, reply)) :
    v.Reachable ∧ ∀ u, (w.threads u).arrived = none → (v.threads u).arrived = none := by
  obtain ⟨y, hy, he⟩ := Option.map_eq_some_iff.mp hv
  obtain rfl : (y.finish t).1 = v := congrArg Prod.fst he
  have hwake : y.Reachable := h.turn (x := .wake t) trivial (by simp [World.turn, hy]; rfl)
  obtain ⟨hfin, hacted⟩ := hwake.finish t
  refine ⟨hfin, fun u hu => hacted u ?_⟩
  by_cases hut : u = t
  · exact .inl hut
  · rw [(h.orderly.wake hy).others u hut]
    exact .inr hu

theorem Reachable.settle (h : w.Reachable) (fuel : Nat) : (w.settle fuel).1.Reachable ∧
    ∀ u, (w.threads u).arrived = none → ((w.settle fuel).1.threads u).arrived = none := by
  induction fuel generalizing w with
  | zero => exact ⟨h, fun u hu => hu⟩
  | succ fuel ih =>
    unfold World.settle
    split
    · exact ⟨h, fun u hu => hu⟩
    · next y u reply hy =>
      obtain ⟨k, -, hk⟩ := List.exists_of_findSome?_eq_some hy
      obtain ⟨⟨y', reply'⟩, hr, he⟩ := Option.map_eq_some_iff.mp hk
      obtain rfl : y' = y := congrArg Prod.fst he
      obtain ⟨hreach, hacted⟩ := h.resume hr
      obtain ⟨hsettled, hall⟩ := ih hreach
      exact ⟨hsettled, fun u hu => hall u (hacted u hu)⟩

/-- An operation, with all that it sets going, is a run of turns. It leaves nobody with a verdict
that is not acted on. -/
theorem Reachable.step (h : w.Reachable) (hr : w.isResting t = true) {o : Op}
    (hp : w.Permits t o) {a : Reply × List (Fin n × Reply)} (hv : w.step t o = .ok (v, a)) :
    v.Reachable ∧ ∀ u, (w.threads u).arrived = none → (v.threads u).arrived = none := by
  unfold World.step at hv
  split at hv
  · obtain rfl : w = v := congrArg Prod.fst (Except.ok.inj hv)
    exact ⟨h, fun u hu => hu⟩
  obtain ⟨⟨y, reply⟩, hy, he⟩ := except_map_eq_ok hv
  obtain rfl : (y.settle n).1 = v := congrArg Prod.fst he
  obtain ⟨hreach, hacted⟩ := h.perform hr hp hy
  obtain ⟨hsettled, hall⟩ := hreach.settle n
  exact ⟨hsettled, fun u hu => hall u (hacted u hu)⟩

end World
end Guarded
end CheckedLock
