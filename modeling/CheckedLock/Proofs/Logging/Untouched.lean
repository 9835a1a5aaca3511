import CheckedLock.Proofs.Logging.Traffic

/-! A logger that is shut down before anybody has used it. In every order of the steps its level and
its sink stay what they were, and the worker never has a command. -/
namespace CheckedLock
namespace Logging

variable {τ κ σ : Type}

/-- The thread has no command in its hands. -/
def Place.isEmptyHanded : Place τ κ → Bool
  | .checking _ | .pushing _ | .notifying _ => false
  | _ => true

/-- The worker has no batch, and all that it reports is a last flush that failed. -/
def WorkerPlace.isEmptyHanded : WorkerPlace τ κ → Bool
  | .processing _ | .posting _ _ | .alerting _ => false
  | .reporting r => r.rest.isNone
  | _ => true

/-- The thread calls for the end of the logger and for nothing else. -/
structure Caller.OnlyShutsDown (c : Caller τ κ) : Prop where
  todo : ∀ call ∈ c.todo, call = .shutdown
  place : c.place.isEmptyHanded = true

namespace Logger

/-- The logger has this level and this sink, and nothing is on its way that would change them. -/
structure Unused (l : Level) (k : Sink) (g : Logger τ κ σ) : Prop where
  threshold : g.threshold = l
  sink : g.sink = k
  handler : g.handler = none
  queue : g.queue = []
  posts : g.posts = []
  worker : g.worker.isEmptyHanded = true

variable {l : Level} {k : Sink} {o : Outlet τ σ} {a : Agent τ} {c c' : Caller τ κ}
  {g g' : Logger τ κ σ} {react : κ → String → Reaction κ}

theorem Unused.wake (h : g.Unused l k) : g.wake.Unused l k := by
  unfold Logger.wake
  split
  · exact ⟨h.threshold, h.sink, h.handler, h.queue, h.posts, rfl⟩
  · exact h

theorem Unused.wakeDispatcher (h : g.Unused l k) : g.wakeDispatcher.Unused l k := by
  unfold Logger.wakeDispatcher
  split
  · exact ⟨h.threshold, h.sink, h.handler, h.queue, h.posts, h.worker⟩
  · exact h

/-- After its last report the worker is gone. -/
theorem Unused.reported (h : g.Unused l k) {r : Report τ κ} (hr : r.rest = none) :
    (g.reported r).Unused l k := by
  obtain ⟨message, ticket, rest⟩ := r
  obtain rfl : rest = none := hr
  cases ticket <;> exact ⟨h.threshold, h.sink, h.handler, h.queue, h.posts, rfl⟩

theorem CallerMoves.unused (h : CallerMoves o a c g c' g') (hg : g.Unused l k)
    (hc : c.OnlyShutsDown) : g'.Unused l k ∧ c'.OnlyShutsDown := by
  have hplace := hc.place
  have moved : ∀ {p : Place τ κ}, p.isEmptyHanded = true →
      Caller.OnlyShutsDown { c with place := p } := fun hp => ⟨hc.todo, hp⟩
  obtain ⟨hl, hk, hh, hq, hp, hw⟩ := hg
  cases h with
  | @calls call rest hidle ht c' g' hb =>
    have hshut : ∀ x ∈ rest, x = .shutdown := fun x hx => hc.todo x (by simp [ht, hx])
    obtain rfl : call = .shutdown := hc.todo call (by simp [ht])
    simp only [begin] at hb
    split at hb
    · obtain ⟨rfl, rfl⟩ := Prod.mk.inj hb
      exact ⟨⟨hl, hk, hh, hq, hp, hw⟩, hshut, rfl⟩
    · obtain ⟨rfl, rfl⟩ := Prod.mk.inj hb
      exact ⟨⟨hl, hk, hh, hq, hp, hw⟩, hshut, rfl⟩
  | looks hpl => simp [hpl, Place.isEmptyHanded] at hplace
  | refuses hpl => obtain hpl | hpl := hpl <;> simp [hpl, Place.isEmptyHanded] at hplace
  | pushes hpl => simp [hpl, Place.isEmptyHanded] at hplace
  | notifies hpl => simp [hpl, Place.isEmptyHanded] at hplace
  | waits | joins | skipsDispatcher | joinsDispatcher =>
    exact ⟨⟨hl, hk, hh, hq, hp, hw⟩, moved rfl⟩
  | returns | claims | claimsDispatcher | completes =>
    exact ⟨⟨hl, hk, hh, hq, hp, hw⟩, moved rfl⟩
  | wakes => exact ⟨.wake ⟨hl, hk, hh, hq, hp, hw⟩, moved rfl⟩
  | wakesDispatcher => exact ⟨.wakeDispatcher ⟨hl, hk, hh, hq, hp, hw⟩, moved rfl⟩

theorem WorkerMoves.unused (h : WorkerMoves o g g') (hg : g.Unused l k) : g'.Unused l k := by
  obtain ⟨hl, hk, hh, hq, hp, hw⟩ := hg
  have empty : ∀ {p : WorkerPlace τ κ}, g.worker = p → p.isEmptyHanded = true := fun h => h ▸ hw
  cases h with
  | closes | dozes | sleeps | leaves | failsToFlush => exact ⟨hl, hk, hh, hq, hp, rfl⟩
  | takes _ hne => exact absurd hq hne
  | ends hpl | handles hpl | posts hpl | alerts hpl => cases empty hpl
  | @prints r hpl =>
    have hnoted : (g.note (.printed r.message)).Unused l k := ⟨hl, hk, hh, hq, hp, hw⟩
    exact hnoted.reported (Option.isNone_iff_eq_none.mp (empty hpl))
  | drops _ hsome | addresses _ hsome => cases hh.symm.trans hsome

theorem DispatcherMoves.unused (h : DispatcherMoves react c g c' g') (hg : g.Unused l k) :
    g'.Unused l k ∧ c' = c := by
  obtain ⟨hl, hk, hh, hq, hp, hw⟩ := hg
  cases h with
  | exits | dozes | sleeps | ends | throws => exact ⟨⟨hl, hk, hh, hq, hp, hw⟩, rfl⟩
  | invokes _ hpost => cases hp.symm.trans hpost

end Logger

namespace System

/-- All that anybody wants of the logger is its end. -/
structure Untouched (l : Level) (k : Sink) (s : System τ κ σ) : Prop where
  logger : s.logger.Unused l k
  callers : ∀ a, (s.callers a).OnlyShutsDown

variable {l : Level} {k : Sink} {o : Outlet τ σ} {react : κ → String → Reaction κ}
  {s s' : System τ κ σ} {store : σ} {todo : τ → List (Call κ)}

variable [DecidableEq τ]

theorem Untouched.step (h : s.Untouched l k) {x : Actor τ} (hs : s.step o react x = some s') :
    s'.Untouched l k := by
  obtain ⟨a, c, g, rfl, hm, rfl⟩ | ⟨g, rfl, hm, rfl⟩ | ⟨c, g, rfl, hm, rfl⟩ := step_cases hs
  · obtain ⟨hg, hc⟩ := hm.unused h.logger (h.callers a)
    refine ⟨hg, fun b => ?_⟩
    by_cases hb : b = a
    · rw [hb]
      simpa using hc
    · simpa [setCaller_ne _ _ hb] using h.callers b
  · exact ⟨hm.unused h.logger, h.callers⟩
  · obtain ⟨hg, rfl⟩ := hm.unused h.logger
    refine ⟨hg, fun b => ?_⟩
    by_cases hb : b = .dispatcher
    · rw [hb]
      simpa using h.callers .dispatcher
    · simpa [setCaller_ne _ _ hb] using h.callers b

end System
end Logging
end CheckedLock
