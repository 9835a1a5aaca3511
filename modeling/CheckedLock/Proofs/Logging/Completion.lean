import CheckedLock.Proofs.Logging.Handling
import CheckedLock.Proofs.Logging.Headway

/-! What a shutdown leaves behind. The call that makes the stop request returns when everything is
done. A call that finds the request made returns at once and changes nothing, so it may be back
before the first one is. -/
namespace CheckedLock
namespace Logging

variable {τ κ σ : Type} {o : Outlet τ σ}

namespace Logger

variable {g g' : Logger τ κ σ} {a : Agent τ} {c c' : Caller τ κ}

/-- Nothing happens but that calls begin and end. -/
def Unmoved (g g' : Logger τ κ σ) : Prop :=
  ∃ es : List (Event τ κ), g' = { g with journal := es ++ g.journal } ∧ es.all Event.isMark = true

theorem CallerMoves.claim (h : CallerMoves o a c g c' g') (hc : c.place = .claiming) :
    c'.serial = c.serial ∧ ((g.requested = false ∧ c'.place.stage ≠ 0) ∨
      (g.requested = true ∧ c'.place = .idle ∧ Unmoved g g')) := by
  have hbusy : c.place ≠ .idle := by rw [hc]; exact nofun
  refine ⟨h.serial_eq hbusy, ?_⟩
  cases h with
  | claims _ hq => exact .inl ⟨hq, Nat.one_ne_zero⟩
  | returns hp =>
    refine .inr ⟨?_, rfl, [.returned a], rfl, rfl⟩
    obtain ⟨_, hp, -⟩ | ⟨_, hp, -⟩ | ⟨-, hq⟩ := hp
    · simp [hc] at hp
    · simp [hc] at hp
    · exact hq
  | refuses hp => simp [hc] at hp
  | calls hp | looks hp | pushes hp | notifies hp | waits hp | wakes hp | joins hp
    | skipsDispatcher hp | claimsDispatcher hp | wakesDispatcher hp | joinsDispatcher hp
    | completes hp =>
    rw [hc] at hp
    cases hp

/-- A call that has claimed the shutdown does not return before it is complete. -/
theorem CallerMoves.advance (h : CallerMoves o a c g c' g') (hc : c.place.stage ≠ 0) :
    c'.serial = c.serial ∧ (c'.place.stage ≠ 0 ∨ (c'.place = .idle ∧ g'.completed = true)) := by
  have hbusy : c.place ≠ .idle := by
    intro hp
    rw [hp] at hc
    exact hc rfl
  refine ⟨h.serial_eq hbusy, ?_⟩
  cases h with
  | completes => exact .inr ⟨rfl, rfl⟩
  | wakes | joins | skipsDispatcher | claimsDispatcher | wakesDispatcher | joinsDispatcher =>
    exact .inl nofun
  | refuses hp => rcases hp with hp | hp <;> exact absurd (by rw [hp]; rfl) hc
  | returns hp =>
    rcases hp with ⟨_, hp, -⟩ | ⟨_, hp, -⟩ | ⟨hp, -⟩ <;> exact absurd (by rw [hp]; rfl) hc
  | calls hp | looks hp | pushes hp | notifies hp | waits hp | claims hp =>
    exact absurd (by rw [hp]; rfl) hc

end Logger

namespace System

variable {s s' s₁ : System τ κ σ} {a : Agent τ}

/-- Every command that came into the queue is done, and the threads behind the queue have ended. -/
structure Complete (o : Outlet τ σ) (s : System τ κ σ) : Prop where
  completed : s.logger.completed = true
  stopped : s.logger.worker = .exited ∧ s.logger.dispatcher = .exited
  drained : s.logger.queue = [] ∧ s.logger.posts = []
  disposed : ∀ r, .write r ∈ s.logger.queued → s.logger.Disposed o r
  /-- Lines and calls of handlers are those of the commands. -/
  reported : ∃ xs d last, Desk.HandlesAll o {} s.logger.queued xs d ∧ d.Closes o last ∧
    s.logger.told Event.line? = (xs ++ last).filterMap Outcome.line? ∧
    s.logger.invocations = (xs ++ last).filterMap Outcome.post?

theorem Closing.finished {done : List (Command τ κ)} {xs last : List (Outcome τ κ)}
    (hn : s.Closing 7) (h : s.logger.Account o done xs last) : s.Complete o := by
  have hexited : s.logger.worker = .exited := hn.joined (by decide)
  have hdisp : s.logger.dispatcher = .exited := hn.dispatched (by decide)
  have hqueue : s.logger.queue = [] := (hn.drained (by rw [hexited]; rfl)).2
  have hposts : s.logger.posts = [] := (hn.delivered hdisp).2
  have hdue : s.logger.due = [] := by simp [Logger.due, hexited]
  have hend := h.ended
  simp only [hexited, WorkerPlace.isGone, WorkerPlace.isLast, if_true] at hend
  have hdone : done = s.logger.queued := by rw [h.queued, hend.2, List.append_nil]
  have hlines := h.worked
  have hcalls := h.posted
  rw [Logger.worked, hdue] at hlines
  rw [Logger.posted, hdue, hposts] at hcalls
  simp only [List.filterMap_nil, List.append_nil] at hlines hcalls
  exact {
    completed := hn.completed
    stopped := ⟨hexited, hdisp⟩
    drained := ⟨hqueue, hposts⟩
    disposed := fun r hr => (h.handled_done hdue).disposed (hdone ▸ hr)
    reported := ⟨xs, s.logger.desk, last, hdone ▸ h.handled, hend.1, hlines, hcalls⟩ }

variable [DecidableEq τ] {react : κ → String → Reaction κ} {k : Nat}

/-- Call number `k` of `a` has claimed the shutdown. -/
def Leads (s : System τ κ σ) (a : Agent τ) (k : Nat) : Prop :=
  ((s.callers a).serial = k ∧ (s.callers a).place.stage ≠ 0) ∨
    ((s.callers a).HasReturned k ∧ s.logger.completed = true)

theorem Leads.step (h : s.Leads a k) {x : Actor τ} (hs : s.step o react x = some s') :
    s'.Leads a k := by
  obtain ⟨hk, hc⟩ | ⟨hk, hdone⟩ := h
  · obtain hm | ⟨hp, hn⟩ := step_view hs a
    · obtain ⟨hn, hc' | ⟨hidle, hdone⟩⟩ := hm.advance hc
      · exact .inl ⟨hn.trans hk, hc'⟩
      · exact .inr ⟨.inr ⟨hk.symm.trans hn.symm, hidle⟩, hdone⟩
    · exact .inl ⟨hn.trans hk, by rw [hp]; exact hc⟩
  · exact .inr ⟨(Reachable.start.step x hs).hasReturned hk, (step_extends hs).completed hdone⟩

/-- Call number `k` of `a`, a shutdown, is about to claim it, has claimed it, or is over. -/
def ShutsDown (s : System τ κ σ) (a : Agent τ) (k : Nat) : Prop :=
  ((s.callers a).serial = k ∧ (s.callers a).place = .claiming) ∨ s.Leads a k ∨
    ((s.callers a).HasReturned k ∧ s.logger.requested = true)

/-- The request is made, and call number `k` of `a`, a shutdown, is to find it so, or is over. -/
def ComesLate (s : System τ κ σ) (a : Agent τ) (k : Nat) : Prop :=
  s.logger.requested = true ∧
    (((s.callers a).serial = k ∧ (s.callers a).place = .claiming) ∨ (s.callers a).HasReturned k)

theorem ShutsDown.step (h : s.ShutsDown a k) {x : Actor τ} (hs : s.step o react x = some s') :
    s'.ShutsDown a k := by
  obtain ⟨hk, hc⟩ | hleads | ⟨hk, hq⟩ := h
  · obtain hm | ⟨hp, hn⟩ := step_view hs a
    · obtain ⟨hn, ⟨-, hc'⟩ | ⟨hq, hidle, -⟩⟩ := hm.claim hc
      · exact .inr (.inl (.inl ⟨hn.trans hk, hc'⟩))
      · exact .inr (.inr ⟨.inr ⟨hk.symm.trans hn.symm, hidle⟩, (step_extends hs).requested hq⟩)
    · exact .inl ⟨hn.trans hk, hp.trans hc⟩
  · exact .inr (.inl (hleads.step hs))
  · exact .inr (.inr ⟨(Reachable.start.step x hs).hasReturned hk, (step_extends hs).requested hq⟩)

theorem ComesLate.step (h : s.ComesLate a k) {x : Actor τ} (hs : s.step o react x = some s') :
    s'.ComesLate a k := by
  obtain ⟨hq, ⟨hk, hc⟩ | hk⟩ := h
  · refine ⟨(step_extends hs).requested hq, ?_⟩
    obtain hm | ⟨hp, hn⟩ := step_view hs a
    · obtain ⟨hn, ⟨hopen, -⟩ | ⟨-, hidle, -⟩⟩ := hm.claim hc
      · rw [hq] at hopen
        cases hopen
      · exact .inr (.inr ⟨hk.symm.trans hn.symm, hidle⟩)
    · exact .inl ⟨hn.trans hk, hp.trans hc⟩
  · exact ⟨(step_extends hs).requested hq, .inr ((Reachable.start.step x hs).hasReturned hk)⟩

theorem Begins.shutdown (h : s.Begins o react a .shutdown s') :
    s.logger.Unmoved s'.logger ∧ (s'.callers a).serial = (s.callers a).serial + 1 ∧
      ((s'.callers a).place = .claiming ∨
        ((s'.callers a).place = .idle ∧ s.logger.completed = true)) := by
  obtain ⟨rest, c, g, hb, rfl⟩ := h.eq
  simp only [Logger.begin] at hb
  split at hb
  case isTrue hq =>
    cases hb
    exact ⟨⟨[.returned a, .called a .shutdown], rfl, rfl⟩, by simp, .inr ⟨by simp, hq⟩⟩
  case isFalse =>
    cases hb
    exact ⟨⟨[.called a .shutdown], rfl, rfl⟩, by simp, .inl (by simp)⟩

/-- A call that begins when the shutdown is complete is over at once. -/
theorem Begins.shutsDown {n : Nat} (h : s.Begins o react a .shutdown s') (hn : s.Closing n) :
    s'.ShutsDown a ((s.callers a).serial + 1) := by
  obtain ⟨-, hk, hc | ⟨hidle, hdone⟩⟩ := h.shutdown
  · exact .inl ⟨hk, hc⟩
  · have h₇ : 7 ≤ n := by simpa [hn.completed] using hdone
    have h₁ : 1 ≤ n := Nat.le_trans (by decide) h₇
    exact .inr (.inr ⟨.inr ⟨hk.symm, hidle⟩,
      (step_extends h.step).requested (by simpa [hn.requested] using h₁)⟩)

variable {store : σ} {todo : τ → List (Call κ)}

theorem Reachable.complete (hr : Reachable o react (System.start store todo) s)
    (hc : s.logger.completed = true) : s.Complete o := by
  obtain ⟨n, hn⟩ := hr.closing
  obtain ⟨done, xs, last, haccount⟩ := hr.account
  have h₇ : 7 ≤ n := by simpa [hn.completed] using hc
  obtain rfl : n = 7 := Nat.le_antisymm hn.le h₇
  exact hn.finished haccount

/-- The call that has claimed the shutdown returns when it is complete. -/
theorem completed_of_leads (hk : (s.callers a).serial = k) (hc : (s.callers a).place.stage ≠ 0)
    (hrun : Reachable o react s s') (hret : (s'.callers a).HasReturned k) :
    s'.logger.completed = true := by
  obtain ⟨hk', hc'⟩ | ⟨-, hdone⟩ :=
    hrun.preserves (p := fun u => u.Leads a k) (fun h hs => h.step hs) (.inl ⟨hk, hc⟩)
  · obtain hlt | ⟨-, hidle⟩ := hret
    · exact absurd hk' (Nat.ne_of_gt hlt)
    · rw [hidle] at hc'
      exact absurd rfl hc'
  · exact hdone

end System
end Logging
end CheckedLock
