import CheckedLock.Proofs.Guarded.Change

/-! The order of a run. A thread waits for one mutex or has its verdict on one, and it aims at a
slot of its own. What a turn does to this is said once for all turns; a run of turns keeps it up. -/
namespace CheckedLock
namespace Guarded
namespace World

variable {n : Nat}

/-- How thread `t` stands while others act. -/
structure InOrder (w : World n) (t : Fin n) : Prop where
  waits : ∀ p, (w.threads t).pending = some p →
    p.point = .entering false ∧ w.ledger.core p.mutex ≠ none ∧ (w.threads t).arrived = none
  known : ∀ a, (w.threads t).arrived = some a → w.ledger.core a.mutex ≠ none
  verdict : ∀ a, (w.threads t).arrived = some a → a.verdict.holds = true →
    a.verdict = (coreAfter a.mutex w.history).grant
  mine : ∀ r, (w.threads t).target? = some r → Mine t (w.results r)
  /-- The next exception has a new number. -/
  numbered : ∀ e ∈ (w.threads t).inFlight, e < (w.threads t).thrown

structure Orderly (w : World n) : Prop where
  sound : w.ledger.Sound
  inOrder : ∀ t, w.InOrder t
  apart : ∀ t u r, (w.threads t).target? = some r → (w.threads u).target? = some r → t = u
  paired : Paired w.guardAt

theorem orderly_initial : Orderly ({} : World n) where
  sound := by rw [ledger_initial]; exact Ledger.sound_blank
  inOrder t := by constructor <;> simp [ThreadState.target?]
  apart := by simp [ThreadState.target?]
  paired p s hs := by cases p <;> cases hs

/-- What a turn of thread `t` does to a world, as far as the order goes. -/
structure Advance (t : Fin n) (w v : World n) : Prop where
  posting : w.ledger.Posting t v.ledger
  others : ∀ u ≠ t, v.threads u = w.threads u
  inOrder : v.InOrder t
  apart : ∀ r, (v.threads t).target? = some r → ∀ u ≠ t, (w.threads u).target? ≠ some r
  /-- Slots change hands no more than to become free; the thread may fill its target. -/
  results : ∀ r s, v.results r = some s →
    (w.threads t).target? = some r ∨ ∃ s₀, w.results r = some s₀ ∧ s₀.thread = s.thread
  paired : Paired w.guardAt → Paired v.guardAt

variable {w v : World n} {t : Fin n}

theorem hold_hand {a : Arrival} (ha : (w.threads t).arrived = some a) :
    w.ledger.hold (.hand t) = (a.guard?.map (Slot.mk t)).bind Slot.hold? := by
  simp [ledger, guardAt, ha]

theorem hold_hand_of_holds {a : Arrival} (ha : (w.threads t).arrived = some a)
    (hv : a.verdict.holds = true) : w.ledger.hold (.hand t) = some ⟨t, a.mutex, a.depth⟩ := by
  simp [hold_hand ha, Arrival.guard?, hv]

theorem hold_hand_of_none (ha : (w.threads t).arrived = none) :
    w.ledger.hold (.hand t) = none := by simp [ledger, guardAt, ha]

/-- A thread with a good verdict is the holder of the mutex. -/
theorem Orderly.current_of_arrived (hw : w.Orderly) {a : Arrival}
    (ha : (w.threads t).arrived = some a) (hv : a.verdict.holds = true) :
    ∃ before, current a.mutex w.history = some (t, before) ∧ before.length = a.depth :=
  hw.sound.current_of_hold (hold_hand_of_holds ha hv)

theorem Orderly.inOrder_other (hw : w.Orderly) (h : Advance t w v) {u : Fin n} (hu : u ≠ t) :
    v.InOrder u := by
  have hi := hw.inOrder u
  constructor
  case waits =>
    intro p hp
    rw [h.others u hu] at hp ⊢
    obtain ⟨hpt, hm, ha⟩ := hi.waits p hp
    exact ⟨hpt, h.posting.core_ne_none hm, ha⟩
  case known =>
    intro a ha
    rw [h.others u hu] at ha
    exact h.posting.core_ne_none (hi.known a ha)
  case verdict =>
    intro a ha hv
    rw [h.others u hu] at ha
    obtain ⟨before, hc, -⟩ := hw.current_of_arrived ha hv
    have he : coreAfter a.mutex v.history = coreAfter a.mutex w.history :=
      h.posting.coreAfter_eq hw.sound hu hc
    rw [he]
    exact hi.verdict a ha hv
  case mine =>
    intro r hr s hs
    rw [h.others u hu] at hr
    obtain ht | ⟨s₀, h₀, he⟩ := h.results r s hs
    · exact absurd (hw.apart u t r hr ht) hu
    · exact he ▸ hi.mine r hr s₀ h₀
  case numbered =>
    rw [h.others u hu]
    exact hi.numbered

theorem Orderly.advance (hw : w.Orderly) (h : Advance t w v) : v.Orderly where
  sound := h.posting.sound hw.sound
  inOrder u := by
    by_cases hu : u = t
    · exact hu ▸ h.inOrder
    · exact hw.inOrder_other h hu
  apart x u r hx hu := by
    by_cases hxt : x = t
    · by_cases hut : u = t
      · rw [hxt, hut]
      · subst hxt
        rw [h.others u hut] at hu
        exact absurd hu (h.apart r hx u hut)
    · rw [h.others x hxt] at hx
      by_cases hut : u = t
      · subst hut
        exact absurd hx (h.apart r hu x hxt)
      · rw [h.others u hut] at hu
        exact hw.apart x u r hx hu
  paired := h.paired hw.paired

/-- A thread that has neither a wait nor a verdict is in order. -/
theorem InOrder.of_idle (hp : (v.threads t).pending = none) (ha : (v.threads t).arrived = none)
    (hn : ∀ e ∈ (v.threads t).inFlight, e < (v.threads t).thrown) : v.InOrder t := by
  constructor
  case numbered => exact hn
  all_goals simp [hp, ha, ThreadState.target?]

/-- Between `w` and `u` the thread puts down its verdict; after that it only changes things. -/
theorem Calm.advance {u : World n} (h : Calm t u v) (hp : (u.threads t).pending = none)
    (ha : (u.threads t).arrived = none)
    (hn : ∀ e ∈ (u.threads t).inFlight, e < (u.threads t).thrown)
    (hothers : ∀ x ≠ t, u.threads x = w.threads x) (hresults : u.results = w.results)
    (hpaired : Paired w.guardAt → Paired u.guardAt) (hl : w.ledger.Posting t v.ledger) :
    Advance t w v where
  posting := hl
  others x hx := (h.others x hx).trans (hothers x hx)
  inOrder := .of_idle (h.pending.trans hp) (h.arrived.trans ha) (h.numbered hn)
  apart r hr := by simp [ThreadState.target?, h.pending, h.arrived, hp, ha] at hr
  results r s hs := .inr (hresults ▸ h.results r s hs)
  paired := h.paired ∘ hpaired

theorem Orderly.change (hw : w.Orderly) (hr : w.isResting t = true) (h : Change t w v) :
    Advance t w v := by
  simp only [isResting, Bool.and_eq_true, Option.isNone_iff_eq_none] at hr
  have hn := (hw.inOrder t).numbered
  exact h.calm.advance hr.1 hr.2 hn (fun _ _ => rfl) rfl id (h.posting (hw.sound.nodup t) hn)

end World
end Guarded
end CheckedLock
