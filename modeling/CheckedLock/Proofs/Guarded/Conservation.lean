import CheckedLock.Proofs.Guarded.Turn

/-! Conservation of guards. A held mutex has exactly one guard object, in a slot of the thread that
holds it or in the hand of that thread, and a free mutex has none. -/
namespace CheckedLock
namespace Guarded
namespace World

variable {n : Nat}

/-- The guard object at `p` belongs to thread `t` and locks `m`. -/
def Locks (w : World n) (p : Place n) (m : Name) (t : Fin n) : Prop :=
  ∃ g, w.guardAt p = some ⟨t, g⟩ ∧ g.lock = some m

/-- A guard object is in a slot, not in the hand of a thread amid an operation. -/
def Place.IsSlot : Place n → Prop
  | .result _ | .guard _ => True
  | .hand _ => False

/-- Guards and held mutexes go together. -/
structure Conserved (w : World n) : Prop where
  unique : ∀ {m p q t u}, w.Locks p m t → w.Locks q m u → p = q
  held_iff : ∀ {m x}, w.mutexes m = some x → ∀ t, x.core.inside = some t ↔ ∃ p, w.Locks p m t
  known : ∀ {p m t}, w.Locks p m t → w.mutexes m ≠ none
  /-- Between operations of a thread its guards are in its slots. -/
  isSlot : ∀ {p m t}, w.Locks p m t → (w.threads t).arrived = none → Place.IsSlot p
  target_eq : ∀ {p t g}, w.guardAt p = some ⟨t, g⟩ → g.target = g.lock
  /-- A turn unlocks one mutex at most, and only one that its thread holds. -/
  unlocks_own : ∀ {k v reply}, w.Allows k → w.turn k = some (v, reply) →
    v.history = w.history ∨ ∃ d, v.history = d :: w.history ∧ d.thread = k.thread ∧
      ∀ m t now, d = .released m t now → ∃ x, w.mutexes m = some x ∧ x.core.inside = some t
  /-- A lock that another thread holds is left alone. -/
  keeps_others : ∀ {k v reply}, w.Allows k → w.turn k = some (v, reply) →
    ∀ {m x t}, w.mutexes m = some x → x.core.inside = some t → t ≠ k.thread →
      ∃ y, v.mutexes m = some y ∧ y.core = x.core
  /-- Without slots a thread holds nothing between its operations. -/
  without_slots : ∀ {t}, (w.threads t).arrived = none →
    (∀ r, ∀ s ∈ w.results r, s.thread ≠ t) → (∀ g, ∀ s ∈ w.guards g, s.thread ≠ t) →
    ∀ {m x}, w.mutexes m = some x → x.core.inside ≠ some t

variable {w v : World n} {t : Fin n} {m : Name} {p : Place n}

theorem locks_iff : w.Locks p m t ↔ ∃ d, w.ledger.hold p = some ⟨t, m, d⟩ := by
  constructor
  · rintro ⟨g, hg, hl⟩
    exact ⟨g.depth, by simp [ledger, hg, Slot.hold?, hl]⟩
  · rintro ⟨d, hd⟩
    simp only [ledger, Option.bind_eq_some_iff, Slot.hold?, Option.map_eq_some_iff] at hd
    obtain ⟨⟨u, g⟩, hg, k, hk, he⟩ := hd
    obtain ⟨rfl, rfl, -⟩ := Hold.mk.inj he
    exact ⟨g, hg, hk⟩

theorem Locks.isSlot (hp : w.Locks p m t) (ha : (w.threads t).arrived = none) :
    Place.IsSlot p := by
  obtain ⟨g, hg, -⟩ := hp
  cases p with
  | result r => trivial
  | guard k => trivial
  | hand u =>
    obtain ⟨a, hau, hm⟩ := Option.bind_eq_some_iff.mp hg
    obtain ⟨_, -, he⟩ := Option.map_eq_some_iff.mp hm
    obtain ⟨rfl, -⟩ := Slot.mk.inj he
    simp [ha] at hau

/-- A guard in a slot belongs to the thread that filled the slot. -/
theorem Locks.exists_slot (hp : w.Locks p m t) (hs : Place.IsSlot p) :
    (∃ r, ∃ s ∈ w.results r, s.thread = t) ∨ ∃ g, ∃ s ∈ w.guards g, s.thread = t := by
  obtain ⟨g, hg, -⟩ := hp
  cases p with
  | result r =>
    obtain ⟨s, hs, hm⟩ := Option.bind_eq_some_iff.mp hg
    obtain ⟨_, -, he⟩ := Option.map_eq_some_iff.mp hm
    exact .inl ⟨r, s, hs, (Slot.mk.inj he).1⟩
  | guard k => exact .inr ⟨k, _, hg, rfl⟩
  | hand u => exact hs.elim

namespace Orderly

variable (hw : w.Orderly)
include hw

theorem inside_iff {x : Mutex n} (hx : w.mutexes m = some x) (t : Fin n) :
    x.core.inside = some t ↔ ∃ before, current m w.history = some (t, before) := by
  have he : x.core = coreAfter m w.history := hw.sound.core_eq (ledger_core hx)
  rw [he]
  simp [coreAfter]

theorem locks_iff_current (t : Fin n) (m : Name) :
    (∃ p, w.Locks p m t) ↔ ∃ before, current m w.history = some (t, before) := by
  constructor
  · rintro ⟨p, hp⟩
    obtain ⟨d, hd⟩ := locks_iff.mp hp
    obtain ⟨before, hc, -⟩ := hw.sound.current_of_hold hd
    exact ⟨before, hc⟩
  · rintro ⟨before, hc⟩
    obtain ⟨p, ⟨u, k, d⟩, hp, rfl⟩ := hw.sound.hold_of_current hc
    obtain ⟨b, hb, -⟩ := hw.sound.current_of_hold hp
    obtain ⟨rfl, -⟩ := Prod.mk.inj (Option.some.inj (hc.symm.trans hb))
    exact ⟨p, locks_iff.mpr ⟨d, hp⟩⟩

theorem inside_iff_locks {x : Mutex n} (hx : w.mutexes m = some x) (t : Fin n) :
    x.core.inside = some t ↔ ∃ p, w.Locks p m t :=
  (hw.inside_iff hx t).trans (hw.locks_iff_current t m).symm

theorem locks_unique {q : Place n} {u : Fin n} (hp : w.Locks p m t) (hq : w.Locks q m u) :
    p = q := by
  obtain ⟨d, hd⟩ := locks_iff.mp hp
  obtain ⟨e, he⟩ := locks_iff.mp hq
  exact hw.sound.unique hd he rfl

theorem known_of_locks (hp : w.Locks p m t) : w.ledger.core m ≠ none := by
  obtain ⟨d, hd⟩ := locks_iff.mp hp
  obtain ⟨c, hc⟩ := hw.sound.exists_core hd
  simp [show w.ledger.core m = some c from hc]

end Orderly

theorem Reachable.conserved (h : w.Reachable) : w.Conserved := by
  have hw := h.orderly
  constructor
  case held_iff => exact hw.inside_iff_locks
  case unique => exact hw.locks_unique
  case known =>
    intro p m t hp
    obtain ⟨x, hx⟩ := exists_mutex (hw.known_of_locks hp)
    simp [hx]
  case isSlot => exact Locks.isSlot
  case target_eq =>
    intro p t g hg
    exact hw.paired p _ hg
  case unlocks_own =>
    intro k v reply hk ht
    have hadv := hw.turn hk ht
    obtain he | ⟨d, hd, he, -⟩ := hadv.posting.history
    · exact .inl he
    refine .inr ⟨d, he, hd, ?_⟩
    rintro m t now rfl
    have hlaw : Lawful (.released m t now :: w.history) := he ▸ (hw.advance hadv).sound.lawful
    obtain ⟨p, hp⟩ := (hw.locks_iff_current t m).mpr hlaw.1
    obtain ⟨x, hx⟩ := exists_mutex (hw.known_of_locks hp)
    exact ⟨x, hx, (hw.inside_iff_locks hx t).mpr ⟨p, hp⟩⟩
  case keeps_others =>
    intro k v reply hk ht m x t hx hin hother
    have hadv := hw.turn hk ht
    obtain ⟨before, hc⟩ := (hw.inside_iff hx t).mp hin
    obtain ⟨y, hy⟩ := exists_mutex (m := m) (hadv.posting.core_ne_none (by simp [ledger_core hx]))
    refine ⟨y, hy, ?_⟩
    calc y.core = coreAfter m v.history := (hw.advance hadv).sound.core_eq (ledger_core hy)
      _ = coreAfter m w.history := hadv.posting.coreAfter_eq hw.sound hother hc
      _ = x.core := (hw.sound.core_eq (ledger_core hx)).symm
  case without_slots =>
    intro t ha hr hg m x hx hin
    obtain ⟨p, hp⟩ := (hw.inside_iff_locks hx t).mp hin
    obtain ⟨r, s, hs, rfl⟩ | ⟨k, s, hs, rfl⟩ := hp.exists_slot (hp.isSlot ha)
    · exact hr r s hs rfl
    · exact hg k s hs rfl

/-- One thread holds the mutex by a moved guard and the other waits for it. -/
theorem conserved_while_waiting : ∃ w : World 2, w.Reachable ∧ w.Locks (.guard "g") "m" 0 ∧
    w.isWaiting 1 = true ∧ w.Conserved := by
  have h₁ := (Reachable.initial (n := 2)).turn (x := .start 0 (.mutex "m" (.create (.int 0))))
    rfl rfl
  have h₂ := h₁.turn (x := .start 0 (.mutex "m" (.lock "r"))) ⟨nofun, fun u => nofun⟩ rfl
  have h₃ := h₂.turn (x := .finish 0) trivial rfl
  have h₄ := h₃.turn (x := .start 1 (.mutex "m" (.lock "s"))) ⟨nofun, by decide⟩ rfl
  have h := h₄.turn (x := .start 0 (.result "r" (.content "g")))
    ⟨by rintro s ⟨⟩; rfl, nofun⟩ rfl
  exact ⟨_, h, ⟨.holding "m" 0, rfl, rfl⟩, rfl, h.conserved⟩

end World
end Guarded
end CheckedLock
