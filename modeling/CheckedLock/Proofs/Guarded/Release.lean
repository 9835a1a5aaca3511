import CheckedLock.Proofs.Guarded.Conservation

/-! The mark at a release. A release compares two numbers of exceptions. This finds a new exception
only if fewer of the old ones have ended, so a guard that outlives the exception under which it was
acquired can leave a later one without a mark. -/
namespace CheckedLock

namespace Core

variable {τ : Type} [DecidableEq τ]

/-- The steps of thread `t` from a point on, each with the core on which it is taken. -/
def trail (t : τ) : Nat → Core τ → Point → List (Point × Core τ)
  | 0, _, _ => []
  | fuel + 1, c, p => (p, c) :: match c.step t p with
    | none => []
    | some m => match m.progress with
      | .answer _ => []
      | .next q => trail t fuel m.core q

/-- A release leaves the primitive last, with the mark set. -/
theorem trail_release (t : τ) (c : Core τ) (unwinding : Bool) :
    (c.trail t callSteps (Request.release unwinding).entry).getLast? =
      some (.leaving, { c with owner := ⟨none⟩, poisoned := c.poisoned || unwinding }) := by
  cases unwinding <;> cases h : c.poisoned <;>
    simp [callSteps, Request.entry, trail, step, h, OwnerRecord.clear]

end Core

namespace Guarded

variable {n : Nat}

/-- The exceptions in flight now that were not in flight before. -/
def begun (before now : List Nat) : List Nat := now.filter (· ∉ before)

/-- What is in both lists counts on both sides. -/
theorem length_lt_iff_begun {before now : List Nat} (hb : before.Nodup) (hn : now.Nodup) :
    before.length < now.length ↔ (begun now before).length < (begun before now).length := by
  have hperm : (now.filter (· ∈ before)).Perm (before.filter (· ∈ now)) := by
    rw [List.perm_ext_iff_of_nodup (hn.filter _) (hb.filter _)]
    simp [and_comm]
  have h₁ := now.length_eq_length_filter_add (· ∈ before)
  have h₂ := before.length_eq_length_filter_add (· ∈ now)
  have h₃ := hperm.length_eq
  simp only [begun, decide_not]
  omega

/-- What becomes of the mark when thread `t` releases a lock, with `now` in flight and after an
acquisition with `before` in flight. -/
structure MarkedAtRelease (t : Fin n) (before now : List Nat) (c d : Core (Fin n)) : Prop where
  poisoned_iff : d.poisoned = true ↔
    c.poisoned = true ∨ (begun now before).length < (begun before now).length
  /-- Without a new exception the mark stays as it is. -/
  of_nothing_begun : begun before now = [] → d.poisoned = c.poisoned
  /-- When a new exception is enough for the mark. -/
  of_begun_iff : (begun before now ≠ [] → d.poisoned = true) ↔ c.poisoned = true ∨
    begun before now = [] ∨ (begun now before).length < (begun before now).length
  before_unlock : ∃ held,
    (c.trail t Core.callSteps
      (Request.release (decide (before.length < now.length))).entry).getLast? =
      some (.leaving, held) ∧
    held.inside = some t ∧ held.poisoned = d.poisoned ∧ d = { held with inside := none }

theorem markedAtRelease_freed {t : Fin n} {before now : List Nat} {c : Core (Fin n)}
    (hin : c.inside = some t) (hb : before.Nodup) (hn : now.Nodup) :
    MarkedAtRelease t before now c (c.freed (decide (before.length < now.length))) := by
  have hiff : (c.freed (decide (before.length < now.length))).poisoned = true ↔
      c.poisoned = true ∨ (begun now before).length < (begun before now).length := by
    simp [Core.freed, length_lt_iff_begun hb hn]
  refine ⟨hiff, ?_, ?_, ?_⟩
  · intro he
    rw [Bool.eq_iff_iff, hiff, he]
    simp
  · rw [hiff]
    tauto
  · exact ⟨_, Core.trail_release t c _, hin, rfl, rfl⟩

namespace World

variable {w v : World n}

/-- A lock that thread `t` has lost in a turn was released by it. -/
theorem Orderly.released (hw : w.Orderly) {k : Turn n} (h : Advance k.thread w v) {m : Name}
    {x y : Mutex n} {t : Fin n} (hx : w.mutexes m = some x) (hy : v.mutexes m = some y)
    (hin : x.core.inside = some t) (hout : y.core.inside ≠ some t) :
    k.thread = t ∧ ∃ before now, current m w.history = some (t, before) ∧
      v.history = .released m t now :: w.history ∧
      (now = w.inFlight t ∨ ∃ e ∉ w.inFlight t, now = e :: w.inFlight t) := by
  obtain ⟨before, hc⟩ := (hw.inside_iff hx t).mp hin
  have hv := hw.advance h
  have hgone : ¬ ∃ b, current m v.history = some (t, b) :=
    fun hb => hout ((hv.inside_iff hy t).mpr hb)
  obtain he | ⟨d, hd, he, hF⟩ := h.posting.history
  · exact absurd ⟨before, (show v.history = w.history from he) ▸ hc⟩ hgone
  have hlaw : Lawful (d :: w.history) := he ▸ hv.sound.lawful
  have hmutex : d.mutex = m := by
    by_contra hne
    refine hgone ⟨before, ?_⟩
    rw [show v.history = [d] ++ w.history from he, current_of_forall_ne (by simpa using hne)]
    exact hc
  cases d with
  | acquired m' u verdict F =>
    obtain rfl : m' = m := hmutex
    simp [hlaw.1] at hc
  | released m' u now =>
    obtain rfl : m' = m := hmutex
    obtain ⟨b, hb⟩ := hlaw.1
    obtain ⟨rfl, rfl⟩ := Prod.mk.inj (Option.some.inj (hb.symm.trans hc))
    obtain rfl : u = k.thread := hd
    exact ⟨rfl, b, now, hc, he, hF⟩

/-- However a guard has moved, its release marks the lock if and only if the new exceptions in
flight are more than the old ones that have ended. -/
theorem Reachable.marked_at_release (hw : w.Reachable) {k : Turn n} {reply : Option Reply}
    (hk : w.Allows k) (h : w.turn k = some (v, reply)) {m : Name} {x y : Mutex n} {t : Fin n}
    (hx : w.mutexes m = some x) (hy : v.mutexes m = some y) (hin : x.core.inside = some t)
    (hout : y.core.inside ≠ some t) :
    k.thread = t ∧ ∃ before now, current m w.history = some (t, before) ∧
      v.history = .released m t now :: w.history ∧
      (now = w.inFlight t ∨ ∃ e ∉ w.inFlight t, now = e :: w.inFlight t) ∧
      MarkedAtRelease t before now x.core y.core := by
  have hadv := hw.orderly.turn hk h
  have hv := hw.orderly.advance hadv
  obtain ⟨ht, before, now, hc, he, hF⟩ := hw.orderly.released hadv hx hy hin hout
  refine ⟨ht, before, now, hc, he, hF, ?_⟩
  have hb : before.Nodup := by
    obtain ⟨later, verdict, earlier, hh, -⟩ := exists_acquired_of_current hc
    exact hw.orderly.sound.history_nodup (.acquired m t verdict before)
      (show _ ∈ w.history by simp [hh])
  have hn : now.Nodup :=
    hv.sound.history_nodup (.released m t now) (show _ ∈ v.history by simp [he])
  have hxc : x.core = coreAfter m w.history := hw.orderly.sound.core_eq (ledger_core hx)
  have hyc : y.core = coreAfter m v.history := hv.sound.core_eq (ledger_core hy)
  have hfreed : y.core = x.core.freed (decide (before.length < now.length)) := by
    rw [hyc, he, coreAfter_released_self, ← hxc]
    simp [isLate, hc]
  rw [hfreed]
  exact markedAtRelease_freed hin hb hn

/-- An exception after the acquisition leaves its mark. -/
theorem marked_at_release_by_exception : ∃ (w v : World 1) (x y : Mutex 1), w.Reachable ∧
    w.turn (.start 0 (.result "r" .drop)) = some (v, some .done) ∧
    w.mutexes "m" = some x ∧ v.mutexes "m" = some y ∧ y.core.poisoned = true ∧
    ∃ before now, MarkedAtRelease 0 before now x.core y.core := by
  have h₁ := (Reachable.initial (n := 1)).turn (x := .start 0 (.mutex "m" (.create (.int 0))))
    rfl rfl
  have h₂ := h₁.turn (x := .start 0 (.mutex "m" (.lock "r"))) ⟨nofun, fun u => nofun⟩ rfl
  have h₃ := h₂.turn (x := .finish 0) trivial rfl
  have h := h₃.turn (x := .start 0 .throw) trivial rfl
  obtain ⟨-, before, now, -, -, -, hmark⟩ := h.marked_at_release
    (k := .start 0 (.result "r" .drop)) (m := "m") (by rintro s ⟨⟩; rfl) rfl
    (x := ⟨⟨⟨some 0⟩, some 0, false⟩, .int 0⟩) (y := ⟨⟨⟨none⟩, none, true⟩, .int 0⟩) rfl rfl rfl
    nofun
  exact ⟨_, _, _, _, h, rfl, rfl, rfl, rfl, before, now, hmark⟩

/-- The lock is acquired while exception 0 is in flight, and exception 1 passes the guard after the
first one has ended: two numbers that are equal, and no mark. -/
theorem not_marked_by_later_exception : ¬ ∀ (w v : World 1) (k : Turn 1) (reply : Option Reply)
    (m : Name) (x y : Mutex 1) (t : Fin 1) (before now : List Nat),
    w.Reachable → w.Allows k → w.turn k = some (v, reply) → w.mutexes m = some x →
    v.mutexes m = some y → current m w.history = some (t, before) →
    v.history = .released m t now :: w.history → begun before now ≠ [] →
    y.core.poisoned = true := by
  intro hlaw
  have h₁ := (Reachable.initial (n := 1)).turn (x := .start 0 (.mutex "m" (.create (.int 0))))
    rfl rfl
  have h₂ := h₁.turn (x := .start 0 .throw) trivial rfl
  have h₃ := h₂.turn (x := .start 0 (.mutex "m" (.lock "r"))) ⟨nofun, by decide⟩ rfl
  have h₄ := h₃.turn (x := .finish 0) trivial rfl
  have h₅ := h₄.turn (x := .start 0 .catch_) trivial rfl
  have h := h₅.turn (x := .start 0 .throw) trivial rfl
  have hmark := hlaw _ _ (.start 0 (.result "r" .drop)) _ "m" ⟨⟨⟨some 0⟩, some 0, false⟩, .int 0⟩
    ⟨⟨⟨none⟩, none, false⟩, .int 0⟩ 0 [0] [1] h (by rintro s ⟨⟩; rfl) rfl rfl rfl rfl rfl
    (by decide)
  exact Bool.false_ne_true hmark

end World
end Guarded
end CheckedLock
