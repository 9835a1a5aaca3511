import CheckedLock.Proofs.Lock.Exclusion

/-! Threads that take a lock and give it back in good order. As long as nobody poisons the lock,
each step of such a thread leads from one phase to the next, and the answers are the ones expected.
-/
namespace CheckedLock

/-- How far a thread has come between two rests without the lock. -/
inductive Phase
  | free
  | acquiring (polling : Bool)
  | holding
  /-- a holder at the start of a second acquisition -/
  | retrying (polling : Bool)
  | releasing
  deriving DecidableEq, Repr

namespace Phase

def Admits : Phase → Member → Prop
  | .free, m => m = ⟨.resting, false⟩
  | .acquiring polling, m => ∃ p, m = ⟨.calling (.acquire polling) p, false⟩
  | .holding, m => m = ⟨.resting, true⟩
  | .retrying polling, m => m = ⟨.calling (.acquire polling) (.checking polling), true⟩
  | .releasing, m => ∃ p, p ≠ .marking ∧ m = ⟨.calling (.release false) p, false⟩

variable {m : Member} {polling : Bool}

theorem Admits.standing_free (h : free.Admits m) : m.standing = .outside := by
  subst h; rfl

theorem Admits.standing_holding (h : holding.Admits m) : m.standing = .recorded := by
  subst h; rfl

theorem Admits.start_free (polling : Bool) (h : free.Admits m) :
    ∃ m', m.start? (.acquire polling) = some m' ∧ (acquiring polling).Admits m' := by
  subst h
  exact ⟨_, rfl, _, rfl⟩

theorem Admits.start_holding (polling : Bool) (h : holding.Admits m) :
    ∃ m', m.start? (.acquire polling) = some m' ∧ (retrying polling).Admits m' := by
  subst h
  exact ⟨_, rfl, rfl⟩

theorem Admits.start_release (h : holding.Admits m) :
    ∃ m', m.start? (.release false) = some m' ∧ releasing.Admits m' := by
  subst h
  exact ⟨_, rfl, _, by decide, rfl⟩

end Phase

/-- Only the primitive makes a thread wait. -/
theorem Member.advance?_isSome {τ : Type} [DecidableEq τ] {m : Member} {r : Request} {p : Point}
    (t : τ) {c : Core τ} (hs : m.stage = .calling r p)
    (hfree : p = .entering false → c.inside = none) : (m.advance? t c).isSome := by
  simp only [advance?, hs, Option.isSome_map]
  cases p with
  | checking polling => simp only [Core.step]; split <;> rfl
  | entering polling =>
    cases hin : c.inside with
    | none => simp [Core.step, hin]
    | some u => cases polling <;> simp_all [Core.step]
  | _ => rfl

namespace Crew

variable {τ : Type} {s : Crew τ} {t : τ}

namespace Consistent

theorem inside_of_admits (hc : s.Consistent) (hm : Phase.holding.Admits (s.members t)) :
    s.core.inside = some t := by
  rw [hc.inside_iff, hm.standing_holding]
  decide

theorem inside_of_releasing (hc : s.Consistent) (hm : Phase.releasing.Admits (s.members t)) :
    s.core.inside = some t := by
  obtain ⟨p, -, hm⟩ := hm
  have hs : (s.members t).stage = .calling (.release false) p := by rw [hm]
  have hpass := (hc.placed t).passes hs
  rw [hc.inside_iff, Member.standing_of_stage hs]
  cases p <;> simp_all [Request.passes, Point.standing?]

variable [DecidableEq τ] {e : Effect τ} {polling : Bool}

/-- A thread waits only for another one that is inside. -/
theorem advance?_isSome (hc : s.Consistent) {r : Request} {p : Point}
    (hs : (s.members t).stage = .calling r p) (hfree : ∀ u, s.core.inside = some u → u = t) :
    ((s.members t).advance? t s.core).isSome := by
  refine Member.advance?_isSome t hs fun hp => ?_
  subst hp
  by_contra hne
  obtain ⟨u, hu⟩ := Option.ne_none_iff_exists'.mp hne
  obtain rfl := hfree u hu
  rw [hc.inside_iff, Member.standing_of_stage hs] at hu
  exact hu rfl

theorem advance?_isSome_of_polling (hc : s.Consistent)
    (hm : (Phase.acquiring true).Admits (s.members t)) :
    ((s.members t).advance? t s.core).isSome := by
  obtain ⟨p, hm⟩ := hm
  have hs : (s.members t).stage = .calling (.acquire true) p := by rw [hm]
  refine Member.advance?_isSome t hs fun hp => ?_
  subst hp
  exact absurd ((hc.placed t).passes hs) (by simp [Request.passes])

/-- A call that only takes the lock goes on, or ends with the lock, or finds it taken. -/
theorem advance_acquiring (hc : s.Consistent) (hp : s.core.poisoned = false)
    (hm : (Phase.acquiring polling).Admits (s.members t))
    (he : (s.members t).advance? t s.core = some e) :
    e.core.poisoned = false ∧
      (e.answer = none ∧ (Phase.acquiring polling).Admits e.member ∨
        e.answer = some (.verdict .acquired) ∧ Phase.holding.Admits e.member ∧
          s.core.inside = some t ∨
        e.answer = some (.verdict .wouldBlock) ∧ Phase.free.Admits e.member ∧ polling = true) := by
  obtain ⟨p, hm⟩ := hm
  have hs : (s.members t).stage = .calling (.acquire polling) p := by rw [hm]
  have hpass := (hc.placed t).passes hs
  have hinside := hc.inside_iff t
  rw [Member.standing_of_stage hs] at hinside
  rw [hm] at he
  cases p with
  | checking b =>
    have hn : s.core.owner.names (some t) = false := by
      rw [Bool.eq_false_iff, Ne, ← hc.inside_iff_names hs rfl, hc.inside_iff_holding hs rfl, hm]
      simp
    obtain rfl : b = polling := hpass
    simp only [Member.advance?, Core.step, hn, Bool.false_eq_true, if_false, Option.map_some,
      Option.some.injEq] at he
    subst he
    exact ⟨hp, .inl ⟨rfl, _, rfl⟩⟩
  | entering b =>
    obtain rfl : b = polling := hpass
    cases hin : s.core.inside with
    | none =>
      simp only [Member.advance?, Core.step, hin, Option.map_some, Option.some.injEq] at he
      subst he
      exact ⟨hp, .inl ⟨rfl, _, rfl⟩⟩
    | some u =>
      cases b with
      | false => simp [Member.advance?, Core.step, hin] at he
      | true =>
        simp only [Member.advance?, Core.step, hin, if_true, Option.map_some,
          Option.some.injEq] at he
        subst he
        exact ⟨hp, .inr (.inr ⟨rfl, rfl, rfl⟩)⟩
  | recording =>
    simp only [Member.advance?, Core.step, Option.map_some, Option.some.injEq] at he
    subst he
    exact ⟨hp, .inl ⟨rfl, _, rfl⟩⟩
  | inspecting =>
    simp only [Member.advance?, Core.step, hp, Bool.false_eq_true, if_false, Option.map_some,
      Option.some.injEq] at he
    subst he
    exact ⟨hp, .inr (.inl ⟨rfl, rfl, hinside.mpr (by simp [Point.standing?])⟩)⟩
  | _ => exact absurd hpass (by simp [Request.passes])

/-- A holder that asks for the lock again is turned away. -/
theorem advance_retrying (hc : s.Consistent)
    (hm : (Phase.retrying polling).Admits (s.members t))
    (he : (s.members t).advance? t s.core = some e) :
    e.core = s.core ∧ e.answer = some (.verdict .lockedByCurrentThread) ∧
      Phase.holding.Admits e.member := by
  have hs : (s.members t).stage = .calling (.acquire polling) (.checking polling) := by
    rw [hm]
  have hn : s.core.owner.names (some t) = true := by
    rw [← hc.inside_iff_names hs rfl, hc.inside_iff_holding hs rfl, hm]
  rw [hm] at he
  simp only [Member.advance?, Core.step, hn, if_true, Option.map_some, Option.some.injEq] at he
  subst he
  exact ⟨rfl, rfl, rfl⟩

theorem advance_releasing (hc : s.Consistent) (hp : s.core.poisoned = false)
    (hm : Phase.releasing.Admits (s.members t))
    (he : (s.members t).advance? t s.core = some e) :
    e.core.poisoned = false ∧
      (e.answer = none ∧ Phase.releasing.Admits e.member ∨
        e.answer = some .released ∧ Phase.free.Admits e.member) := by
  obtain ⟨p, hmark, hm⟩ := hm
  have hs : (s.members t).stage = .calling (.release false) p := by rw [hm]
  have hpass := (hc.placed t).passes hs
  rw [hm] at he
  cases p with
  | judging u =>
    obtain rfl : u = false := hpass
    simp only [Member.advance?, Core.step, Bool.false_and, Bool.false_eq_true, if_false,
      Option.map_some, Option.some.injEq] at he
    subst he
    exact ⟨hp, .inl ⟨rfl, _, by decide, rfl⟩⟩
  | clearing =>
    simp only [Member.advance?, Core.step, Option.map_some, Option.some.injEq] at he
    subst he
    exact ⟨hp, .inl ⟨rfl, _, by decide, rfl⟩⟩
  | leaving =>
    simp only [Member.advance?, Core.step, Option.map_some, Option.some.injEq] at he
    subst he
    exact ⟨hp, .inr ⟨rfl, rfl⟩⟩
  | marking => exact absurd rfl hmark
  | _ => exact absurd hpass (by simp [Request.passes])

end Consistent
end Crew
end CheckedLock
