import Mathlib.Logic.Basic
import Mathlib.Tactic.ByContra
import CheckedLock.Lock.Crew

/-! Mutual exclusion around one lock, under every order of the threads' steps. What a thread has of
the lock is a function of the place it is at: nothing, the primitive alone, or the primitive and the
record. The invariant says that the two shared variables are determined by these standings; that the
unguarded look at the record is sound follows from it. -/
namespace CheckedLock

/-- What a thread has of the lock. -/
inductive Standing
  | outside
  /-- inside the primitive, but not on record -/
  | unrecorded
  | recorded
  deriving DecidableEq, Repr

namespace Standing

def ofHolding (holding : Bool) : Standing := if holding then .recorded else .outside

@[simp] theorem ofHolding_true : ofHolding true = .recorded := rfl
@[simp] theorem ofHolding_false : ofHolding false = .outside := rfl

end Standing

/-- What a thread at this point has of the lock; `none` where holders and others may both be. -/
def Point.standing? : Point → Option Standing
  | .entering _ => some .outside
  | .recording | .leaving => some .unrecorded
  | .inspecting | .judging _ | .marking | .clearing => some .recorded
  | .checking _ | .asking | .reading => none

/-- The points that a call goes through. -/
def Request.passes : Request → Point → Prop
  | .acquire polling, .checking p | .acquire polling, .entering p => p = polling
  | .acquire _, .recording | .acquire _, .inspecting => True
  | .release unwinding, .judging u => u = unwinding
  | .release _, .marking | .release _, .clearing | .release _, .leaving => True
  | .owned, .asking => True
  | .poisoned, .reading => True
  | _, _ => False

theorem Request.passes_entry (r : Request) : r.passes r.entry := by
  cases r <;> simp [Request.passes, Request.entry]

namespace Member

def standing (m : Member) : Standing :=
  match m.stage with
  | .resting => .ofHolding m.holding
  | .calling _ p => p.standing?.getD (.ofHolding m.holding)

/-- The thread is at a point of its own call, and is a holder only where holders can be. -/
def Placed (m : Member) : Prop :=
  ∀ r p, m.stage = .calling r p → r.passes p ∧ (p.standing? ≠ none → m.holding = false)

theorem placed_resting (holding : Bool) : Placed ⟨.resting, holding⟩ := by
  intro r p h
  cases h

theorem Placed.passes {m : Member} (h : m.Placed) {r : Request} {p : Point}
    (hs : m.stage = .calling r p) : r.passes p := (h r p hs).1

theorem Placed.holding_eq_false {m : Member} (h : m.Placed) {r : Request} {p : Point}
    (hs : m.stage = .calling r p) (hp : p.standing? ≠ none) : m.holding = false := (h r p hs).2 hp

theorem standing_of_stage {m : Member} {r : Request} {p : Point} (hs : m.stage = .calling r p) :
    m.standing = p.standing?.getD (.ofHolding m.holding) := by
  simp [standing, hs]

theorem placed_calling {r : Request} {p : Point} {holding : Bool} (hp : r.passes p)
    (hh : p.standing? ≠ none → holding = false) : Placed ⟨.calling r p, holding⟩ := by
  rintro r' p' ⟨⟩
  exact ⟨hp, hh⟩

@[simp] theorem standing_resting (holding : Bool) :
    standing ⟨.resting, holding⟩ = .ofHolding holding := rfl

@[simp] theorem standing_calling (r : Request) (p : Point) (holding : Bool) :
    standing ⟨.calling r p, holding⟩ = p.standing?.getD (.ofHolding holding) := rfl

@[simp] theorem finish_flag (m : Member) (b : Bool) :
    m.finish (.flag b) = ⟨.resting, m.holding⟩ := rfl

@[simp] theorem finish_released (m : Member) : m.finish .released = ⟨.resting, m.holding⟩ := rfl

@[simp] theorem finish_verdict (m : Member) (v : Verdict) :
    m.finish (.verdict v) = ⟨.resting, m.holding || v.holds⟩ := rfl

/-- To begin a call changes nothing of what a thread has. -/
theorem start?_placed {m m' : Member} {r : Request} (h : m.start? r = some m') :
    m'.Placed ∧ m'.standing = m.standing := by
  rcases m with ⟨stage, holding⟩
  cases stage with
  | calling _ _ => simp [start?] at h
  | resting =>
    simp only [start?, Option.ite_none_right_eq_some, Option.some.injEq] at h
    obtain ⟨hmay, rfl⟩ := h
    cases r with
    | release unwinding =>
      have hh : holding = true := hmay
      subst hh
      exact ⟨placed_calling (Request.passes_entry _) fun _ => rfl, rfl⟩
    | acquire polling =>
      exact ⟨placed_calling (Request.passes_entry _) fun h => absurd rfl h, rfl⟩
    | owned => exact ⟨placed_calling (Request.passes_entry _) fun h => absurd rfl h, rfl⟩
    | poisoned => exact ⟨placed_calling (Request.passes_entry _) fun h => absurd rfl h, rfl⟩

end Member

namespace Crew

variable {τ : Type}

/-- The primitive and the record are what the standings say. -/
structure Consistent (s : Crew τ) : Prop where
  placed : ∀ t, (s.members t).Placed
  inside_iff : ∀ t, s.core.inside = some t ↔ (s.members t).standing ≠ .outside
  owner_iff : ∀ t, s.core.owner.holder = some t ↔ (s.members t).standing = .recorded

theorem consistent_initial : Consistent ({} : Crew τ) where
  placed _ := Member.placed_resting false
  inside_iff t := by simp [Member.standing]
  owner_iff t := by simp [Member.standing]

namespace Consistent

variable {s : Crew τ} {t : τ} {m : Member}

theorem inside_of_owner (h : s.Consistent) (ht : s.core.owner.holder = some t) :
    s.core.inside = some t := by
  rw [h.inside_iff, (h.owner_iff t).mp ht]
  decide

/-- While a thread is inside, nobody else is on record. -/
theorem owner_eq_of_inside (h : s.Consistent) {u : τ} (ht : s.core.inside = some t)
    (hu : s.core.owner.holder = some u) : u = t := by
  have := h.inside_of_owner hu
  simp_all

theorem owner_eq_none (h : s.Consistent) (ht : (s.members t).standing = .unrecorded) :
    s.core.owner.holder = none := by
  have hin : s.core.inside = some t := by rw [h.inside_iff, ht]; decide
  by_contra hne
  obtain ⟨u, hu⟩ := Option.ne_none_iff_exists'.mp hne
  have := h.owner_eq_of_inside hin hu
  subst this
  simp [(h.owner_iff u).mp hu] at ht

theorem stage_of_unrecorded (h : s.Consistent) {t : τ}
    (ht : (s.members t).standing = .unrecorded) :
    (∃ polling, (s.members t).stage = .calling (.acquire polling) .recording) ∨
      ∃ unwinding, (s.members t).stage = .calling (.release unwinding) .leaving := by
  cases hs : (s.members t).stage with
  | resting => cases hh : (s.members t).holding <;> simp [Member.standing, hs, hh] at ht
  | calling r p =>
    have hpass := (h.placed t).passes hs
    rw [Member.standing_of_stage hs] at ht
    cases p with
    | recording => cases r <;> simp_all [Request.passes]
    | leaving => cases r <;> simp_all [Request.passes]
    | _ => cases hh : (s.members t).holding <;> simp [Point.standing?, hh] at ht

theorem recorded_of_holding (h : s.Consistent) {t : τ} (ht : (s.members t).holding = true) :
    (s.members t).standing = .recorded := by
  cases hs : (s.members t).stage with
  | resting => simp [Member.standing, hs, ht]
  | calling r p =>
    have hp : p.standing? = none := by
      by_contra hne
      simp [(h.placed t).holding_eq_false hs hne] at ht
    simp [Member.standing_of_stage hs, hp, ht]

/-- Where holders and others may both be, a thread is inside if it is a holder. -/
theorem inside_iff_holding (h : s.Consistent) {t : τ} {r : Request} {p : Point}
    (hs : (s.members t).stage = .calling r p) (hp : p.standing? = none) :
    s.core.inside = some t ↔ (s.members t).holding = true := by
  rw [h.inside_iff, Member.standing_of_stage hs, hp]
  cases (s.members t).holding <;> simp

variable [DecidableEq τ]

/-- A step that leaves the variables and the standing of its thread alone. -/
theorem keep (h : s.Consistent) (hm : m.Placed) (hst : m.standing = (s.members t).standing)
    {c : Core τ} (hi : c.inside = s.core.inside) (ho : c.owner = s.core.owner) :
    ({ s with core := c }.setMember t m).Consistent where
  placed u := by
    by_cases hu : u = t
    · subst hu; simpa using hm
    · simpa [setMember_ne _ _ hu] using h.placed u
  inside_iff u := by
    by_cases hu : u = t
    · subst hu; simpa [hi, hst] using h.inside_iff u
    · simpa [setMember_ne _ _ hu, hi] using h.inside_iff u
  owner_iff u := by
    by_cases hu : u = t
    · subst hu; simpa [ho, hst] using h.owner_iff u
    · simpa [setMember_ne _ _ hu, ho] using h.owner_iff u

/-- The step that takes the free primitive. -/
theorem enter (h : s.Consistent) (hm : m.Placed) (hfree : s.core.inside = none)
    (hst : m.standing = .unrecorded) :
    ({ s with core := { s.core with inside := some t } }.setMember t m).Consistent where
  placed u := by
    by_cases hu : u = t
    · subst hu; simpa using hm
    · simpa [setMember_ne _ _ hu] using h.placed u
  inside_iff u := by
    by_cases hu : u = t
    · subst hu; simp [hst]
    · have hout := h.inside_iff u
      simp only [hfree, reduceCtorEq, false_iff, not_not] at hout
      simp [setMember_ne _ _ hu, hout, Ne.symm hu]
  owner_iff u := by
    have hout : ∀ v, (s.members v).standing = .outside := fun v => by
      simpa [hfree] using h.inside_iff v
    by_cases hu : u = t
    · subst hu; simpa [hst, hout u] using h.owner_iff u
    · simpa [setMember_ne _ _ hu] using h.owner_iff u

/-- The step that writes the identity of the thread inside down. -/
theorem record (h : s.Consistent) (hm : m.Placed) (hin : s.core.inside = some t)
    (hst : m.standing = .recorded) :
    ({ s with core := { s.core with owner := ⟨some t⟩ } }.setMember t m).Consistent where
  placed u := by
    by_cases hu : u = t
    · subst hu; simpa using hm
    · simpa [setMember_ne _ _ hu] using h.placed u
  inside_iff u := by
    by_cases hu : u = t
    · subst hu; simp [hst, hin]
    · simpa [setMember_ne _ _ hu] using h.inside_iff u
  owner_iff u := by
    by_cases hu : u = t
    · subst hu; simp [hst]
    · have hout : (s.members u).standing = .outside := by
        by_contra hne
        have := (h.inside_iff u).mpr hne
        simp_all
      simp [setMember_ne _ _ hu, hout, Ne.symm hu]

/-- The step that wipes the record before the primitive is left. -/
theorem clear (h : s.Consistent) (hm : m.Placed) (hin : s.core.inside = some t)
    (hst : m.standing = .unrecorded) :
    ({ s with core := { s.core with owner := ⟨none⟩ } }.setMember t m).Consistent where
  placed u := by
    by_cases hu : u = t
    · subst hu; simpa using hm
    · simpa [setMember_ne _ _ hu] using h.placed u
  inside_iff u := by
    by_cases hu : u = t
    · subst hu; simp [hst, hin]
    · simpa [setMember_ne _ _ hu] using h.inside_iff u
  owner_iff u := by
    by_cases hu : u = t
    · subst hu; simp [hst]
    · have hne : (s.members u).standing ≠ .recorded := fun hrec =>
        hu (h.owner_eq_of_inside hin ((h.owner_iff u).mpr hrec))
      simp [setMember_ne _ _ hu, hne]

/-- The step that leaves the primitive. -/
theorem leave (h : s.Consistent) (hm : m.Placed) (hold : (s.members t).standing = .unrecorded)
    (hst : m.standing = .outside) :
    ({ s with core := { s.core with inside := none } }.setMember t m).Consistent where
  placed u := by
    by_cases hu : u = t
    · subst hu; simpa using hm
    · simpa [setMember_ne _ _ hu] using h.placed u
  inside_iff u := by
    by_cases hu : u = t
    · subst hu; simp [hst]
    · have hin : s.core.inside = some t := by rw [h.inside_iff, hold]; decide
      have hout := h.inside_iff u
      simp only [hin, Option.some.injEq, Ne.symm hu, false_iff, not_not] at hout
      simp [setMember_ne _ _ hu, hout]
  owner_iff u := by
    have hnone := h.owner_eq_none hold
    by_cases hu : u = t
    · subst hu; simp [hst, hnone]
    · simpa [setMember_ne _ _ hu] using h.owner_iff u

theorem start (h : s.Consistent) {r : Request} (hm : (s.members t).start? r = some m) :
    (s.setMember t m).Consistent := by
  obtain ⟨hplaced, hst⟩ := Member.start?_placed hm
  exact h.keep hplaced hst rfl rfl

/-- One case for each point that the thread can be at. -/
theorem advance (h : s.Consistent) {e : Effect τ}
    (he : (s.members t).advance? t s.core = some e) :
    ({ s with core := e.core }.setMember t e.member).Consistent := by
  cases hs : (s.members t).stage with
  | resting => simp [Member.advance?, hs] at he
  | calling r p =>
    have hpass := (h.placed t).passes hs
    have hst := Member.standing_of_stage hs
    have hout := (h.placed t).holding_eq_false hs
    simp only [Member.advance?, hs] at he
    cases p with
    | checking polling =>
      by_cases hn : s.core.owner.names (some t) = true
      · have hrec : (s.members t).standing = .recorded := by
          simpa [OwnerRecord.names, h.owner_iff] using hn
        simp only [Core.step, hn, if_true, Option.map_some, Option.some.injEq] at he
        subst he
        refine h.keep (Member.placed_resting _) ?_ rfl rfl
        simpa [Verdict.holds, Point.standing?] using hst.symm
      · have hrec : (s.members t).standing ≠ .recorded := by
          simpa [OwnerRecord.names, h.owner_iff] using hn
        -- a holder is on record at this point, so the thread that goes on is none
        have hh : (s.members t).holding = false := by
          cases hh : (s.members t).holding <;> simp_all [Point.standing?]
        simp only [Core.step, hn, Bool.false_eq_true, if_false, Option.map_some,
          Option.some.injEq] at he
        subst he
        refine h.keep (Member.placed_calling ?_ fun _ => hh) ?_ rfl rfl
        · cases r <;> simp_all [Request.passes]
        · simp [hst, hh, Point.standing?]
    | entering polling =>
      have hh := hout (by simp [Point.standing?])
      cases hin : s.core.inside with
      | none =>
        simp only [Core.step, hin, Option.map_some, Option.some.injEq] at he
        subst he
        refine h.enter (Member.placed_calling ?_ fun _ => hh) hin rfl
        cases r <;> simp_all [Request.passes]
      | some u =>
        cases polling with
        | false => simp [Core.step, hin] at he
        | true =>
          simp only [Core.step, hin, if_true, Option.map_some, Option.some.injEq] at he
          subst he
          refine h.keep (Member.placed_resting _) ?_ rfl rfl
          simp [hst, hh, Verdict.holds, Point.standing?]
    | recording =>
      have hh := hout (by simp [Point.standing?])
      have hin : s.core.inside = some t := by rw [h.inside_iff, hst]; simp [Point.standing?]
      simp only [Core.step, Option.map_some, Option.some.injEq] at he
      subst he
      refine h.record (Member.placed_calling ?_ fun _ => hh) hin rfl
      cases r <;> simp_all [Request.passes]
    | inspecting =>
      simp only [Core.step, Option.map_some, Option.some.injEq] at he
      subst he
      refine h.keep (Member.placed_resting _) ?_ rfl rfl
      cases s.core.poisoned <;> simp [hst, Verdict.holds, Point.standing?]
    | judging unwinding =>
      have hh := hout (by simp [Point.standing?])
      simp only [Core.step, Option.map_some, Option.some.injEq] at he
      subst he
      refine h.keep (Member.placed_calling ?_ fun _ => hh) ?_ rfl rfl
      · cases r <;> split <;> simp_all [Request.passes]
      · split <;> simp [hst, Point.standing?]
    | marking =>
      have hh := hout (by simp [Point.standing?])
      simp only [Core.step, Option.map_some, Option.some.injEq] at he
      subst he
      refine h.keep (Member.placed_calling ?_ fun _ => hh) ?_ rfl rfl
      · cases r <;> simp_all [Request.passes]
      · simp [hst, Point.standing?]
    | clearing =>
      have hh := hout (by simp [Point.standing?])
      have hin : s.core.inside = some t := by rw [h.inside_iff, hst]; simp [Point.standing?]
      simp only [Core.step, Option.map_some, Option.some.injEq] at he
      subst he
      refine h.clear (Member.placed_calling ?_ fun _ => hh) hin rfl
      cases r <;> simp_all [Request.passes]
    | leaving =>
      have hh := hout (by simp [Point.standing?])
      simp only [Core.step, Option.map_some, Option.some.injEq] at he
      subst he
      refine h.leave (Member.placed_resting _) ?_ ?_
      · simp [hst, Point.standing?]
      · simp [hh]
    | asking =>
      simp only [Core.step, Option.map_some, Option.some.injEq] at he
      subst he
      refine h.keep (Member.placed_resting _) ?_ rfl rfl
      simp [hst, Point.standing?]
    | reading =>
      simp only [Core.step, Option.map_some, Option.some.injEq] at he
      subst he
      refine h.keep (Member.placed_resting _) ?_ rfl rfl
      simp [hst, Point.standing?]

theorem act (h : s.Consistent) {a : Action τ} {o : Observation τ} (ho : s.act a = some o) :
    o.crew.Consistent := by
  cases a with
  | start t r =>
    obtain ⟨m, hm, rfl⟩ := Option.map_eq_some_iff.mp ho
    exact h.start hm
  | advance t =>
    obtain ⟨e, he, rfl⟩ := Option.map_eq_some_iff.mp ho
    exact h.advance he

end Consistent

variable [DecidableEq τ]

theorem Reachable.consistent {s : Crew τ} (h : s.Reachable) : s.Consistent := by
  induction h with
  | initial => exact consistent_initial
  | act _ ha ih => exact ih.act ha

/-- Mutual exclusion, as far as it shows in one state. -/
structure Exclusive (s : Crew τ) : Prop where
  inside_of_names : ∀ t, s.core.owner.names (some t) = true → s.core.inside = some t
  /-- The thread inside is on record, or it is about to write itself down, or about to leave. -/
  names_of_inside : ∀ t, s.core.inside = some t →
    s.core.owner.names (some t) = true ∨
      s.core.owner.names none = true ∧
        ((∃ polling, (s.members t).stage = .calling (.acquire polling) .recording) ∨
          ∃ unwinding, (s.members t).stage = .calling (.release unwinding) .leaving)
  /-- A thread that has acquired the lock and not begun to release it is inside and on record. -/
  inside_of_holding : ∀ t, (s.members t).holding = true →
    s.core.inside = some t ∧ s.core.owner.names (some t) = true
  /-- The check before an acquisition turns away the holder and nobody else. -/
  checking_iff : ∀ t r polling, (s.members t).stage = .calling r (.checking polling) →
    ((s.act (.advance t)).bind (·.answer) = some (.verdict .lockedByCurrentThread) ↔
      s.core.inside = some t) ∧
    (s.core.inside = some t ↔ (s.members t).holding = true)
  asking_eq : ∀ t r, (s.members t).stage = .calling r .asking →
    (s.act (.advance t)).bind (·.answer) = some (.flag (decide (s.core.inside = some t)))
  /-- Nobody takes the primitive twice. -/
  entering_ne : ∀ t r polling, (s.members t).stage = .calling r (.entering polling) →
    s.core.inside ≠ some t
  /-- Nobody leaves a primitive that it is not in. -/
  leaving_eq : ∀ t r, (s.members t).stage = .calling r .leaving → s.core.inside = some t
  /-- From taking the primitive to leaving it there is one thread at most. -/
  alone : ∀ t u, (s.members t).standing ≠ .outside → (s.members u).standing ≠ .outside → t = u

namespace Consistent

variable {s : Crew τ}

theorem names_iff (h : s.Consistent) (t : τ) :
    s.core.owner.names (some t) = true ↔ (s.members t).standing = .recorded := by
  simp [OwnerRecord.names, h.owner_iff]

theorem inside_iff_names (h : s.Consistent) {t : τ} {r : Request} {p : Point}
    (hs : (s.members t).stage = .calling r p) (hp : p.standing? = none) :
    s.core.inside = some t ↔ s.core.owner.names (some t) = true := by
  rw [h.names_iff, h.inside_iff, Member.standing_of_stage hs, hp]
  cases (s.members t).holding <;> simp

end Consistent

theorem Reachable.exclusive {s : Crew τ} (h : s.Reachable) : s.Exclusive := by
  have hc := h.consistent
  constructor
  case inside_of_names =>
    intro t ht
    exact hc.inside_of_owner (by simpa [OwnerRecord.names] using ht)
  case names_of_inside =>
    intro t ht
    cases hst : (s.members t).standing with
    | outside => exact absurd hst ((hc.inside_iff t).mp ht)
    | recorded => exact .inl ((hc.names_iff t).mpr hst)
    | unrecorded =>
      have hnone : s.core.owner.names none = true := by
        simp [OwnerRecord.names, hc.owner_eq_none hst]
      exact .inr ⟨hnone, hc.stage_of_unrecorded hst⟩
  case inside_of_holding =>
    intro t ht
    have hn := (hc.names_iff t).mpr (hc.recorded_of_holding ht)
    exact ⟨hc.inside_of_owner (by simpa [OwnerRecord.names] using hn), hn⟩
  case checking_iff =>
    intro t r polling hs
    refine ⟨?_, hc.inside_iff_holding hs rfl⟩
    rw [hc.inside_iff_names hs rfl]
    cases hn : s.core.owner.names (some t) <;>
      simp [Crew.act, Member.advance?, hs, Core.step, hn]
  case asking_eq =>
    intro t r hs
    have hn := hc.inside_iff_names hs rfl
    cases hd : s.core.owner.names (some t) <;>
      simp_all [Crew.act, Member.advance?, Core.step]
  case entering_ne =>
    intro t r polling hs
    rw [Ne, hc.inside_iff, Member.standing_of_stage hs]
    simp [Point.standing?]
  case leaving_eq =>
    intro t r hs
    rw [hc.inside_iff, Member.standing_of_stage hs]
    simp [Point.standing?]
  case alone =>
    intro t u ht hu
    have hin := (hc.inside_iff t).mpr ht
    simpa [(hc.inside_iff u).mpr hu] using hin.symm

/-- One thread has just taken the primitive and another is on its way to it. -/
theorem exclusive_while_unrecorded : ∃ s : Crew (Fin 2),
    s.Reachable ∧ s.core.inside = some 0 ∧ s.core.owner.holder = none ∧
      (s.members 1).stage = .calling (.acquire true) (.entering true) ∧ s.Exclusive := by
  have h₁ := (Reachable.initial (τ := Fin 2)).act (a := .start 0 (.acquire false)) rfl
  have h₂ := (h₁.act (a := .advance 0) rfl).act (a := .advance 0) rfl
  have h := (h₂.act (a := .start 1 (.acquire true)) rfl).act (a := .advance 1) rfl
  exact ⟨_, h, rfl, rfl, rfl, h.exclusive⟩

end Crew
end CheckedLock
