import CheckedLock.Proofs.Lock.Exclusion
import Mathlib.Data.List.Count
/-! What a lock reports, under every order of the threads' steps. The thread that is about to set
the mark has found it clear, and nobody else sets it before. -/
namespace CheckedLock

variable {τ : Type}

/-- Two threads cannot both be where only the thread inside is. -/
theorem Crew.Consistent.eq_of_marking {s : Crew τ} (h : s.Consistent) {t u : τ} {r q : Request}
    (ht : (s.members t).stage = .calling r .marking)
    (hu : (s.members u).stage = .calling q .marking) : t = u := by
  have inside : ∀ {v : τ} {r : Request}, (s.members v).stage = .calling r .marking →
      s.core.inside = some v := by
    intro v r hv
    rw [h.inside_iff, Member.standing_of_stage hv]
    simp [Point.standing?]
  exact Option.some.inj ((inside ht).symm.trans (inside hu))

variable [DecidableEq τ]

namespace Core

/-- What a step comes to. -/
inductive Moves (t : τ) (c : Core τ) : Point → Move τ → Prop
  | rejected {polling : Bool} : c.owner.names (some t) = true → Moves t c (.checking polling)
    ⟨c, .answer (.verdict .lockedByCurrentThread), some (.reentry polling)⟩
  | checked {polling : Bool} : c.owner.names (some t) = false →
    Moves t c (.checking polling) ⟨c, .next (.entering polling), none⟩
  | entered {polling : Bool} : c.inside = none →
    Moves t c (.entering polling) ⟨{ c with inside := some t }, .next .recording, none⟩
  | turnedAway {u : τ} : c.inside = some u →
    Moves t c (.entering true) ⟨c, .answer (.verdict .wouldBlock), none⟩
  | recorded :
    Moves t c .recording ⟨{ c with owner := c.owner.set (some t) }, .next .inspecting, none⟩
  | acquired : Moves t c .inspecting ⟨c, .answer (.verdict c.grant), none⟩
  | judgedLate : c.poisoned = false → Moves t c (.judging true) ⟨c, .next .marking, none⟩
  | judged {unwinding : Bool} : (unwinding && !c.poisoned) = false →
    Moves t c (.judging unwinding) ⟨c, .next .clearing, none⟩
  | marked :
    Moves t c .marking ⟨{ c with poisoned := true }, .next .clearing, some .poisoned⟩
  | cleared : Moves t c .clearing ⟨{ c with owner := c.owner.clear }, .next .leaving, none⟩
  | left : Moves t c .leaving ⟨{ c with inside := none }, .answer .released, none⟩
  | asked : Moves t c .asking ⟨c, .answer (.flag (c.owner.names (some t))), none⟩
  | read : Moves t c .reading ⟨c, .answer (.flag c.poisoned), none⟩

theorem moves_of_step {t : τ} {c : Core τ} {p : Point} {x : Move τ} (h : c.step t p = some x) :
    c.Moves t p x := by
  cases p with
  | checking polling =>
    simp only [step] at h
    split at h
    · next hn =>
      cases h
      exact .rejected hn
    · next hn =>
      cases h
      exact .checked (eq_false_of_ne_true hn)
  | entering polling =>
    simp only [step] at h
    split at h
    · next hin =>
      cases h
      exact .entered hin
    · next hin =>
      split at h
      · next hp =>
        cases h
        exact hp ▸ .turnedAway hin
      · cases h
  | judging unwinding =>
    cases h
    split
    · next hlate =>
      obtain ⟨rfl, hclear⟩ := Bool.and_eq_true_iff.1 hlate
      exact .judgedLate (by simpa using hclear)
    · next hlate => exact .judged (eq_false_of_ne_true hlate)
  | inspecting => cases h; exact .acquired
  | recording => cases h; exact .recorded
  | marking => cases h; exact .marked
  | clearing => cases h; exact .cleared
  | leaving => cases h; exact .left
  | asking => cases h; exact .asked
  | reading => cases h; exact .read

variable {t : τ} {c : Core τ} {p : Point} {x : Move τ}

theorem Moves.reentry_iff (h : c.Moves t p x) :
    (∃ polling, x.notice = some (.reentry polling)) ↔
      x.progress = .answer (.verdict .lockedByCurrentThread) := by
  cases h with
  | acquired =>
    unfold grant
    split <;> simp
  | _ => simp

theorem Moves.poisoned_iff (h : c.Moves t p x) : x.notice = some .poisoned ↔ p = .marking := by
  cases h <;> simp

theorem Moves.poisoned_eq (h : c.Moves t p x) :
    x.core.poisoned = (c.poisoned || decide (p = .marking)) := by
  cases h <;> simp

theorem Moves.unmarked (h : c.Moves t p x) (hp : x.progress = .next .marking) :
    x.core.poisoned = false := by
  cases h with
  | judgedLate hc => exact hc
  | _ => cases hp

end Core

/-- What is seen of one step. -/
structure Remark (τ : Type) where
  thread : τ
  answer : Option Answer := none
  notice : Option Notice := none

def Action.thread : Action τ → τ
  | .start t _ | .advance t => t

namespace Crew

/-- The runs with all that is seen of them, the latest first. -/
inductive Seen : Crew τ → List (Remark τ) → Prop
  | initial : Seen {} []
  | act {s : Crew τ} {seen : List (Remark τ)} {a : Action τ} {o : Observation τ} :
    Seen s seen → s.act a = some o → Seen o.crew (⟨a.thread, o.answer, o.notice⟩ :: seen)

theorem Seen.reachable {s : Crew τ} {seen : List (Remark τ)} (h : s.Seen seen) : s.Reachable := by
  induction h with
  | initial => exact .initial
  | act _ ha ih => exact ih.act ha

/-- Who is about to set the mark has found it clear. -/
def Judged (s : Crew τ) : Prop :=
  ∀ t r, (s.members t).stage = .calling r .marking → s.core.poisoned = false

theorem advance_cases {s : Crew τ} {t : τ} {o : Observation τ} (h : s.act (.advance t) = some o) :
    ∃ r p x, (s.members t).stage = .calling r p ∧ s.core.Moves t p x ∧
      o.crew.core = x.core ∧ o.notice = x.notice ∧ (∀ u ≠ t, o.crew.members u = s.members u) ∧
      ((∃ a, x.progress = .answer a ∧ o.answer = some a ∧ (o.crew.members t).stage = .resting) ∨
        ∃ q, x.progress = .next q ∧ o.answer = none ∧
          (o.crew.members t).stage = .calling r q) := by
  obtain ⟨e, he, rfl⟩ := Option.map_eq_some_iff.mp h
  cases hs : (s.members t).stage with
  | resting => simp [Member.advance?, hs] at he
  | calling r p =>
    simp only [Member.advance?, hs] at he
    obtain ⟨x, hx, hxe⟩ := Option.map_eq_some_iff.mp he
    refine ⟨r, p, x, rfl, Core.moves_of_step hx, ?_⟩
    cases hp : x.progress with
    | next q =>
      simp only [hp] at hxe
      subst hxe
      exact ⟨rfl, rfl, fun u hu => setMember_ne _ _ hu, .inr ⟨q, rfl, rfl, by simp⟩⟩
    | answer a =>
      simp only [hp] at hxe
      subst hxe
      refine ⟨rfl, rfl, fun u hu => setMember_ne _ _ hu, .inl ⟨a, rfl, rfl, ?_⟩⟩
      cases a <;> simp [Member.finish]

theorem start?_stage {m m' : Member} {r : Request} (h : m.start? r = some m') :
    m'.stage = .calling r r.entry := by
  cases m with
  | mk stage holding =>
    cases stage with
    | calling => simp [Member.start?] at h
    | resting =>
      simp only [Member.start?, Option.ite_none_right_eq_some, Option.some.injEq] at h
      obtain ⟨-, rfl⟩ := h
      cases r <;> rfl

theorem Judged.act {s : Crew τ} (h : s.Judged) (hc : s.Consistent) {a : Action τ}
    {o : Observation τ} (ho : s.act a = some o) : o.crew.Judged := by
  intro u q hu
  cases a with
  | start t r =>
    obtain ⟨m, hm, rfl⟩ := Option.map_eq_some_iff.mp ho
    by_cases hut : u = t
    · subst hut
      rw [setMember_self, start?_stage hm] at hu
      obtain ⟨rfl, hentry⟩ := Stage.calling.inj hu
      cases r <;> cases hentry
    · rw [setMember_ne _ _ hut] at hu
      exact h u q hu
  | advance t =>
    obtain ⟨r, p, x, hs, hx, hcore, -, hothers, hprogress⟩ := advance_cases ho
    rw [hcore]
    by_cases hut : u = t
    · subst hut
      rcases hprogress with ⟨a, -, -, hrest⟩ | ⟨q', hq, -, hstage⟩
      · rw [hrest] at hu
        cases hu
      · rw [hstage] at hu
        obtain ⟨-, rfl⟩ := Stage.calling.inj hu
        exact hx.unmarked hq
    · rw [hothers u hut] at hu
      have hp : p ≠ .marking := by
        rintro rfl
        exact hut (hc.eq_of_marking hu hs)
      simp [hx.poisoned_eq, h u q hu, hp]

theorem Reachable.judged {s : Crew τ} (h : s.Reachable) : s.Judged := by
  induction h with
  | initial =>
    intro t r ht
    cases ht
  | act hs ha ih => exact ih.act hs.consistent ha

/-- What is reported, step by step and in all. -/
structure Reported (s : Crew τ) (seen : List (Remark τ)) : Prop where
  /-- A report of re-entry comes with the verdict, and the verdict with a report. -/
  rejected : ∀ x ∈ seen, (∃ polling, x.notice = some (.reentry polling)) ↔
    x.answer = some (.verdict .lockedByCurrentThread)
  /-- The mark is reported when it is set, which happens once. -/
  marked : seen.countP (fun x => decide (x.notice = some .poisoned)) = s.core.poisoned.toNat

theorem Seen.reported {s : Crew τ} {seen : List (Remark τ)} (h : s.Seen seen) :
    s.Reported seen := by
  induction h with
  | initial => exact ⟨by simp, rfl⟩
  | @act s seen a o hs ho ih =>
    cases a with
    | start t r =>
      obtain ⟨m, hm, rfl⟩ := Option.map_eq_some_iff.mp ho
      refine ⟨?_, ?_⟩
      · intro x hx
        rcases List.mem_cons.1 hx with rfl | hx
        · simp
        · exact ih.rejected x hx
      · simpa using ih.marked
    | advance t =>
      obtain ⟨r, p, x, hstage, hx, hcore, hnotice, -, hprogress⟩ := advance_cases ho
      refine ⟨?_, ?_⟩
      · intro y hy
        rcases List.mem_cons.1 hy with rfl | hy
        · simp only [hnotice, hx.reentry_iff]
          rcases hprogress with ⟨a, ha, hans, -⟩ | ⟨q, hq, hans, -⟩
          · simp [ha, hans]
          · simp [hq, hans]
        · exact ih.rejected y hy
      · rw [List.countP_cons, ih.marked, hcore, hx.poisoned_eq, hnotice]
        simp only [decide_eq_true_eq, hx.poisoned_iff]
        by_cases hp : p = .marking
        · subst hp
          simp [hs.reachable.judged t r hstage]
        · simp [hp]

end Crew
end CheckedLock
