import CheckedLock.Lock.Ideal
import CheckedLock.Proofs.Lock.Exclusion

/-! Each run of the threads around a lock is a run around an ideal lock: the same calls, the same
changes of hands and the same answers, in the same order. The state of the ideal lock is read off
the primitive and the mark. A thread's errand is read off its point; an acquisition that has taken
the primitive knows its answer from then on, as nobody else can set the mark. -/
namespace CheckedLock

variable {τ : Type}

/-- How far the call at this point has come. -/
def Point.errand (c : Core τ) (r : Request) : Point → Errand
  | .recording | .inspecting => ⟨[], some (.verdict c.grant)⟩
  | .marking => ⟨[.poison, .vacate], none⟩
  | .clearing | .leaving => ⟨[.vacate], none⟩
  | _ => ⟨r.strokes, none⟩

def Member.errand? (m : Member) (c : Core τ) : Option Errand :=
  match m.stage with
  | .resting => none
  | .calling r p => some (p.errand c r)

@[simp] theorem Member.errand?_resting (c : Core τ) (holding : Bool) :
    Member.errand? ⟨.resting, holding⟩ c = none := rfl

@[simp] theorem Member.errand?_calling (c : Core τ) (r : Request) (p : Point) (holding : Bool) :
    Member.errand? ⟨.calling r p, holding⟩ c = some (p.errand c r) := rfl

theorem Member.errand?_of_stage {m : Member} {r : Request} {p : Point}
    (hs : m.stage = .calling r p) (c : Core τ) : m.errand? c = some (p.errand c r) := by
  simp [errand?, hs]

theorem Member.errand?_congr (m : Member) {c d : Core τ} (h : c.poisoned = d.poisoned) :
    m.errand? c = m.errand? d := by
  have hg : c.grant = d.grant := by simp [Core.grant, h]
  cases hs : m.stage with
  | resting => simp [errand?, hs]
  | calling r p => cases p <;> simp [errand?, hs, Point.errand, hg]

/-- Only a thread inside the primitive depends on the mark. -/
theorem Member.errand?_of_outside {m : Member} (h : m.standing = .outside) (c d : Core τ) :
    m.errand? c = m.errand? d := by
  cases hs : m.stage with
  | resting => simp [errand?, hs]
  | calling r p =>
    rw [standing_of_stage hs] at h
    cases p <;> simp_all [errand?, Point.errand, Point.standing?]

namespace Crew

def ideal (s : Crew τ) : IdealCrew τ where
  lock := ⟨s.core.inside, s.core.poisoned⟩
  errands t := (s.members t).errand? s.core

@[simp] theorem lock_ideal (s : Crew τ) : s.ideal.lock = ⟨s.core.inside, s.core.poisoned⟩ := rfl

theorem errand_of_stage {s : Crew τ} {t : τ} {r : Request} {p : Point}
    (hs : (s.members t).stage = .calling r p) :
    s.ideal.errands t = some (p.errand s.core r) := Member.errand?_of_stage hs _

variable [DecidableEq τ]

/-- A step of thread `t` is seen in the lock and in the errand of `t` alone. -/
theorem ideal_setMember (s : Crew τ) {t : τ} {m : Member} {c : Core τ}
    (h : ∀ u, u ≠ t → (s.members u).errand? c = (s.members u).errand? s.core) :
    ({ s with core := c }.setMember t m).ideal =
      { s.ideal with lock := ⟨c.inside, c.poisoned⟩ }.setErrand t (m.errand? c) := by
  simp only [ideal, IdealCrew.setErrand, core_setMember, IdealCrew.mk.injEq, true_and]
  funext u
  by_cases hu : u = t
  · subst hu; simp
  · simp [setMember_ne _ _ hu, hu, h u hu]

theorem ideal_setMember_same (s : Crew τ) (t : τ) (m : Member) {c : Core τ}
    (h : c.poisoned = s.core.poisoned) :
    ({ s with core := c }.setMember t m).ideal =
      { s.ideal with lock := ⟨c.inside, c.poisoned⟩ }.setErrand t (m.errand? c) :=
  s.ideal_setMember fun u _ => (s.members u).errand?_congr h

variable {s : Crew τ} {t : τ} {seen : List (Happening τ)}

theorem ideal_start (hr : s.ideal.Run seen) {r : Request} {m : Member}
    (hm : (s.members t).start? r = some m) :
    (s.setMember t m).ideal.Run (seen ++ [.called t r]) := by
  have hrest : (s.members t).stage = .resting := by
    cases hs : (s.members t).stage with
    | resting => rfl
    | calling _ _ => simp [Member.start?, hs] at hm
  have he : m.errand? s.core = some ⟨r.strokes, none⟩ := by
    simp only [Member.start?, hrest, Option.ite_none_right_eq_some, Option.some.injEq] at hm
    obtain ⟨-, rfl⟩ := hm
    cases r <;> rfl
  have hfree : s.ideal.errands t = none := by simp [ideal, Member.errand?, hrest]
  have hset := s.ideal_setMember_same t m (c := s.core) rfl
  rw [he] at hset
  exact hset ▸ hr.step (.call r hfree)

/-- What is seen of a step of thread `t`. -/
def shown (s : Crew τ) (t : τ) (e : Effect τ) : List (Happening τ) :=
  Happening.handover s.core.inside e.core.inside ++ (e.answer.map (Happening.answered t)).toList

variable {e : Effect τ}

/-- A step that the ideal lock knows nothing of. -/
theorem ideal_rest (hr : s.ideal.Run seen) (hi : e.core.inside = s.core.inside)
    (hp : e.core.poisoned = s.core.poisoned) (ha : e.answer = none)
    (he : e.member.errand? e.core = s.ideal.errands t) :
    ({ s with core := e.core }.setMember t e.member).ideal.Run (seen ++ s.shown t e) := by
  have hset : ({ s with core := e.core }.setMember t e.member).ideal = s.ideal := by
    rw [s.ideal_setMember_same t e.member hp, he, hi, hp]
    exact IdealCrew.setErrand_eq_self rfl
  simpa only [hset, shown, hi, ha, Happening.handover_self, Option.map_none, Option.toList_none,
    List.append_nil] using hr

/-- A step that is a stroke, with more of the call to follow. -/
theorem ideal_stroke (hr : s.ideal.Run seen) {x : Stroke} {todo : List Stroke}
    {a b : Option Answer}
    (hoth : ∀ u, u ≠ t → (s.members u).errand? e.core = (s.members u).errand? s.core)
    (hold : s.ideal.errands t = some ⟨x :: todo, a⟩)
    (hx : s.ideal.lock.perform t x = some (⟨e.core.inside, e.core.poisoned⟩, b))
    (ha : e.answer = none) (he : e.member.errand? e.core = some ⟨todo, b⟩) :
    ({ s with core := e.core }.setMember t e.member).ideal.Run (seen ++ s.shown t e) := by
  have hst := hr.step (.perform hold hx)
  rw [s.ideal_setMember hoth, he, shown, ha]
  simpa using hst

/-- A step that is the last stroke of a call and gives its answer. -/
theorem ideal_conclude (hr : s.ideal.Run seen) {x : Stroke} {a : Option Answer} {b : Answer}
    (hp : e.core.poisoned = s.core.poisoned) (hold : s.ideal.errands t = some ⟨[x], a⟩)
    (hx : s.ideal.lock.perform t x = some (⟨e.core.inside, e.core.poisoned⟩, some b))
    (ha : e.answer = some b) (he : e.member.errand? e.core = none) :
    ({ s with core := e.core }.setMember t e.member).ideal.Run (seen ++ s.shown t e) := by
  have h₁ := hr.step (.perform hold hx)
  have h₂ := h₁.step (.answer (t := t) (a := b) (by simp))
  rw [s.ideal_setMember_same t e.member hp, he, shown, ha]
  simpa using h₂

/-- One case for each point that the thread can be at. -/
theorem Consistent.ideal_advance (hc : s.Consistent) (hr : s.ideal.Run seen)
    (he : (s.members t).advance? t s.core = some e) :
    ({ s with core := e.core }.setMember t e.member).ideal.Run (seen ++ s.shown t e) := by
  cases hs : (s.members t).stage with
  | resting => simp [Member.advance?, hs] at he
  | calling r p =>
    have hpass := (hc.placed t).passes hs
    have herr := errand_of_stage hs
    have hinside := hc.inside_iff t
    rw [Member.standing_of_stage hs] at hinside
    simp only [Member.advance?, hs] at he
    cases p with
    | checking polling =>
      obtain rfl : r = .acquire polling := by cases r <;> simp_all [Request.passes]
      by_cases hn : s.core.owner.names (some t) = true
      · have hin := (hc.inside_iff_names hs rfl).mpr hn
        simp only [Core.step, hn, if_true, Option.map_some, Option.some.injEq] at he
        subst he
        exact ideal_conclude hr rfl herr (by simp [Ideal.perform, hin]) rfl rfl
      · simp only [Core.step, hn, Bool.false_eq_true, if_false, Option.map_some,
          Option.some.injEq] at he
        subst he
        exact ideal_rest hr rfl rfl rfl herr.symm
    | entering polling =>
      obtain rfl : r = .acquire polling := by cases r <;> simp_all [Request.passes]
      cases hin : s.core.inside with
      | none =>
        simp only [Core.step, hin, Option.map_some, Option.some.injEq] at he
        subst he
        refine ideal_stroke hr (fun u _ => Member.errand?_congr _ rfl) herr ?_ rfl rfl
        simp [Ideal.perform, hin, Core.grant]
      | some u =>
        have hne : u ≠ t := by
          rintro rfl
          exact absurd rfl (hinside.mp hin)
        cases polling with
        | false => simp [Core.step, hin] at he
        | true =>
          simp only [Core.step, hin, if_true, Option.map_some, Option.some.injEq] at he
          subst he
          exact ideal_conclude hr rfl herr (by simp [Ideal.perform, hin, hne]) rfl rfl
    | recording =>
      simp only [Core.step, Option.map_some, Option.some.injEq] at he
      subst he
      exact ideal_rest hr rfl rfl rfl herr.symm
    | inspecting =>
      simp only [Core.step, Option.map_some, Option.some.injEq] at he
      subst he
      have hset := s.ideal_setMember_same t ((s.members t).finish (.verdict s.core.grant))
        (c := s.core) rfl
      simp only [shown, Happening.handover_self, List.nil_append]
      exact hset ▸ hr.step (.answer herr)
    | judging unwinding =>
      obtain rfl : r = .release unwinding := by cases r <;> simp_all [Request.passes]
      simp only [Core.step, Option.map_some, Option.some.injEq] at he
      subst he
      cases unwinding with
      | false => exact ideal_rest hr rfl rfl rfl herr.symm
      | true =>
        cases hp : s.core.poisoned with
        | false =>
          refine ideal_rest hr rfl rfl rfl ?_
          simp [herr, Point.errand, Request.strokes]
        | true =>
          -- the mark is there already, so to set it is a stroke without a trace
          have hin := hinside.mpr (by simp [Point.standing?])
          have hperform : s.ideal.lock.perform t .poison =
              some (⟨s.core.inside, s.core.poisoned⟩, none) := by
            simp [Ideal.perform, hin, hp]
          exact ideal_stroke hr (fun u _ => rfl) herr hperform rfl (by simp [Point.errand])
    | marking =>
      have hin := hinside.mpr (by simp [Point.standing?])
      simp only [Core.step, Option.map_some, Option.some.injEq] at he
      subst he
      refine ideal_stroke hr (fun u hu => ?_) herr ?_ rfl rfl
      · refine Member.errand?_of_outside ?_ _ _
        by_contra hne
        have := (hc.inside_iff u).mpr hne
        simp_all
      · simp [Ideal.perform, hin]
    | clearing =>
      simp only [Core.step, Option.map_some, Option.some.injEq] at he
      subst he
      exact ideal_rest hr rfl rfl rfl herr.symm
    | leaving =>
      have hin := hinside.mpr (by simp [Point.standing?])
      simp only [Core.step, Option.map_some, Option.some.injEq] at he
      subst he
      exact ideal_conclude hr rfl herr (by simp [Ideal.perform, hin]) rfl rfl
    | asking =>
      obtain rfl : r = .owned := by cases r <;> simp_all [Request.passes]
      have hin := hc.inside_iff_names hs rfl
      simp only [Core.step, Option.map_some, Option.some.injEq] at he
      subst he
      refine ideal_conclude hr rfl herr ?_ rfl rfl
      cases hn : s.core.owner.names (some t) <;> simp_all [Ideal.perform]
    | reading =>
      obtain rfl : r = .poisoned := by cases r <;> simp_all [Request.passes]
      simp only [Core.step, Option.map_some, Option.some.injEq] at he
      subst he
      exact ideal_conclude hr rfl herr (by simp [Ideal.perform]) rfl rfl

theorem Run.ideal {s : Crew τ} (h : s.Run seen) : s.ideal.Run seen := by
  induction h with
  | initial => exact .initial
  | @act s a o seen hrun ha ih =>
    cases a with
    | start t r =>
      obtain ⟨m, hm, rfl⟩ := Option.map_eq_some_iff.mp ha
      exact ideal_start ih hm
    | advance t =>
      obtain ⟨e, he, rfl⟩ := Option.map_eq_some_iff.mp ha
      exact hrun.reachable.consistent.ideal_advance ih he

/-- Whatever is seen of the threads is seen around an ideal lock in the same state. A thread about
to look at the mark finds there what the ideal lock has answered since the thread took the lock. -/
theorem Run.refines {s : Crew τ} (h : s.Run seen) : ∃ i : IdealCrew τ,
    i.Run seen ∧ i.lock = ⟨s.core.inside, s.core.poisoned⟩ ∧
      ∀ t r, (s.members t).stage = .calling r .inspecting →
        i.errands t = some ⟨[], some (.verdict s.core.grant)⟩ ∧
          (s.act (.advance t)).bind (·.answer) = some (.verdict s.core.grant) := by
  refine ⟨s.ideal, h.ideal, rfl, fun t r hs => ⟨errand_of_stage hs, ?_⟩⟩
  simp [Crew.act, Member.advance?, hs, Core.step, Core.grant]

/-- One thread poisons the lock while another waits for it; the run stops where that one is about to
look at the mark. -/
theorem refines_after_handover : ∃ (s : Crew (Fin 2)) (seen : List (Happening (Fin 2))),
    s.Run seen ∧
      seen = [.called 0 (.acquire false), .took 0, .answered 0 (.verdict .acquired),
        .called 1 (.acquire false), .called 0 (.release true), .left 0, .answered 0 .released,
        .took 1] ∧
      (s.members 1).stage = .calling (.acquire false) .inspecting ∧
      ∃ i : IdealCrew (Fin 2), i.Run seen ∧ i.lock = ⟨some 1, true⟩ ∧
        i.errands 1 = some ⟨[], some (.verdict .acquiredPoisoned)⟩ := by
  have h₁ := (Run.initial (τ := Fin 2)).act (a := .start 0 (.acquire false)) rfl
  have h₂ := (h₁.act (a := .advance 0) rfl).act (a := .advance 0) rfl
  have h₃ := (h₂.act (a := .advance 0) rfl).act (a := .advance 0) rfl
  have h₄ := (h₃.act (a := .start 1 (.acquire false)) rfl).act (a := .advance 1) rfl
  have h₅ := (h₄.act (a := .start 0 (.release true)) rfl).act (a := .advance 0) rfl
  have h₆ := (h₅.act (a := .advance 0) rfl).act (a := .advance 0) rfl
  have h₇ := h₆.act (a := .advance 0) rfl
  have h := (h₇.act (a := .advance 1) rfl).act (a := .advance 1) rfl
  obtain ⟨i, hi, hlock, hinsp⟩ := h.refines
  exact ⟨_, _, h, rfl, rfl, i, hi, hlock, (hinsp 1 _ rfl).1⟩

end Crew
end CheckedLock
