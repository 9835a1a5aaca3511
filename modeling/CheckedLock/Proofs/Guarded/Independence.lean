import CheckedLock.Proofs.Guarded.Deadlock
import CheckedLock.Proofs.Guarded.Region
import Mathlib.Data.Fintype.Card

/-! Steps that have nothing in common. What a step reaches is followed through the waiting threads
that it lets go on. Two steps that reach different mutexes and slots can change places: nothing
remains of their order but that of their events. -/
namespace CheckedLock
namespace Guarded

variable {n : Nat}

namespace World

/-- What an operation reaches itself. -/
def performCells (w : World n) (t : Fin n) (o : Op) : List Cell :=
  w.startCells o ++ match w.start t o with
    | .ok (v, none) => v.finishCells t
    | _ => []

/-- What a waiting thread reaches when it goes on. -/
def resumeCells (w : World n) (t : Fin n) : List Cell :=
  match (w.threads t).pending with
  | none => []
  | some p => .mutex p.mutex :: match w.wake? t with
    | some v => v.finishCells t
    | none => []

/-- What those reach that go on one after the other. -/
def settleCells : Nat → World n → List Cell
  | 0, _ => []
  | fuel + 1, w => match w.resumeFirst? with
    | none => []
    | some (v, t, _) => w.resumeCells t ++ settleCells fuel v

/-- The mutexes and slots that a step involves. -/
def involved (w : World n) (t : Fin n) (o : Op) : List Cell :=
  w.performCells t o ++ match w.perform t o with
    | .ok (v, _) => v.settleCells n
    | .error _ => []

variable {w v x : World n} {t u : Fin n} {o : Op} {reply : Reply}

/-! ### Who waits -/

theorem arrive_pending_of_answered {m : Name} {y : Mutex n} {p : Purpose} (core : Core (Fin n))
    (a : Answer) (seen : List Notice) :
    ((w.arrive t m y p (.answered core a seen)).threads t).pending = (w.threads t).pending := by
  cases a with
  | verdict v => rw [arrive_answered_threads]
  | released | flag _ => rfl

theorem wake?_eq_none_of_pending (h : (w.threads t).pending = none) : w.wake? t = none := by
  simp [wake?, h]

/-- A thread that cannot take its mutex cannot take it in a world with the same mutex either. -/
theorem wake?_eq_none_of_same {p : Pending} (hw : (w.threads t).pending = some p)
    (hv : (v.threads t).pending = some p) (hm : v.mutexes p.mutex = w.mutexes p.mutex)
    (h : w.wake? t = none) : v.wake? t = none := by
  simp only [wake?, hw, hv, hm] at h ⊢
  split at h
  · rfl
  · next y _ =>
    cases hc : y.core.resume t p.point with
    | waiting _ _ _ => rfl
    | answered core a seen => simp [hc] at h

theorem resume?_eq_none_iff : w.resume? t = none ↔ w.wake? t = none := Option.map_eq_none_iff

theorem exists_pending_of_resume (h : w.resume? t = some (v, reply)) :
    ∃ p, (w.threads t).pending = some p := by
  cases hp : (w.threads t).pending with
  | some p => exact ⟨p, rfl⟩
  | none =>
    rw [resume?_eq_none_iff.mpr (wake?_eq_none_of_pending hp)] at h
    cases h

theorem resume_pending (h : w.resume? t = some (v, reply)) : (v.threads t).pending = none := by
  obtain ⟨y, hy, he⟩ := Option.map_eq_some_iff.mp h
  obtain rfl : (y.finish t).1 = v := congrArg Prod.fst he
  rw [finish_pending]
  unfold wake? at hy
  split at hy
  · cases hy
  split at hy
  · cases hy
  split at hy
  · cases hy
  · obtain rfl := Option.some.inj hy
    rw [arrive_pending_of_answered, setThread_self]

theorem resumeFirst?_eq_none_iff : w.resumeFirst? = none ↔ ∀ t, w.resume? t = none := by
  simp [resumeFirst?, List.findSome?_eq_none_iff]

theorem resumeFirst?_eq_some (h : w.resumeFirst? = some (v, t, reply)) :
    w.resume? t = some (v, reply) := by
  obtain ⟨u, -, hu⟩ := List.exists_of_findSome?_eq_some h
  obtain ⟨⟨v', reply'⟩, hr, he⟩ := Option.map_eq_some_iff.mp hu
  cases he
  exact hr

namespace Mirrors

variable {R : Region n} {j : List (Event n)} {z : World n}

/-- A thread goes on in both worlds or in neither. -/
theorem resume (h : Mirrors R j z w v) (ht : t ∈ R.threads) (hc : w.resumeCells t ⊆ R.cells) :
    (w.resume? t = none ∧ v.resume? t = none) ∨ ∃ x y reply, w.resume? t = some (x, reply) ∧
      v.resume? t = some (y, reply) ∧ Mirrors R j z x y := by
  have hp : ∀ p, (w.threads t).pending = some p → .mutex p.mutex ∈ R.cells := fun p hp =>
    hc (by simp [resumeCells, hp])
  obtain ⟨hw, hv⟩ | ⟨x, y, hx, hy, hxy⟩ := h.wake ht hp
  · exact .inl ⟨resume?_eq_none_iff.mpr hw, resume?_eq_none_iff.mpr hv⟩
  · have hcells : x.finishCells t ⊆ R.cells := by
      intro c hcell
      cases hpend : (w.threads t).pending with
      | none =>
        rw [wake?_eq_none_of_pending hpend] at hx
        cases hx
      | some p => exact hc (by simp [resumeCells, hpend, hx, hcell])
    have hfinish := hxy.finish ht hcells
    refine .inr ?_
    simp only [resume?, hx, hy, Option.map_some]
    generalize x.finish t = e at hfinish
    generalize y.finish t = e' at hfinish
    obtain ⟨hmirrors⟩ := hfinish
    exact ⟨_, _, _, rfl, rfl, hmirrors⟩

theorem perform (h : Mirrors R j z w v) (ht : t ∈ R.threads) (hp : w.Permits t o)
    (hc : w.performCells t o ⊆ R.cells) : Echoes R j z (w.perform t o) (v.perform t o) := by
  unfold performCells at hc
  obtain ⟨hs, hf⟩ := List.append_subset.mp hc
  have hstart := h.start ht hp hs
  unfold World.perform
  generalize w.start t o = e at hstart hf
  generalize v.start t o = e' at hstart
  cases hstart with
  | error p => exact .error p
  | ok hecho =>
    obtain @⟨x, y, answer, hxy⟩ := hecho
    cases answer with
    | some reply => exact .ok (.intro hxy)
    | none => exact .ok (hxy.finish ht hf)

end Mirrors

/-- What goes its way on its own keeps the rest as it is. -/
theorem Echoes.self {R : Region n} {j : List (Event n)} {z : World n} {α : Type} {a b : α}
    (h : Echoes R j z (.ok (w, a)) (.ok (v, b))) : Mirrors R j z w v ∧ b = a := by
  cases h with
  | ok h =>
    cases h with
    | intro h => exact ⟨h, rfl⟩

/-! ### What a step leaves alone -/

/-- Only the thread that goes on changes its state. -/
theorem resume_threads (h : w.resume? t = some (v, reply)) {y : Fin n} (hy : y ≠ t) :
    v.threads y = w.threads y := by
  have hself := (Mirrors.refl ⟨w.resumeCells t, [t]⟩ w).resume (t := t) List.mem_cons_self
    (List.Subset.refl _)
  obtain ⟨hnone, -⟩ | ⟨x, x', reply', hx, hx', hmirrors⟩ := hself
  · rw [hnone] at h
    cases h
  · rw [hx] at hx' h
    cases hx'
    cases h
    exact hmirrors.others y (by simpa using hy)

theorem settle_of_none (fuel : Nat) (h : w.resumeFirst? = none) : w.settle fuel = (w, []) := by
  cases fuel <;> simp [settle, h]

theorem settle_of_some (fuel : Nat) (h : w.resumeFirst? = some (v, t, reply)) :
    w.settle (fuel + 1) = ((v.settle fuel).1, (t, reply) :: (v.settle fuel).2) := by
  simp [settle, h]

theorem settleCells_of_some (fuel : Nat) (h : w.resumeFirst? = some (v, t, reply)) :
    w.settleCells (fuel + 1) = w.resumeCells t ++ v.settleCells fuel := by
  simp [settleCells, h]

/-- Threads that have gone on. -/
def woken (ws : List (Fin n × Reply)) : List (Fin n) := ws.map Prod.fst

/-- Whoever goes on was waiting for a mutex that this involves. -/
theorem pending_of_woken (fuel : Nat) (h : u ∈ woken (w.settle fuel).2) :
    ∃ p, (w.threads u).pending = some p ∧ .mutex p.mutex ∈ w.settleCells fuel := by
  induction fuel generalizing w with
  | zero => cases h
  | succ fuel ih =>
    cases hf : w.resumeFirst? with
    | none =>
      rw [settle_of_none _ hf] at h
      cases h
    | some y =>
      obtain ⟨v, t, reply⟩ := y
      have hr := resumeFirst?_eq_some hf
      rw [settle_of_some _ hf] at h
      rw [settleCells_of_some _ hf]
      obtain h | h := List.mem_cons.mp h
      · obtain ⟨p, hp⟩ := exists_pending_of_resume hr
        refine ⟨p, h ▸ hp, List.mem_append_left _ ?_⟩
        simp [resumeCells, hp]
      · obtain ⟨p, hp, hmem⟩ := ih h
        have hne : u ≠ t := by
          rintro rfl
          rw [resume_pending hr] at hp
          cases hp
        exact ⟨p, resume_threads hr hne ▸ hp, List.mem_append_right _ hmem⟩

theorem settle_threads (fuel : Nat) (h : u ∉ woken (w.settle fuel).2) :
    (w.settle fuel).1.threads u = w.threads u := by
  induction fuel generalizing w with
  | zero => rfl
  | succ fuel ih =>
    cases hf : w.resumeFirst? with
    | none => rw [settle_of_none _ hf]
    | some y =>
      obtain ⟨v, t, reply⟩ := y
      rw [settle_of_some _ hf] at h ⊢
      obtain ⟨hne, hu⟩ := not_or.mp (List.mem_cons.not.mp h)
      exact (ih hu).trans (resume_threads (resumeFirst?_eq_some hf) hne)

/-- A thread goes on once at most. -/
theorem settle_pending (fuel : Nat) (h : u ∈ woken (w.settle fuel).2) :
    ((w.settle fuel).1.threads u).pending = none := by
  induction fuel generalizing w with
  | zero => cases h
  | succ fuel ih =>
    cases hf : w.resumeFirst? with
    | none =>
      rw [settle_of_none _ hf] at h
      cases h
    | some y =>
      obtain ⟨v, t, reply⟩ := y
      rw [settle_of_some _ hf] at h ⊢
      by_cases hu : u ∈ woken (v.settle fuel).2
      · exact ih hu
      · obtain rfl := (List.mem_cons.mp h).resolve_right hu
        rw [settle_threads fuel hu]
        exact resume_pending (resumeFirst?_eq_some hf)

/-- The threads that wait. -/
def waiters (w : World n) : Finset (Fin n) := Finset.univ.filter fun t => w.isWaiting t = true

theorem mem_waiters : t ∈ w.waiters ↔ (w.threads t).pending ≠ none := by
  simp [waiters, isWaiting, Option.isSome_iff_ne_none]

theorem waiters_resume (h : w.resume? t = some (v, reply)) : v.waiters.card < w.waiters.card := by
  refine Finset.card_lt_card (Finset.ssubset_iff_of_subset ?_ |>.mpr ⟨t, ?_, ?_⟩)
  · intro y hy
    rw [mem_waiters] at hy ⊢
    have hyt : y ≠ t := by
      rintro rfl
      exact hy (resume_pending h)
    rwa [← resume_threads h hyt]
  · obtain ⟨p, hp⟩ := exists_pending_of_resume h
    simp [mem_waiters, hp]
  · simp [mem_waiters, resume_pending h]

/-- When enough threads have been let go on, no other one can. -/
theorem settle_quiet (fuel : Nat) (h : w.waiters.card ≤ fuel) :
    (w.settle fuel).1.resumeFirst? = none := by
  induction fuel generalizing w with
  | zero =>
    have hempty : w.waiters = ∅ := Finset.card_eq_zero.mp (Nat.le_zero.mp h)
    refine resumeFirst?_eq_none_iff.mpr fun t => ?_
    refine resume?_eq_none_iff.mpr (wake?_eq_none_of_pending ?_)
    by_contra hp
    have hmem : t ∈ w.waiters := mem_waiters.mpr hp
    simp [hempty] at hmem
  | succ fuel ih =>
    cases hf : w.resumeFirst? with
    | none => rw [settle_of_none _ hf, hf]
    | some y =>
      obtain ⟨v, t, reply⟩ := y
      rw [settle_of_some _ hf]
      have hless := waiters_resume (resumeFirst?_eq_some hf)
      exact ih (by omega)

theorem settle_all_quiet (w : World n) : (w.settle n).1.resumeFirst? = none :=
  w.settle_quiet n ((Finset.card_le_univ _).trans_eq (Fintype.card_fin n))

namespace Mirrors

variable {R : Region n} {j : List (Event n)} {z : World n}

/-- Threads that go on change nothing beyond what they reach. -/
theorem settle_self (fuel : Nat) (h : Mirrors R j z w w)
    (ht : woken (w.settle fuel).2 ⊆ R.threads) (hc : w.settleCells fuel ⊆ R.cells) :
    Mirrors R j z (w.settle fuel).1 (w.settle fuel).1 := by
  induction fuel generalizing w with
  | zero => exact h
  | succ fuel ih =>
    cases hf : w.resumeFirst? with
    | none => rwa [settle_of_none _ hf]
    | some y =>
      obtain ⟨v, t, reply⟩ := y
      rw [settle_of_some _ hf] at ht ⊢
      rw [settleCells_of_some _ hf] at hc
      obtain ⟨htm, hts⟩ := List.cons_subset.mp ht
      obtain ⟨hcr, hcs⟩ := List.append_subset.mp hc
      have hr := resumeFirst?_eq_some hf
      obtain ⟨hnone, -⟩ | ⟨x, x', reply', hx, hx', hmirrors⟩ := h.resume htm hcr
      · rw [hnone] at hr
        cases hr
      · rw [hx] at hx' hr
        cases hx'
        cases hr
        exact ih hmirrors hts hcs

/-- Who could go on in the mirror could in the original: a thread of the region waits within it, a
thread outside that waits within it does so in both, and the others cannot go on. -/
structure Still (R : Region n) (z w : World n) : Prop where
  mine : ∀ t ∈ R.threads, ∀ p, (w.threads t).pending = some p → .mutex p.mutex ∈ R.cells
  near : ∀ t ∉ R.threads, ∀ p, (z.threads t).pending = some p → .mutex p.mutex ∈ R.cells →
    (w.threads t).pending = some p
  far : ∀ t ∉ R.threads, ∀ p, (z.threads t).pending = some p → .mutex p.mutex ∉ R.cells →
    z.wake? t = none

theorem Still.resume (h : Still R z w) (ht : t ∈ R.threads)
    (hr : w.resume? t = some (v, reply)) : Still R z v where
  mine u hu p hp := by
    by_cases hut : u = t
    · subst hut
      rw [resume_pending hr] at hp
      cases hp
    · exact h.mine u hu p (resume_threads hr hut ▸ hp)
  near u hu p hp hm := by
    have hut : u ≠ t := fun hut => hu (hut ▸ ht)
    rw [resume_threads hr hut]
    exact h.near u hu p hp hm
  far := h.far

theorem resume?_eq_none (h : Mirrors R j z w v) (hs : Still R z w) (hr : w.resume? t = none) :
    v.resume? t = none := by
  by_cases ht : t ∈ R.threads
  · have hcells : w.resumeCells t ⊆ R.cells := by
      unfold resumeCells
      split
      · exact List.nil_subset _
      · next p hp =>
        rw [resume?_eq_none_iff.mp hr]
        simpa using hs.mine t ht p hp
    obtain ⟨-, hv⟩ | ⟨x, y, reply, hx, -, -⟩ := h.resume ht hcells
    · exact hv
    · rw [hr] at hx
      cases hx
  · rw [resume?_eq_none_iff] at hr ⊢
    have hthread := h.others t ht
    cases hp : (z.threads t).pending with
    | none => exact wake?_eq_none_of_pending (hthread ▸ hp)
    | some p =>
      have hvp : (v.threads t).pending = some p := hthread ▸ hp
      by_cases hm : .mutex p.mutex ∈ R.cells
      · exact wake?_eq_none_of_same (hs.near t ht p hp hm) hvp (h.inside _ hm) hr
      · exact wake?_eq_none_of_same hp hvp (h.outside _ hm) (hs.far t ht p hp hm)

/-- The same thread is the first to go on. -/
theorem resumeFirst (h : Mirrors R j z w v) (hs : Still R z w)
    (hf : w.resumeFirst? = some (x, t, reply)) (ht : t ∈ R.threads)
    (hc : w.resumeCells t ⊆ R.cells) :
    ∃ y, v.resumeFirst? = some (y, t, reply) ∧ Mirrors R j z x y := by
  obtain ⟨before, u, after, hl, hu, hbefore⟩ := List.findSome?_eq_some_iff.mp hf
  obtain ⟨⟨x', reply'⟩, hx, he⟩ := Option.map_eq_some_iff.mp hu
  cases he
  obtain ⟨hnone, -⟩ | ⟨x', y, reply', hx', hy, hmirrors⟩ := h.resume ht hc
  · rw [hnone] at hx
    cases hx
  · rw [hx] at hx'
    cases hx'
    refine ⟨y, List.findSome?_eq_some_iff.mpr ⟨before, t, after, hl, by simp [hy], ?_⟩, hmirrors⟩
    intro u hu
    exact Option.map_eq_none_iff.mpr (h.resume?_eq_none hs (Option.map_eq_none_iff.mp (hbefore u hu)))

/-- The same threads go on, with the same answers. -/
theorem settle (fuel : Nat) (h : Mirrors R j z w v) (hs : Still R z w)
    (ht : woken (w.settle fuel).2 ⊆ R.threads) (hc : w.settleCells fuel ⊆ R.cells) :
    Mirrors R j z (w.settle fuel).1 (v.settle fuel).1 ∧ (v.settle fuel).2 = (w.settle fuel).2 := by
  induction fuel generalizing w v with
  | zero => exact ⟨h, rfl⟩
  | succ fuel ih =>
    cases hf : w.resumeFirst? with
    | none =>
      have hnone := resumeFirst?_eq_none_iff.mp hf
      have hv : v.resumeFirst? = none :=
        resumeFirst?_eq_none_iff.mpr fun t => h.resume?_eq_none hs (hnone t)
      rw [settle_of_none _ hf, settle_of_none _ hv]
      exact ⟨h, rfl⟩
    | some y =>
      obtain ⟨x, t, reply⟩ := y
      rw [settle_of_some _ hf] at ht ⊢
      rw [settleCells_of_some _ hf] at hc
      obtain ⟨htm, hts⟩ := List.cons_subset.mp ht
      obtain ⟨hcr, hcs⟩ := List.append_subset.mp hc
      obtain ⟨y, hy, hxy⟩ := h.resumeFirst hs hf htm hcr
      obtain ⟨hmirrors, hreplies⟩ := ih hxy (hs.resume htm (resumeFirst?_eq_some hf)) hts hcs
      rw [settle_of_some _ hy]
      exact ⟨hmirrors, by rw [hreplies]⟩

end Mirrors

/-! ### What an operation makes its thread wait for -/

/-- Whoever waits after its attempt waits for the mutex of the attempt, with its purpose. -/
theorem arrive_pending {m : Name} {y : Mutex n} {p : Purpose} {c : Core.Course (Fin n)}
    (hr : (w.threads t).pending = none) {q : Pending}
    (hq : ((w.arrive t m y p c).threads t).pending = some q) : q.mutex = m ∧ q.purpose = p := by
  cases c with
  | answered core a seen =>
    rw [arrive_pending_of_answered, hr] at hq
    cases hq
  | waiting core point seen =>
    rw [arrive_waiting_threads] at hq
    cases hq
    exact ⟨rfl, rfl⟩

theorem slot_mem_cells {m : Name} {o : MutexOp} {p : Purpose} (hp : o.purpose? = some p)
    {r : Name} (hr : p.slot? = some r) : .result r ∈ (Op.mutex m o).cells := by
  cases o with
  | create | lockedByMe | isPoisoned => cases hp
  | intoInner | toJson | fromJson =>
    cases hp
    cases hr
  | lock | tryLock =>
    cases hp
    cases hr
    simp [Op.cells]

/-- A thread that waits after the first step of its operation waits for the mutex that it named, and
with the slot that it named. -/
theorem start_pending (hp : w.Permits t o) (hr : (w.threads t).pending = none)
    {answer : Option Reply} (h : w.start t o = .ok (x, answer)) {q : Pending}
    (hq : (x.threads t).pending = some q) : .mutex q.mutex ∈ o.cells ∧
      ∀ r, q.purpose.slot? = some r → .result r ∈ o.cells := by
  obtain ⟨-, hc⟩ | ⟨rfl, -⟩ := start_cases hp h
  · rw [hc.calm.pending, hr] at hq
    cases hq
  · obtain ⟨m, mo, y, p, rfl, hpurpose, -, rfl⟩ := start_enters h
    obtain ⟨hm, hqp⟩ := arrive_pending hr hq
    refine ⟨?_, fun r hs => slot_mem_cells hpurpose (hqp ▸ hs)⟩
    rw [hm]
    cases mo <;> simp [Op.cells]

theorem perform_pending (hp : w.Permits t o) (hr : (w.threads t).pending = none)
    (h : w.perform t o = .ok (x, reply)) {q : Pending} (hq : (x.threads t).pending = some q) :
    .mutex q.mutex ∈ o.cells ∧ ∀ r, q.purpose.slot? = some r → .result r ∈ o.cells := by
  obtain ⟨⟨y, answer⟩, hy, he⟩ := except_map_eq_ok h
  cases answer with
  | some a =>
    obtain rfl : y = x := congrArg Prod.fst he
    exact start_pending hp hr hy hq
  | none =>
    obtain rfl : (y.finish t).1 = x := congrArg Prod.fst he
    rw [finish_pending] at hq
    exact start_pending hp hr hy hq

/-! ### Steps -/

/-- A step that was taken: the operation left `x` behind, and with those that went on then it came to
`v` and the answers `a`. -/
structure Stepped (w : World n) (t : Fin n) (o : Op) (x v : World n)
    (a : Reply × List (Fin n × Reply)) : Prop where
  resting : w.isResting t = true
  permits : w.Permits t o
  performs : w.perform t o = .ok (x, a.1)
  settles : x.settle n = (v, a.2)

/-- What a step reaches and whose state it changes. -/
def reach (w : World n) (t : Fin n) (o : Op) (a : Reply × List (Fin n × Reply)) : Region n :=
  ⟨w.involved t o, t :: woken a.2⟩

variable {a : Reply × List (Fin n × Reply)}

theorem step_eq (hr : w.isResting t = true) : w.step t o =
    (w.perform t o).map fun y => ((y.1.settle n).1, y.2, (y.1.settle n).2) := by
  have hw : w.isWaiting t = false := by simp [isWaiting, (isResting_iff.mp hr).1]
  simp [step, hw]

theorem exists_stepped (hr : w.isResting t = true) (hp : w.Permits t o)
    (h : w.step t o = .ok (v, a)) : ∃ x, Stepped w t o x v a := by
  rw [step_eq hr] at h
  obtain ⟨⟨x, reply⟩, hx, he⟩ := except_map_eq_ok h
  obtain ⟨rfl, rfl⟩ := Prod.mk.inj he
  exact ⟨x, hr, hp, hx, rfl⟩

theorem step_error (hr : w.isResting t = true) {e : Panic} :
    w.step t o = .error e ↔ w.perform t o = .error e := by
  rw [step_eq hr]
  cases w.perform t o <;> simp [Except.map]

theorem cells_subset_involved : o.cells ⊆ w.involved t o :=
  List.subset_append_of_subset_left _ <| List.subset_append_of_subset_left _ <|
    List.subset_append_left _ _

theorem performCells_subset : w.performCells t o ⊆ w.involved t o := List.subset_append_left _ _

namespace Stepped

variable (h : Stepped w t o x v a)
include h

theorem step : w.step t o = .ok (v, a) := by
  rw [step_eq h.resting, h.performs]
  simp [Except.map, h.settles]

theorem pending_before : (w.threads t).pending = none := (isResting_iff.mp h.resting).1

theorem involved_eq : w.involved t o = w.performCells t o ++ x.settleCells n := by
  rw [involved, h.performs]

theorem settleCells_subset : x.settleCells n ⊆ w.involved t o :=
  h.involved_eq ▸ List.subset_append_right _ _

theorem woken_settle : woken (x.settle n).2 = woken a.2 := by rw [h.settles]

/-- The operation and those that go on after it change nothing beyond what they reach. -/
theorem frame : Mirrors (w.reach t o a) w.journal w v v := by
  have hself := (Mirrors.refl (w.reach t o a) w).perform (t := t) (o := o) List.mem_cons_self
    h.permits performCells_subset
  rw [h.performs] at hself
  have hsettled := hself.self.1.settle_self n (h.woken_settle ▸ List.subset_cons_self _ _)
    h.settleCells_subset
  rwa [h.settles] at hsettled

/-- The operation itself changes the state of its own thread only. -/
theorem threads_ne {y : Fin n} (hy : y ≠ t) : x.threads y = w.threads y := by
  have hself := (Mirrors.refl ⟨w.performCells t o, [t]⟩ w).perform (t := t) (o := o)
    List.mem_cons_self h.permits (List.Subset.refl _)
  rw [h.performs] at hself
  exact hself.self.1.others y (by simpa using hy)

/-- If the thread of the operation waits then, it waits for what it named. -/
theorem pending_own {q : Pending} (hq : (x.threads t).pending = some q) :
    .mutex q.mutex ∈ w.involved t o ∧
      ∀ r, q.purpose.slot? = some r → .result r ∈ w.involved t o := by
  obtain ⟨hm, hr⟩ := perform_pending h.permits h.pending_before h.performs hq
  exact ⟨cells_subset_involved hm, fun r hs => cells_subset_involved (hr r hs)⟩

/-- Whoever goes on, other than the thread itself, was waiting before the step for what it involves.
-/
theorem pending_woken {y : Fin n} (hy : y ≠ t) (hm : y ∈ woken a.2) :
    ∃ q, (w.threads y).pending = some q ∧ .mutex q.mutex ∈ w.involved t o := by
  rw [← h.woken_settle] at hm
  obtain ⟨q, hq, hc⟩ := pending_of_woken n hm
  exact ⟨q, h.threads_ne hy ▸ hq, h.settleCells_subset hc⟩

/-- A thread that waits after the step has been waiting as before, or it is the one of the step,
which waits for what it named. -/
theorem pending_after {y : Fin n} {q : Pending} (hq : (v.threads y).pending = some q) :
    (y ≠ t ∧ (w.threads y).pending = some q) ∨
      (y = t ∧ .mutex q.mutex ∈ w.involved t o ∧
        ∀ r, q.purpose.slot? = some r → .result r ∈ w.involved t o) := by
  have hv : (x.settle n).1 = v := congrArg Prod.fst h.settles
  have hnot : y ∉ woken (x.settle n).2 := fun hmem => by
    rw [← hv, settle_pending n hmem] at hq
    cases hq
  have hx : (x.threads y).pending = some q := by
    rw [← settle_threads n hnot, hv, hq]
  by_cases hy : y = t
  · subst hy
    exact .inr ⟨rfl, h.pending_own hx⟩
  · exact .inl ⟨hy, h.threads_ne hy ▸ hx⟩

/-- Nobody else can go on after the step. -/
theorem quiet (y : Fin n) : v.wake? y = none := by
  have hq := x.settle_all_quiet
  rw [h.settles] at hq
  exact resume?_eq_none_iff.mp (resumeFirst?_eq_none_iff.mp hq y)

end Stepped

/-- Two worlds that differ in their journals at most. -/
structure SameState (w v : World n) : Prop where
  mutexes : v.mutexes = w.mutexes
  results : v.results = w.results
  guards : v.guards = w.guards
  threads : v.threads = w.threads

/-! ### Two steps -/

section Two

variable {p : Op} {w₁ w₂ x₁ x₂ : World n} {b : Reply × List (Fin n × Reply)}
  (h₁ : Stepped w t o x₁ w₁ a) (h₂ : Stepped w u p x₂ w₂ b) (hne : t ≠ u)
  (hd : (w.involved t o).Disjoint (w.involved u p))

include h₁ hne in
/-- A resting thread is not among those that another thread's step lets go on. -/
theorem Stepped.not_mem_threads (hr : w.isResting u = true) : u ∉ (w.reach t o a).threads := by
  intro hmem
  obtain hu | hu := List.mem_cons.mp hmem
  · exact hne hu.symm
  · obtain ⟨q, hq, -⟩ := h₁.pending_woken (Ne.symm hne) hu
    rw [(isResting_iff.mp hr).1] at hq
    cases hq

include h₁ hne in
theorem Stepped.still_resting (hr : w.isResting u = true) : w₁.isResting u = true := by
  rw [isResting, h₁.frame.others u (h₁.not_mem_threads hne hr)]
  exact hr

include h₁ h₂ hne hd in
theorem Stepped.threads_disjoint :
    (w.reach t o a).threads.Disjoint (w.reach u p b).threads := by
  intro y hy₁ hy₂
  obtain rfl | hy₁ := List.mem_cons.mp hy₁
  · exact h₂.not_mem_threads hne.symm h₁.resting hy₂
  obtain rfl | hy₂ := List.mem_cons.mp hy₂
  · exact h₁.not_mem_threads hne h₂.resting (List.mem_cons_of_mem _ hy₁)
  have hyt : y ≠ t := by
    rintro rfl
    exact h₂.not_mem_threads hne.symm h₁.resting (List.mem_cons_of_mem _ hy₂)
  have hyu : y ≠ u := by
    rintro rfl
    exact h₁.not_mem_threads hne h₂.resting (List.mem_cons_of_mem _ hy₁)
  obtain ⟨q, hq, hm⟩ := h₁.pending_woken hyt hy₁
  obtain ⟨q', hq', hm'⟩ := h₂.pending_woken hyu hy₂
  obtain rfl := Option.some.inj (hq.symm.trans hq')
  exact hd hm hm'

include h₁ hd in
/-- What the second step reaches is as it was, after the first one. -/
theorem Stepped.mirrors {ys : List (Fin n)} (hys : ∀ y ∈ ys, y ∉ (w.reach t o a).threads) :
    Mirrors ⟨w.involved u p, ys⟩ w.journal w₁ w w₁ where
  inside c hc := h₁.frame.outside c fun hc₁ => hd hc₁ hc
  outside c _ := .refl w₁ c
  mine y hy := h₁.frame.others y (hys y hy)
  others _ _ := rfl
  journal := ⟨[], rfl, rfl⟩

include h₁ h₂ hd in
/-- Who can go on after the second step does not depend on the first one. -/
theorem Stepped.still : Mirrors.Still (w.reach u p b) w₁ x₂ where
  mine y hy q hq := by
    by_cases hyu : y = u
    · subst hyu
      exact (h₂.pending_own hq).1
    · have hmem := (List.mem_cons.mp hy).resolve_left hyu
      rw [← h₂.woken_settle] at hmem
      obtain ⟨q', hq', hc⟩ := pending_of_woken n hmem
      obtain rfl := Option.some.inj (hq.symm.trans hq')
      exact h₂.settleCells_subset hc
  near y hy q hq hm := by
    obtain ⟨-, hq⟩ | ⟨-, hm₁, -⟩ := h₁.pending_after hq
    · rw [h₂.threads_ne fun hyu => hy (hyu ▸ List.mem_cons_self), hq]
    · exact absurd hm (hd hm₁)
  far y _ _ _ _ := h₁.quiet y

include h₁ h₂ hne hd in
/-- After the first step the second one does as it would have done before. -/
theorem Stepped.after : ∃ y, w₁.step u p = .ok (y, b) ∧
    Mirrors (w.reach u p b) w.journal w₁ w₂ y := by
  have hdis := h₁.threads_disjoint h₂ hne hd
  have hmirrors : Mirrors (w.reach u p b) w.journal w₁ w w₁ :=
    h₁.mirrors hd fun y hy hy₁ => hdis hy₁ hy
  have hperform := hmirrors.perform (t := u) (o := p) List.mem_cons_self h₂.permits
    performCells_subset
  rw [h₂.performs] at hperform
  generalize he : w₁.perform u p = e at hperform
  obtain ⟨hecho⟩ := hperform
  obtain ⟨hx⟩ := hecho
  obtain ⟨hw, hreplies⟩ := hx.settle n (h₁.still h₂ hd)
    (h₂.woken_settle ▸ List.subset_cons_self _ _) h₂.settleCells_subset
  rw [h₂.settles] at hw hreplies
  refine ⟨_, ?_, hw⟩
  rw [step_eq (h₁.still_resting hne h₂.resting), he]
  simp only [Except.map, hreplies]

include h₁ hne hd in
/-- Nor does it depend on the first step whether the second one ends the process. -/
theorem Stepped.panics (hr : w.isResting u = true) (hp : w.Permits u p) {e : Panic}
    (he : w.step u p = .error e) : w₁.step u p = .error e := by
  have hmem := h₁.not_mem_threads hne hr
  have hmirrors : Mirrors ⟨w.involved u p, [u]⟩ w.journal w₁ w w₁ :=
    h₁.mirrors hd fun y hy => List.mem_singleton.mp hy ▸ hmem
  have hperform := hmirrors.perform (t := u) (o := p) List.mem_cons_self hp
    performCells_subset
  rw [(step_error hr).mp he] at hperform
  rw [step_error (h₁.still_resting hne hr)]
  generalize w₁.perform u p = e' at hperform ⊢
  cases hperform
  rfl

end Two

/-! ### What the other thread may do -/

/-- No thread of the step has a verdict afterwards that it has not acted on. -/
theorem Stepped.arrived (h : Stepped w t o x v a) (hw : w.Reachable) {y : Fin n}
    (hy : y ∈ (w.reach t o a).threads) : (v.threads y).arrived = none := by
  refine (hw.step h.resting h.permits h.step).2 y ?_
  by_cases hyt : y = t
  · rw [hyt, (isResting_iff.mp h.resting).2]
  · obtain ⟨q, hq, -⟩ := h.pending_woken hyt ((List.mem_cons.mp hy).resolve_left hyt)
    exact ((hw.orderly.inOrder y).waits q hq).2.2

/-- A slot that is about to be filled after the step was so before, or is one of the step. -/
theorem Stepped.target_after (h : Stepped w t o x v a) (hw : w.Reachable) {y : Fin n} {r : Name}
    (hy : (v.threads y).target? = some r) :
    (w.threads y).target? = some r ∨ .result r ∈ w.involved t o := by
  by_cases hmem : y ∈ (w.reach t o a).threads
  · have ha := h.arrived hw hmem
    cases hp : (v.threads y).pending with
    | none => simp [ThreadState.target?, hp, ha] at hy
    | some q =>
      have hq : q.purpose.slot? = some r := by simpa [ThreadState.target?, hp] using hy
      obtain ⟨-, hbefore⟩ | ⟨-, -, hslot⟩ := h.pending_after hp
      · exact .inl (by simpa [ThreadState.target?, hbefore] using hq)
      · exact .inr (hslot r hq)
  · rw [h.frame.others y hmem] at hy
    exact .inl hy

/-- Whether a thread may do something is a matter of what it names. -/
theorem Permits.of_same (h : w.Permits t o) (hc : ∀ c ∈ o.cells, w.SameAt v c)
    (ht : ∀ r, .result r ∈ o.cells → ∀ y, (v.threads y).target? = some r →
      (w.threads y).target? = some r) : v.Permits t o := by
  have hresult : ∀ r, .result r ∈ o.cells → v.results r = w.results r := fun r => hc _
  have hguard : ∀ g, .guard g ∈ o.cells → v.guards g = w.guards g := fun g => hc _
  cases o with
  | throw | catch_ => trivial
  | mutex m o =>
    cases o with
    | create value =>
      have hm : v.mutexes m = w.mutexes m := hc (.mutex m) List.mem_cons_self
      exact hm.trans h
    | lockedByMe | isPoisoned | intoInner | toJson | fromJson => trivial
    | lock r | tryLock r =>
      have hr : .result r ∈ (Op.mutex m (.lock r)).cells := by simp [Op.cells]
      exact ⟨by rw [hresult r hr]; exact h.1, fun y hy => h.2 y (ht r hr y hy)⟩
  | result r o =>
    have hr : .result r ∈ (Op.result r o).cells := by cases o <;> simp [Op.cells]
    cases o with
    | content g | intoValue g =>
      simp only [Permits, hresult r hr, hguard g (by simp [Op.cells])]
      exact h
    | _ => simpa only [Permits, hresult r hr] using h
  | guard g o =>
    have hg : .guard g ∈ (Op.guard g o).cells := by cases o <;> simp [Op.cells]
    cases o with
    | move dest | swap dest =>
      simp only [Permits, hguard g hg, hguard dest (by simp [Op.cells])]
      exact h
    | _ => simpa only [Permits, hguard g hg] using h

/-! ### Steps change places -/

/-- The step of `t` leaves alone what that of `u` involves. It leaves it to `u` to take its step, and
to that step whether it ends the process. -/
structure Unimpeded (w : World n) (t : Fin n) (o : Op) (u : Fin n) (p : Op) : Prop where
  spared : ∀ {v a}, w.step t o = .ok (v, a) → ∀ c ∈ w.involved u p, w.SameAt v c
  permitted : ∀ {v a}, w.step t o = .ok (v, a) → v.isResting u = true ∧ v.Permits u p
  panics : ∀ {v a e}, w.step t o = .ok (v, a) → w.step u p = .error e → v.step u p = .error e

/-- The two steps can change places. -/
structure Interchange (w : World n) (t : Fin n) (o : Op) (u : Fin n) (p : Op) : Prop where
  first : w.Unimpeded t o u p
  second : w.Unimpeded u p t o
  /-- In either order each step has the answers that it has alone, those of the threads that go on
  included. The worlds then are the same up to the order of the events. -/
  commutes : ∀ {w₁ a w₂ b}, w.step t o = .ok (w₁, a) → w.step u p = .ok (w₂, b) →
    ∃ v₁ v₂, w₁.step u p = .ok (v₁, b) ∧ w₂.step t o = .ok (v₂, a) ∧ v₁.SameState v₂ ∧
      ∃ es fs, w₁.journal = es ++ w.journal ∧ w₂.journal = fs ++ w.journal ∧
        v₁.journal = fs ++ w₁.journal ∧ v₂.journal = es ++ w₂.journal

section Two

variable {p : Op} {w₁ w₂ v₁ v₂ x₁ x₂ : World n} {b : Reply × List (Fin n × Reply)}

/-- Where each step has been, both orders leave what it left alone. -/
theorem Stepped.same (h₁ : Stepped w t o x₁ w₁ a) (h₂ : Stepped w u p x₂ w₂ b)
    (hc : (w.involved t o).Disjoint (w.involved u p))
    (ht : (w.reach t o a).threads.Disjoint (w.reach u p b).threads)
    (hv₁ : Mirrors (w.reach u p b) w.journal w₁ w₂ v₁)
    (hv₂ : Mirrors (w.reach t o a) w.journal w₂ w₁ v₂) : v₁.SameState v₂ := by
  have hcells : ∀ c, v₁.SameAt v₂ c := by
    intro c
    by_cases hc₂ : c ∈ w.involved u p
    · exact (hv₁.inside c hc₂).symm.trans (hv₂.outside c fun hc₁ => hc hc₁ hc₂)
    have hleft := (hv₁.outside c hc₂).symm
    by_cases hc₁ : c ∈ w.involved t o
    · exact hleft.trans (hv₂.inside c hc₁)
    · exact ((hleft.trans (h₁.frame.outside c hc₁).symm).trans (h₂.frame.outside c hc₂)).trans
        (hv₂.outside c hc₁)
  have hthreads : ∀ y, v₂.threads y = v₁.threads y := by
    intro y
    by_cases hy₂ : y ∈ (w.reach u p b).threads
    · rw [hv₁.mine y hy₂, hv₂.others y fun hy₁ => ht hy₁ hy₂]
    by_cases hy₁ : y ∈ (w.reach t o a).threads
    · rw [hv₁.others y hy₂, hv₂.mine y hy₁]
    · rw [hv₁.others y hy₂, hv₂.others y hy₁, h₁.frame.others y hy₁, h₂.frame.others y hy₂]
  exact ⟨funext fun m => hcells (.mutex m), funext fun r => hcells (.result r),
    funext fun g => hcells (.guard g), funext hthreads⟩

end Two

variable {p : Op}

/-- A step of another thread that involves other mutexes and slots does not impede a thread. -/
theorem Reachable.unimpeded (hw : w.Reachable) (hne : t ≠ u) (ht : w.isResting t = true)
    (hu : w.isResting u = true) (hpt : w.Permits t o) (hpu : w.Permits u p)
    (hd : (w.involved t o).Disjoint (w.involved u p)) : w.Unimpeded t o u p where
  spared {v a} hv c hc := by
    obtain ⟨x, h⟩ := exists_stepped ht hpt hv
    exact h.frame.outside c fun hmem => hd hmem hc
  permitted {v a} hv := by
    obtain ⟨x, h⟩ := exists_stepped ht hpt hv
    refine ⟨h.still_resting hne hu, hpu.of_same (fun c hc => ?_) fun r hr y hy => ?_⟩
    · exact h.frame.outside c fun hmem => hd hmem (cells_subset_involved hc)
    · exact (h.target_after hw hy).resolve_right fun hmem => hd hmem (cells_subset_involved hr)
  panics {v a e} hv he := by
    obtain ⟨x, h⟩ := exists_stepped ht hpt hv
    exact h.panics hne hd hu hpu he

/-- Two steps of resting threads that involve different mutexes and slots can change places. What a
slot held before counts as involved, and what those reach that go on. -/
theorem Reachable.independent (hw : w.Reachable) (hne : t ≠ u) (ht : w.isResting t = true)
    (hu : w.isResting u = true) (hpt : w.Permits t o) (hpu : w.Permits u p)
    (hd : (w.involved t o).Disjoint (w.involved u p)) : w.Interchange t o u p where
  first := hw.unimpeded hne ht hu hpt hpu hd
  second := hw.unimpeded hne.symm hu ht hpu hpt hd.symm
  commutes {w₁ a w₂ b} h₁ h₂ := by
    obtain ⟨x₁, h₁⟩ := exists_stepped ht hpt h₁
    obtain ⟨x₂, h₂⟩ := exists_stepped hu hpu h₂
    obtain ⟨v₁, hv₁, hm₁⟩ := h₁.after h₂ hne hd
    obtain ⟨v₂, hv₂, hm₂⟩ := h₂.after h₁ hne.symm hd.symm
    refine ⟨v₁, v₂, hv₁, hv₂, h₁.same h₂ hd (h₁.threads_disjoint h₂ hne hd) hm₁ hm₂, ?_⟩
    obtain ⟨es, hes, hes₂⟩ := hm₂.journal
    obtain ⟨fs, hfs, hfs₁⟩ := hm₁.journal
    exact ⟨es, fs, hes, hfs, hfs₁, hes₂⟩

/-- A thread that unwinds drops its result on `"a"`; another one goes on then, and its result takes
the place of one that held `"c"`. Meanwhile a third locks `"b"`. -/
theorem drop_independent_of_lock : ∃ w : World 3, w.Reachable ∧
    w.involved 0 (.result "q" .drop) =
      [.result "q", .mutex "a", .mutex "a", .mutex "a", .result "s", .mutex "c"] ∧
    w.involved 1 (.mutex "b" (.lock "r")) =
      [.mutex "b", .result "r", .mutex "b", .result "r"] ∧
    w.Interchange 0 (.result "q" .drop) 1 (.mutex "b" (.lock "r")) ∧
    (w.step 0 (.result "q" .drop)).map Prod.snd =
      .ok (.done, [(2, .status ⟨false, true, true, some .poisoned⟩)]) ∧
    (w.step 1 (.mutex "b" (.lock "r"))).map Prod.snd =
      .ok (.status ⟨true, true, false, none⟩, []) := by
  have h₁ := (Reachable.initial (n := 3)).turn (x := .start 0 (.mutex "a" (.create (.int 1))))
    rfl rfl
  have h₂ := h₁.turn (x := .start 0 (.mutex "b" (.create (.int 2)))) rfl rfl
  have h₃ := h₂.turn (x := .start 0 (.mutex "c" (.create (.int 3)))) rfl rfl
  have h₄ := h₃.turn (x := .start 2 (.mutex "c" (.lock "s"))) ⟨nofun, fun u => nofun⟩ rfl
  have h₅ := h₄.turn (x := .finish 2) trivial rfl
  have h₆ := h₅.turn (x := .start 0 (.mutex "a" (.lock "q"))) ⟨nofun, by decide⟩ rfl
  have h₇ := h₆.turn (x := .finish 0) trivial rfl
  have h₈ := h₇.turn (x := .start 2 (.mutex "a" (.lock "s"))) ⟨by rintro s ⟨⟩; rfl, by decide⟩ rfl
  have h := h₈.turn (x := .start 0 .throw) trivial rfl
  refine ⟨_, h, rfl, rfl, h.independent ?_ ?_ ?_ ?_ ?_ ?_, rfl, rfl⟩
  · decide
  · rfl
  · rfl
  · rintro s ⟨⟩; rfl
  · exact ⟨by rintro s ⟨⟩, by decide⟩
  · exact List.disjoint_iff_ne.mpr (by decide)

end World
end Guarded
end CheckedLock
