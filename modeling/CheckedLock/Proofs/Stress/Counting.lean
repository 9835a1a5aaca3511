import Mathlib.Algebra.BigOperators.Group.Finset.Basic
import Mathlib.Algebra.BigOperators.Fin
import CheckedLock.Proofs.Lock.Phase
import CheckedLock.Stress.Race

/-! Workers that count under a lock, in every interleaving. Where a worker stands decides how it is
placed at the lock, and how much of its rounds shows in each of the shared counters. The counters
are the sums of these shares, since only the worker inside the lock writes back what it has read. -/
namespace CheckedLock
namespace Stress

namespace Place

/-- How a worker at this place is placed at the lock. -/
def phase : Place → Phase → Prop
  | .looping, p | .refused, p | .finished, p => p = .free
  | .attempting, p => ∃ polling, p = .acquiring polling
  | .loading, p | .storing _, p | .rejected, p => p = .holding
  | .reentering, p => p = .retrying false
  | .leaving again, p => again = false ∧ p = .releasing
  | .surprised _, _ => False

/-- One was added in the present round. -/
def added : Place → Nat
  | .reentering | .rejected | .leaving _ => 1
  | _ => 0

/-- The second attempt of the present round was refused, and that was counted. -/
def refusedAgain : Place → Nat
  | .leaving _ => 1
  | _ => 0

end Place

namespace Worker

structure Fits (rounds : Nat) (w : Worker) : Prop where
  phase : ∃ p, w.place.phase p ∧ p.Admits w.member
  le : w.round ≤ rounds
  lt : w.place ≠ .looping → w.place ≠ .finished → w.round < rounds
  eq : w.place = .finished → w.round = rounds

def added (w : Worker) : Nat := w.round + w.place.added

def refusals (w : Worker) : Nat := w.round + w.place.refusedAgain

end Worker

namespace Race

variable {n rounds : Nat} {r q : Race n} {t : Fin n}

theorem crew_setWorker (r : Race n) (l : Ledger n) (t : Fin n) (w : Worker) :
    ({ r with ledger := l }.setWorker t w).crew =
      { r.crew with core := l.core }.setMember (some t) w.member := by
  simp only [crew, Crew.setMember, Crew.mk.injEq]
  refine ⟨rfl, ?_⟩
  funext u
  cases u with
  | none => simp
  | some u =>
    by_cases hu : u = t
    · subst hu; simp
    · simp [setWorker_ne _ _ hu, hu]

theorem sum_setWorker (r : Race n) {f : Worker → Nat} {w : Worker} {d : Nat}
    (h : f w = f (r.workers t) + d) :
    ∑ u, f ((r.setWorker t w).workers u) = (∑ u, f (r.workers u)) + d := by
  rw [← Finset.add_sum_erase _ _ (Finset.mem_univ t),
    ← Finset.add_sum_erase _ _ (Finset.mem_univ t),
    Finset.sum_congr rfl fun u hu => by rw [setWorker_ne _ _ (Finset.ne_of_mem_erase hu)]]
  simp only [setWorker_self, h]
  omega

structure Sound (rounds : Nat) (r : Race n) : Prop where
  crew : r.crew.Consistent
  unpoisoned : r.ledger.core.poisoned = false
  fits : ∀ t, (r.workers t).Fits rounds
  /-- What a worker is about to write back is one more than the counter. -/
  current : ∀ t seen, (r.workers t).place = .storing seen → seen = r.ledger.counter
  counter : r.ledger.counter = UInt64.ofNat (∑ t, (r.workers t).added)
  rejected : r.ledger.rejected = UInt64.ofNat (∑ t, (r.workers t).refusals)
  unexpected : r.ledger.unexpected = 0

theorem sound_initial : ({} : Race n).Sound rounds where
  crew := by
    have hcrew : ({} : Race n).crew = {} := by
      simp only [crew, Crew.mk.injEq, true_and]
      funext u
      cases u <;> rfl
    exact hcrew ▸ Crew.consistent_initial
  unpoisoned := rfl
  fits _ := ⟨⟨.free, rfl, rfl⟩, Nat.zero_le _, fun h => absurd rfl h, nofun⟩
  current _ _ h := nomatch h
  counter := by simp [Worker.added, Place.added]
  rejected := by simp [Worker.refusals, Place.refusedAgain]
  unexpected := rfl

namespace Sound

/-- A step of worker `t` that adds `a` to the counter and counts `b` refusals. -/
theorem move (h : r.Sound rounds) {l : Ledger n} {w : Worker} (a b : Nat)
    (hcrew : ({ r.crew with core := l.core }.setMember (some t) w.member).Consistent)
    (hp : l.core.poisoned = false) (hfits : w.Fits rounds)
    (hown : ∀ seen, w.place = .storing seen → seen = l.counter)
    (hothers : ∀ u seen, u ≠ t → (r.workers u).place = .storing seen →
      l.counter = r.ledger.counter)
    (hadded : w.added = (r.workers t).added + a)
    (hcounter : l.counter = r.ledger.counter + UInt64.ofNat a)
    (hrefusals : w.refusals = (r.workers t).refusals + b)
    (hrejected : l.rejected = r.ledger.rejected + UInt64.ofNat b) (hu : l.unexpected = 0) :
    ({ r with ledger := l }.setWorker t w).Sound rounds where
  crew := by rwa [crew_setWorker]
  unpoisoned := hp
  fits u := by
    by_cases hut : u = t
    · subst hut; simpa using hfits
    · simpa [setWorker_ne _ _ hut] using h.fits u
  current u seen hs := by
    by_cases hut : u = t
    · subst hut
      exact hown seen (by simpa using hs)
    · rw [setWorker_ne _ _ hut] at hs
      exact (h.current u seen hs).trans (hothers u seen hut hs).symm
  counter := by
    rw [sum_setWorker { r with ledger := l } hadded, UInt64.ofNat_add]
    exact hcounter.trans (by rw [h.counter])
  rejected := by
    rw [sum_setWorker { r with ledger := l } hrefusals, UInt64.ofNat_add]
    exact hrejected.trans (by rw [h.rejected])
  unexpected := hu

/-- A step within a round. -/
theorem within (h : r.Sound rounds) {l : Ledger n} {m : Member} {place : Place} {p : Phase}
    (a b : Nat) (hlt : (r.workers t).round < rounds)
    (hcrew : ({ r.crew with core := l.core }.setMember (some t) m).Consistent)
    (hp : l.core.poisoned = false) (hplace : place.phase p ∧ p.Admits m) (hne : place ≠ .finished)
    (hown : ∀ seen, place = .storing seen → seen = l.counter)
    (hothers : ∀ u seen, u ≠ t → (r.workers u).place = .storing seen →
      l.counter = r.ledger.counter)
    (hadded : place.added = (r.workers t).place.added + a)
    (hcounter : l.counter = r.ledger.counter + UInt64.ofNat a)
    (hrefusals : place.refusedAgain = (r.workers t).place.refusedAgain + b)
    (hrejected : l.rejected = r.ledger.rejected + UInt64.ofNat b) (hu : l.unexpected = 0) :
    ({ r with ledger := l }.setWorker t ⟨place, (r.workers t).round, m⟩).Sound rounds := by
  refine h.move a b hcrew hp ?_ hown hothers ?_ hcounter ?_ hrejected hu
  · exact ⟨⟨p, hplace⟩, Nat.le_of_lt hlt, fun _ _ => hlt, fun he => absurd he hne⟩
  · simp only [Worker.added, hadded, Nat.add_assoc]
  · simp only [Worker.refusals, hrefusals, Nat.add_assoc]

/-- A step within a round that counts nothing. -/
theorem pass (h : r.Sound rounds) {l : Ledger n} {m : Member} {place : Place} {p : Phase}
    (hlt : (r.workers t).round < rounds)
    (hcrew : ({ r.crew with core := l.core }.setMember (some t) m).Consistent)
    (hp : l.core.poisoned = false) (hplace : place.phase p ∧ p.Admits m) (hne : place ≠ .finished)
    (hown : ∀ seen, place = .storing seen → seen = r.ledger.counter)
    (hshares : place.added = (r.workers t).place.added ∧
      place.refusedAgain = (r.workers t).place.refusedAgain)
    (hl : l.counter = r.ledger.counter ∧ l.rejected = r.ledger.rejected ∧
      l.unexpected = r.ledger.unexpected) :
    ({ r with ledger := l }.setWorker t ⟨place, (r.workers t).round, m⟩).Sound rounds :=
  h.within 0 0 hlt hcrew hp hplace hne (fun seen hs => (hown seen hs).trans hl.1.symm)
    (fun _ _ _ _ => hl.1) hshares.1 (by simp [hl.1]) hshares.2 (by simp [hl.2.1])
    (hl.2.2.trans h.unexpected)

theorem storing_ne (h : r.Sound rounds) {u : Fin n} {seen : UInt64}
    (ht : Phase.holding.Admits (r.workers t).member) (hu : u ≠ t) :
    (r.workers u).place ≠ .storing seen := by
  intro hs
  obtain ⟨p, hp, hm⟩ := (h.fits u).phase
  rw [hs] at hp
  subst hp
  have hin := h.crew.inside_of_admits (t := some t) ht
  have hin' := h.crew.inside_of_admits (t := some u) hm
  simp_all

/-- One case for each place that the worker can be at. -/
theorem step (h : r.Sound rounds) (hq : r.step rounds t = some q) : q.Sound rounds := by
  obtain ⟨⟨l, w⟩, hstep, rfl⟩ := Option.map_eq_some_iff.mp hq
  have hfit := h.fits t
  obtain ⟨p, hplace, hm⟩ := hfit.phase
  have hlt := hfit.lt
  have hc := h.crew
  cases hpl : (r.workers t).place with
  | looping =>
    obtain rfl : p = .free := by simpa [hpl, Place.phase] using hplace
    simp only [Worker.step, hpl] at hstep
    by_cases hlt : (r.workers t).round < rounds
    · obtain ⟨m, hm', hadm⟩ := hm.start_free (Worker.polls t (r.workers t).round)
      simp only [hlt, if_true, Worker.start?, hm', Option.map_some, Option.some.injEq,
        Prod.mk.injEq] at hstep
      obtain ⟨rfl, rfl⟩ := hstep
      exact h.pass hlt (hc.start hm') h.unpoisoned ⟨⟨_, rfl⟩, hadm⟩ nofun nofun
        (hpl ▸ ⟨rfl, rfl⟩) ⟨rfl, rfl, rfl⟩
    · -- the last round is over, so this is no step within one
      simp only [hlt, if_false, Option.some.injEq, Prod.mk.injEq] at hstep
      obtain ⟨rfl, rfl⟩ := hstep
      have heq : (r.workers t).round = rounds := Nat.le_antisymm hfit.le (Nat.not_lt.mp hlt)
      refine h.move 0 0 (hc.keep (hc.placed (some t)) rfl rfl rfl) h.unpoisoned ?_ nofun
        (fun _ _ _ _ => rfl) ?_ (by simp) ?_ (by simp) h.unexpected
      · exact ⟨⟨_, rfl, hm⟩, hfit.le, fun _ hf => absurd rfl hf, fun _ => heq⟩
      · simp [Worker.added, Place.added, hpl]
      · simp [Worker.refusals, Place.refusedAgain, hpl]
  | attempting =>
    obtain ⟨polling, rfl⟩ : ∃ polling, p = .acquiring polling := by
      simpa [hpl, Place.phase] using hplace
    replace hlt := hlt (by simp [hpl]) (by simp [hpl])
    simp only [Worker.step, hpl, Worker.advance?] at hstep
    obtain ⟨e, he, hnext⟩ := Option.bind_eq_some_iff.mp hstep
    have hcrew := hc.advance (t := some t) he
    obtain ⟨hp, ⟨ha, hadm⟩ | ⟨ha, hadm, -⟩ | ⟨ha, hadm, -⟩⟩ :=
      hc.advance_acquiring (t := some t) h.unpoisoned hm he
    all_goals
      simp only [ha, Option.some.injEq, Prod.mk.injEq] at hnext
      obtain ⟨rfl, rfl⟩ := hnext
    · exact h.pass hlt hcrew hp ⟨⟨_, rfl⟩, hadm⟩ nofun nofun (hpl ▸ ⟨rfl, rfl⟩) ⟨rfl, rfl, rfl⟩
    · exact h.pass hlt hcrew hp ⟨rfl, hadm⟩ nofun nofun (hpl ▸ ⟨rfl, rfl⟩) ⟨rfl, rfl, rfl⟩
    · exact h.pass hlt hcrew hp ⟨rfl, hadm⟩ nofun nofun (hpl ▸ ⟨rfl, rfl⟩) ⟨rfl, rfl, rfl⟩
  | refused =>
    obtain rfl : p = .free := by simpa [hpl, Place.phase] using hplace
    replace hlt := hlt (by simp [hpl]) (by simp [hpl])
    obtain ⟨m, hm', hadm⟩ := hm.start_free true
    simp only [Worker.step, hpl, Worker.start?, hm', Option.map_some, Option.some.injEq,
      Prod.mk.injEq] at hstep
    obtain ⟨rfl, rfl⟩ := hstep
    exact h.pass hlt (hc.start hm') h.unpoisoned ⟨⟨_, rfl⟩, hadm⟩ nofun nofun (hpl ▸ ⟨rfl, rfl⟩)
      ⟨rfl, rfl, rfl⟩
  | surprised holds => simp [hpl, Place.phase] at hplace
  | loading =>
    obtain rfl : p = .holding := by simpa [hpl, Place.phase] using hplace
    replace hlt := hlt (by simp [hpl]) (by simp [hpl])
    simp only [Worker.step, hpl, Option.some.injEq, Prod.mk.injEq] at hstep
    obtain ⟨rfl, rfl⟩ := hstep
    refine h.pass hlt (hc.keep (hc.placed (some t)) rfl rfl rfl) h.unpoisoned ⟨rfl, hm⟩ nofun ?_
      (hpl ▸ ⟨rfl, rfl⟩) ⟨rfl, rfl, rfl⟩
    rintro seen ⟨⟩
    rfl
  | storing seen =>
    obtain rfl : p = .holding := by simpa [hpl, Place.phase] using hplace
    replace hlt := hlt (by simp [hpl]) (by simp [hpl])
    obtain ⟨m, hm', hadm⟩ := hm.start_holding false
    simp only [Worker.step, hpl, Worker.start?, hm', Option.map_some, Option.some.injEq,
      Prod.mk.injEq] at hstep
    obtain ⟨rfl, rfl⟩ := hstep
    refine h.within 1 0 hlt (hc.start hm') h.unpoisoned ⟨rfl, hadm⟩ nofun nofun ?_ (hpl ▸ rfl) ?_
      (hpl ▸ rfl) (by simp) h.unexpected
    · intro u seen' hu hs
      exact absurd hs (h.storing_ne hm hu)
    · simp [h.current t seen hpl]
  | reentering =>
    obtain rfl : p = .retrying false := by simpa [hpl, Place.phase] using hplace
    replace hlt := hlt (by simp [hpl]) (by simp [hpl])
    simp only [Worker.step, hpl, Worker.advance?] at hstep
    obtain ⟨e, he, hnext⟩ := Option.bind_eq_some_iff.mp hstep
    have hcrew := hc.advance (t := some t) he
    obtain ⟨hcore, ha, hadm⟩ := hc.advance_retrying (t := some t) hm he
    simp only [ha, Option.some.injEq, Prod.mk.injEq] at hnext
    obtain ⟨rfl, rfl⟩ := hnext
    have hp : e.core.poisoned = false := by rw [hcore]; exact h.unpoisoned
    exact h.pass hlt hcrew hp ⟨rfl, hadm⟩ nofun nofun (hpl ▸ ⟨rfl, rfl⟩) ⟨rfl, rfl, rfl⟩
  | rejected =>
    obtain rfl : p = .holding := by simpa [hpl, Place.phase] using hplace
    replace hlt := hlt (by simp [hpl]) (by simp [hpl])
    obtain ⟨m, hm', hadm⟩ := hm.start_release
    simp only [Worker.step, hpl, Worker.start?, hm', Option.map_some, Option.some.injEq,
      Prod.mk.injEq] at hstep
    obtain ⟨rfl, rfl⟩ := hstep
    exact h.within 0 1 hlt (hc.start hm') h.unpoisoned ⟨⟨rfl, rfl⟩, hadm⟩ nofun nofun
      (fun _ _ _ _ => rfl) (hpl ▸ rfl) (by simp) (hpl ▸ rfl) (by simp) h.unexpected
  | leaving again =>
    obtain ⟨rfl, rfl⟩ : again = false ∧ p = .releasing := by simpa [hpl, Place.phase] using hplace
    replace hlt := hlt (by simp [hpl]) (by simp [hpl])
    simp only [Worker.step, hpl, Worker.advance?] at hstep
    obtain ⟨e, he, hnext⟩ := Option.bind_eq_some_iff.mp hstep
    have hcrew := hc.advance (t := some t) he
    obtain ⟨hp, ⟨ha, hadm⟩ | ⟨ha, hadm⟩⟩ :=
      hc.advance_releasing (t := some t) h.unpoisoned hm he
    · simp only [ha, Option.some.injEq, Prod.mk.injEq] at hnext
      obtain ⟨rfl, rfl⟩ := hnext
      exact h.pass hlt hcrew hp ⟨⟨rfl, rfl⟩, hadm⟩ nofun nofun (hpl ▸ ⟨rfl, rfl⟩) ⟨rfl, rfl, rfl⟩
    · -- the round is complete: what it counted goes from the place to the number of rounds
      simp only [ha, Bool.false_eq_true, if_false, Option.some.injEq, Prod.mk.injEq] at hnext
      obtain ⟨rfl, rfl⟩ := hnext
      refine h.move 0 0 hcrew hp ?_ nofun (fun _ _ _ _ => rfl) ?_ (by simp) ?_ (by simp)
        h.unexpected
      · exact ⟨⟨_, rfl, hadm⟩, hlt, fun hne => absurd rfl hne, nofun⟩
      · simp [Worker.added, Worker.endRound, Place.added, hpl]
      · simp [Worker.refusals, Worker.endRound, Place.refusedAgain, hpl]
  | finished => simp [Worker.step, hpl] at hstep

end Sound

theorem Reachable.sound (h : r.Reachable rounds) : r.Sound rounds := by
  induction h with
  | initial => exact sound_initial
  | step _ hq ih => exact ih.step hq

theorem isOver_iff : r.isOver = true ↔ ∀ t, (r.workers t).place = .finished := by
  simp [isOver]

namespace Sound

theorem standing_of_finished (h : r.Sound rounds) (ht : (r.workers t).place = .finished) :
    (r.workers t).member.standing = .outside := by
  obtain ⟨p, hp, hm⟩ := (h.fits t).phase
  obtain rfl : p = .free := by simpa [ht, Place.phase] using hp
  exact hm.standing_free

/-- The shares of workers that have finished add up to all rounds. -/
theorem sum_of_isOver (h : r.Sound rounds) (hover : r.isOver = true) :
    ∑ t, (r.workers t).added = n * rounds ∧ ∑ t, (r.workers t).refusals = n * rounds := by
  have hplace := isOver_iff.mp hover
  have hround : ∀ t, (r.workers t).round = rounds := fun t => (h.fits t).eq (hplace t)
  simp [Worker.added, Worker.refusals, Place.added, Place.refusedAgain, hplace, hround]

/-- At the end the lock is free, and whoever takes it finds the counter as the workers left it. -/
theorem total_of_isOver (h : r.Sound rounds) (hover : r.isOver = true) :
    r.total = .ofVerdict .acquired r.ledger.counter := by
  have hout : ∀ u, (r.crew.members u).standing = .outside := by
    intro u
    cases u with
    | none => rfl
    | some u => exact h.standing_of_finished (isOver_iff.mp hover u)
  have hfree : r.ledger.core.inside = none := by
    by_contra hne
    obtain ⟨u, hu⟩ := Option.ne_none_iff_exists'.mp hne
    exact (h.crew.inside_iff u).mp hu (hout u)
  have hn : r.ledger.core.owner.names (some none) = false := by
    rw [Bool.eq_false_iff, Ne, show r.ledger.core = r.crew.core from rfl, h.crew.names_iff, hout]
    decide
  simp [total, Core.call_acquire_of_free false hn hfree, Core.grant, h.unpoisoned]

theorem step_isSome (h : r.Sound rounds) (hne : (r.workers t).place ≠ .finished)
    (hfree : ∀ u, r.ledger.core.inside = some u → u = some t) :
    (r.step rounds t).isSome := by
  obtain ⟨p, hplace, hm⟩ := (h.fits t).phase
  have hc := h.crew
  have hgo : ∀ {q x}, (r.workers t).member.stage = .calling q x →
      ∃ e, (r.workers t).member.advance? (some t) r.ledger.core = some e := fun hs =>
    Option.isSome_iff_exists.mp (hc.advance?_isSome (t := some t) hs hfree)
  simp only [Race.step, Option.isSome_map]
  cases hpl : (r.workers t).place with
  | looping =>
    obtain rfl : p = .free := by simpa [hpl, Place.phase] using hplace
    obtain ⟨m, hm', -⟩ := hm.start_free (Worker.polls t (r.workers t).round)
    simp only [Worker.step, hpl, Worker.start?, hm']
    split <;> rfl
  | attempting =>
    obtain ⟨polling, rfl⟩ : ∃ polling, p = .acquiring polling := by
      simpa [hpl, Place.phase] using hplace
    obtain ⟨e, he⟩ := hgo (congrArg Member.stage hm.choose_spec)
    obtain ⟨-, ⟨ha, -⟩ | ⟨ha, -⟩ | ⟨ha, -⟩⟩ :=
      hc.advance_acquiring (t := some t) h.unpoisoned hm he <;>
    simp [Worker.step, hpl, Worker.advance?, he, ha]
  | refused =>
    obtain rfl : p = .free := by simpa [hpl, Place.phase] using hplace
    obtain ⟨m, hm', -⟩ := hm.start_free true
    simp [Worker.step, hpl, Worker.start?, hm']
  | surprised holds => simp [hpl, Place.phase] at hplace
  | loading => simp [Worker.step, hpl]
  | storing seen =>
    obtain rfl : p = .holding := by simpa [hpl, Place.phase] using hplace
    obtain ⟨m, hm', -⟩ := hm.start_holding false
    simp [Worker.step, hpl, Worker.start?, hm']
  | reentering =>
    obtain rfl : p = .retrying false := by simpa [hpl, Place.phase] using hplace
    obtain ⟨e, he⟩ := hgo (congrArg Member.stage hm)
    obtain ⟨-, ha, -⟩ := hc.advance_retrying (t := some t) hm he
    simp [Worker.step, hpl, Worker.advance?, he, ha]
  | rejected =>
    obtain rfl : p = .holding := by simpa [hpl, Place.phase] using hplace
    obtain ⟨m, hm', -⟩ := hm.start_release
    simp [Worker.step, hpl, Worker.start?, hm']
  | leaving again =>
    obtain ⟨rfl, rfl⟩ : again = false ∧ p = .releasing := by simpa [hpl, Place.phase] using hplace
    obtain ⟨e, he⟩ := hgo (congrArg Member.stage hm.choose_spec.2)
    obtain ⟨-, ⟨ha, -⟩ | ⟨ha, -⟩⟩ := hc.advance_releasing (t := some t) h.unpoisoned hm he <;>
    simp [Worker.step, hpl, Worker.advance?, he, ha]
  | finished => exact absurd hpl hne

/-- Some worker can always go on, up to the end of all. -/
theorem exists_step (h : r.Sound rounds) (hover : r.isOver = false) :
    ∃ t, (r.step rounds t).isSome := by
  cases hin : r.ledger.core.inside with
  | none =>
    obtain ⟨t, ht⟩ : ∃ t, (r.workers t).place ≠ .finished := by
      by_contra hall
      push Not at hall
      simp [isOver_iff.mpr hall] at hover
    exact ⟨t, h.step_isSome ht (by simp [hin])⟩
  | some u =>
    have hu := (h.crew.inside_iff u).mp hin
    cases u with
    | none => exact absurd rfl hu
    | some t =>
      refine ⟨t, h.step_isSome (fun ht => hu (h.standing_of_finished ht)) ?_⟩
      intro u hu'
      simp_all

end Sound

/-- The workers take their steps in the given order. -/
def runs (rounds : Nat) : Race n → List (Fin n) → Option (Race n) :=
  List.foldlM fun r t => r.step rounds t

theorem Reachable.runs {ts : List (Fin n)} (h : r.Reachable rounds)
    (hq : r.runs rounds ts = some q) : q.Reachable rounds := by
  induction ts generalizing r with
  | nil =>
    obtain rfl : r = q := by simpa [Race.runs] using hq
    exact h
  | cons t ts ih =>
    simp only [Race.runs, List.foldlM_cons, Option.bind_eq_bind, Option.bind_eq_some_iff] at hq
    obtain ⟨r', hr', hq⟩ := hq
    exact ih (h.step hr') hq

end Race
end Stress
end CheckedLock
