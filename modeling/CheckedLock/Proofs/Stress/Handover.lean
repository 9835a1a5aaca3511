import CheckedLock.Proofs.Lock.Phase
import CheckedLock.Stress.Contention

/-! The holder and its rival, in every interleaving. The rival goes through its places in order, and
each place of the holder allows it a part of its way: the holder's checks can only be reached where
they pass. -/
namespace CheckedLock
namespace Stress

namespace HolderPlace

def phase : HolderPlace → Phase
  | .starting | .joining | .done => .free
  | .acquiring => .acquiring false
  | .awaitingTry | .awaitingWord | .watching => .holding
  | .releasing _ => .releasing

/-- The checks that are behind the holder, the latest first. -/
def passed : HolderPlace → List Check
  | .starting | .acquiring | .awaitingTry => []
  | .awaitingWord | .watching => [⟨true, "try_lock() from thread B reports WouldBlock"⟩]
  | .releasing _ | .joining =>
    [⟨true, "thread B's lock() is suspended while A holds the lock"⟩,
      ⟨true, "try_lock() from thread B reports WouldBlock"⟩]
  | .done =>
    [⟨true, "thread B acquires after A releases, reads \"x\""⟩,
      ⟨true, "thread B's lock() is suspended while A holds the lock"⟩,
      ⟨true, "try_lock() from thread B reports WouldBlock"⟩]

end HolderPlace

namespace RivalPlace

def phase : RivalPlace → Phase
  | .unborn | .starting | .noting _ | .signalling _ | .announcing _ | .done => .free
  | .trying => .acquiring true
  | .locking _ => .acquiring false
  | .reading _ | .confirming _ => .holding
  | .releasing _ => .releasing

/-- Places in the order in which the rival comes to them. -/
def stage : RivalPlace → Nat
  | .unborn => 0
  | .starting => 1
  | .trying => 2
  | .noting _ => 3
  | .signalling _ => 4
  | .announcing _ => 5
  | .locking _ => 6
  | .reading _ => 7
  | .confirming _ => 8
  | .releasing _ => 9
  | .done => 10

/-- The first attempt did not take the lock. -/
def Turned : RivalPlace → Prop
  | .noting v => v = .wouldBlock
  | .signalling kept | .announcing kept | .locking kept | .reading kept | .confirming kept
  | .releasing kept => kept = false
  | _ => True

end RivalPlace

/-- How far the rival has come while the holder is at this place. -/
def HolderPlace.Allows : HolderPlace → Nat → Prop
  | .starting, i | .acquiring, i => i = 0
  | .awaitingTry, i => 1 ≤ i ∧ i ≤ 6
  | .awaitingWord, i => 5 ≤ i ∧ i ≤ 6
  | .watching, i => i = 6
  | .releasing joins, i => joins = true ∧ i = 6
  | .joining, i => 6 ≤ i ∧ i ≤ 10
  | .done, i => i = 10

namespace Contention

variable {s : Contention}

/-- What the two have told each other, and the checks so far. -/
structure Story (s : Contention) : Prop where
  allows : s.holder.Allows s.rival.stage
  turned : s.rival.Turned
  tried : s.tried = decide (5 ≤ s.rival.stage)
  announced : s.announced = decide (6 ≤ s.rival.stage)
  acquired : s.acquired = decide (9 ≤ s.rival.stage)
  wouldBlock : 4 ≤ s.rival.stage → s.wouldBlock = true
  value : s.value = "x"
  read : 8 ≤ s.rival.stage → s.read = "x"
  passed : s.remarks.filterMap Remark.check? = s.holder.passed

structure Sound (s : Contention) : Prop where
  crew : s.crew.Consistent
  unpoisoned : s.core.poisoned = false
  holder : s.holder.phase.Admits (s.members .holder)
  rival : s.rival.phase.Admits (s.members .rival)
  story : s.Story

theorem sound_initial : ({} : Contention).Sound where
  crew := Crew.consistent_initial
  unpoisoned := rfl
  holder := rfl
  rival := rfl
  story := ⟨rfl, trivial, rfl, rfl, rfl, nofun, rfl, nofun, rfl⟩

/-- The rival comes from its place `k` to the next one, and what it tells the holder by that. -/
structure Onward (k : Nat) (s s' : Contention) : Prop where
  stage : s.rival.stage = k
  next : s'.rival.stage = k + 1
  wouldBlock : s'.wouldBlock = (decide (k = 3) || s.wouldBlock)
  tried : s'.tried = (decide (k = 4) || s.tried)
  announced : s'.announced = (decide (k = 5) || s.announced)
  read : s'.read = if k = 7 then s.value else s.read
  acquired : s'.acquired = (decide (k = 8) || s.acquired)
  value : s'.value = s.value

theorem Story.onward {s' : Contention} {k : Nat} (hst : s.Story) (hk : Onward k s s')
    (hallows : s'.holder.Allows (k + 1)) (hturned : s'.rival.Turned)
    (hpassed : s'.remarks.filterMap Remark.check? = s'.holder.passed) : s'.Story where
  allows := hk.next ▸ hallows
  turned := hturned
  tried := by
    rw [hk.tried, hst.tried, hk.stage, hk.next, ← Bool.decide_or]
    exact decide_eq_decide.mpr (by omega)
  announced := by
    rw [hk.announced, hst.announced, hk.stage, hk.next, ← Bool.decide_or]
    exact decide_eq_decide.mpr (by omega)
  acquired := by
    rw [hk.acquired, hst.acquired, hk.stage, hk.next, ← Bool.decide_or]
    exact decide_eq_decide.mpr (by omega)
  wouldBlock hle := by
    rw [hk.next] at hle
    rw [hk.wouldBlock, Bool.or_eq_true, decide_eq_true_eq]
    exact (Nat.eq_or_lt_of_le (Nat.le_of_succ_le_succ hle)).imp Eq.symm
      fun hlt => hst.wouldBlock (hk.stage ▸ hlt)
  value := hk.value.trans hst.value
  read hle := by
    rw [hk.next] at hle
    rw [hk.read]
    split
    case isTrue => exact hst.value
    case isFalse hne => exact hst.read (by rw [hk.stage]; omega)
  passed := hpassed

/-- A step of a call changes the lock and the caller; the checks stay as they are. -/
theorem advance?_eq {p : Party} {x : Contention × Option Answer} (h : s.advance? p = some x) :
    ∃ e notices, (s.members p).advance? p s.core = some e ∧
      notices.filterMap Remark.check? = s.remarks.filterMap Remark.check? ∧
      x = ({ s.setMember p e.member with core := e.core, remarks := notices }, e.answer) := by
  obtain ⟨e, he, rfl⟩ := Option.map_eq_some_iff.mp h
  cases hn : e.notice with
  | none => exact ⟨e, s.remarks, he, rfl, by simp [setMember]⟩
  | some x =>
    exact ⟨e, .notice lockNumber p.number x :: s.remarks, he, rfl,
      by simp [setMember, remark]⟩

namespace Sound

/-- A step at the lock: one of the two is placed anew. -/
theorem place {s' : Contention} (p : Party) {m : Member}
    (hmembers : s'.members = (s.setMember p m).members)
    (hcrew : ({ s.crew with core := s'.core }.setMember p m).Consistent)
    (hp : s'.core.poisoned = false) (hholder : s'.holder.phase.Admits (s'.members .holder))
    (hrival : s'.rival.phase.Admits (s'.members .rival)) (hstory : s'.Story) : s'.Sound where
  crew := by
    have hc : s'.crew = { s.crew with core := s'.core }.setMember p m := by
      simp only [Contention.crew, Crew.setMember, hmembers, setMember]
    rwa [hc]
  unpoisoned := hp
  holder := hholder
  rival := hrival
  story := hstory

/-- One of the two is in a call as before. -/
theorem amid (h : s.Sound) (p : Party) {m : Member} {core : Core Party} {notices : List Remark}
    (hcrew : ({ s.crew with core := core }.setMember p m).Consistent) (hp : core.poisoned = false)
    (hn : notices.filterMap Remark.check? = s.remarks.filterMap Remark.check?)
    (hholder : s.holder.phase.Admits ((s.setMember p m).members .holder))
    (hrival : s.rival.phase.Admits ((s.setMember p m).members .rival)) :
    ({ s.setMember p m with core := core, remarks := notices } : Contention).Sound :=
  place (s := s) p rfl hcrew hp hholder hrival
    { h.story with passed := hn.trans h.story.passed }

theorem holder_outside (h : s.Sound) (hin : s.core.inside = some .rival) :
    s.holder.phase ≠ .holding ∧ s.holder.phase ≠ .releasing := by
  have hadm := h.holder
  constructor
  · intro hp
    rw [hp] at hadm
    have := h.crew.inside_of_admits (t := Party.holder) hadm
    simp_all [Contention.crew]
  · intro hp
    rw [hp] at hadm
    have := h.crew.inside_of_releasing (t := Party.holder) hadm
    simp_all [Contention.crew]

/-- One case for each place of the holder. -/
theorem holderStep (h : s.Sound) {s' : Contention} (hs : s.holderStep = some s') : s'.Sound := by
  have hc := h.crew
  have hadm := h.holder
  have hst := h.story
  have hall := hst.allows
  have hpassed := hst.passed
  cases hpl : s.holder with
  | starting =>
    rw [hpl] at hadm hall hpassed
    obtain ⟨m, hm, hm'⟩ := Phase.Admits.start_free false hadm
    simp only [Contention.holderStep, hpl, start?, hm, Option.map_some, Option.some.injEq] at hs
    subst hs
    exact place (s := s) .holder rfl (hc.start (t := Party.holder) hm) h.unpoisoned hm' h.rival
      { hst with allows := hall, passed := hpassed }
  | acquiring =>
    rw [hpl] at hadm hall hpassed
    simp only [Contention.holderStep, hpl] at hs
    obtain ⟨x, hx, hs⟩ := Option.bind_eq_some_iff.mp hs
    obtain ⟨e, notices, he, hn, rfl⟩ := advance?_eq hx
    have hcrew := hc.advance (t := Party.holder) he
    have hunborn : s.rival = .unborn := by
      cases hr : s.rival <;> simp_all [HolderPlace.Allows, RivalPlace.stage]
    obtain ⟨hp, ⟨ha, hm⟩ | ⟨ha, hm, -⟩ | ⟨ha, -, hpoll⟩⟩ :=
      hc.advance_acquiring (t := Party.holder) h.unpoisoned hadm he
    · simp only [ha, Option.some.injEq] at hs
      subst hs
      exact h.amid .holder hcrew hp hn (hpl ▸ hm) h.rival
    · simp only [ha, judged, show clean .acquired = true from rfl, if_true,
        Option.some.injEq] at hs
      subst hs
      have hrival := h.rival
      rw [hunborn] at hrival
      exact place (s := s) .holder rfl hcrew hp hm hrival
        (hst.onward ⟨by rw [hunborn]; rfl, rfl, rfl, rfl, rfl, rfl, rfl, rfl⟩
          (show 1 ≤ 1 ∧ 1 ≤ 6 by decide) trivial (hn.trans hpassed))
    · cases hpoll
  | awaitingTry =>
    rw [hpl] at hadm hall hpassed
    simp only [Contention.holderStep, hpl] at hs
    split at hs
    case isFalse => cases hs
    case isTrue htried =>
      rw [hst.tried, decide_eq_true_eq] at htried
      have hblock := hst.wouldBlock (Nat.le_of_succ_le htried)
      cases hs
      refine ⟨hc, h.unpoisoned, hadm, h.rival, { hst with
        allows := ⟨htried, hall.2⟩
        passed := ?_ }⟩
      simp only [check, remark, hblock]
      exact congrArg (_ :: ·) hpassed
  | awaitingWord =>
    rw [hpl] at hadm hall hpassed
    simp only [Contention.holderStep, hpl] at hs
    split at hs
    case isFalse => cases hs
    case isTrue hword =>
      rw [hst.announced, decide_eq_true_eq] at hword
      cases hs
      exact ⟨hc, h.unpoisoned, hadm, h.rival,
        { hst with allows := Nat.le_antisymm hall.2 hword, passed := hpassed }⟩
  | watching =>
    rw [hpl] at hadm hall hpassed
    obtain ⟨m, hm, hm'⟩ := Phase.Admits.start_release hadm
    simp only [Contention.holderStep, hpl, start?, check, remark, hm, Option.map_some,
      Option.some.injEq] at hs
    subst hs
    have hout : s.acquired = false := by
      rw [hst.acquired, show s.rival.stage = 6 from hall]
      rfl
    refine place (s := s) .holder rfl (hc.start (t := Party.holder) hm) h.unpoisoned hm' h.rival
      { hst with allows := ⟨rfl, hall⟩, passed := ?_ }
    simp only [setMember, hout, Bool.not_false]
    exact congrArg (_ :: ·) hpassed
  | releasing joins =>
    rw [hpl] at hadm hall hpassed
    simp only [Contention.holderStep, hpl] at hs
    obtain ⟨x, hx, hs⟩ := Option.map_eq_some_iff.mp hs
    obtain ⟨e, notices, he, hn, rfl⟩ := advance?_eq hx
    have hcrew := hc.advance (t := Party.holder) he
    obtain ⟨rfl, hall⟩ := hall
    obtain ⟨hp, ⟨ha, hm⟩ | ⟨ha, hm⟩⟩ :=
      hc.advance_releasing (t := Party.holder) h.unpoisoned hadm he
    · simp only [ha] at hs
      subst hs
      exact h.amid .holder hcrew hp hn (hpl ▸ hm) h.rival
    · simp only [ha, if_true] at hs
      subst hs
      refine place (s := s) .holder rfl hcrew hp hm h.rival
        { hst with allows := ?_, passed := hn.trans hpassed }
      exact ⟨Nat.le_of_eq hall.symm, Nat.le_trans (Nat.le_of_eq hall) (by decide)⟩
  | joining =>
    rw [hpl] at hadm hall hpassed
    simp only [Contention.holderStep, hpl] at hs
    split at hs
    case h_2 => cases hs
    case h_1 hr =>
      have hread : s.read = "x" := hst.read (by rw [hr]; decide)
      have hcheck : (s.acquired && decide (s.read = "x")) = true := by
        rw [hst.acquired, hr, hread]
        rfl
      rw [hcheck, Option.some.injEq] at hs
      subst hs
      exact ⟨hc, h.unpoisoned, hadm, h.rival, { hst with
        allows := show s.rival.stage = 10 by rw [hr]; rfl
        passed := congrArg (_ :: ·) hpassed }⟩
  | done => simp [Contention.holderStep, hpl] at hs

/-- Before the rival has tried, the holder is waiting for it. -/
theorem holder_eq_awaitingTry (h : s.Sound) (h₁ : 1 ≤ s.rival.stage) (h₅ : s.rival.stage < 5) :
    s.holder = .awaitingTry := by
  have hall := h.story.allows
  cases hpl : s.holder <;> rw [hpl] at hall <;> simp only [HolderPlace.Allows] at hall <;> omega

/-- A rival inside the primitive has only waited for the holder to give the lock up. -/
theorem holder_eq_joining (h : s.Sound) (h₆ : s.rival.stage = 6)
    (hin : s.core.inside = some .rival) : s.holder = .joining := by
  have hall := h.story.allows
  have hout := h.holder_outside hin
  rw [h₆] at hall
  cases hpl : s.holder <;> rw [hpl] at hall hout <;>
    simp_all [HolderPlace.Allows, HolderPlace.phase]

/-- Once past the lock, the rival goes on while the holder waits for it to end. -/
theorem holder_eq_joining_of_past (h : s.Sound) (h₇ : 7 ≤ s.rival.stage)
    (h₉ : s.rival.stage ≤ 9) : s.holder = .joining := by
  have hall := h.story.allows
  cases hpl : s.holder <;> rw [hpl] at hall <;> simp only [HolderPlace.Allows] at hall <;> omega

/-- One case for each place of the rival. -/
theorem rivalStep (h : s.Sound) {s' : Contention} (hs : s.rivalStep = some s') : s'.Sound := by
  have hc := h.crew
  have hadm := h.rival
  have hst := h.story
  have hturned := hst.turned
  cases hpl : s.rival with
  | unborn => simp [Contention.rivalStep, hpl] at hs
  | starting =>
    have hstage : s.rival.stage = 1 := by rw [hpl]; rfl
    rw [hpl] at hadm
    have hhold := h.holder_eq_awaitingTry (by omega) (by omega)
    obtain ⟨m, hm, hm'⟩ := Phase.Admits.start_free true hadm
    simp only [Contention.rivalStep, hpl, start?, hm, Option.map_some, Option.some.injEq] at hs
    subst hs
    exact place (s := s) .rival rfl (hc.start (t := Party.rival) hm) h.unpoisoned h.holder hm'
      (hst.onward ⟨hstage, rfl, rfl, rfl, rfl, rfl, rfl, rfl⟩
        (hhold ▸ show 1 ≤ 2 ∧ 2 ≤ 6 by decide) trivial hst.passed)
  | trying =>
    have hstage : s.rival.stage = 2 := by rw [hpl]; rfl
    rw [hpl] at hadm
    have hhold := h.holder_eq_awaitingTry (by omega) (by omega)
    simp only [Contention.rivalStep, hpl] at hs
    obtain ⟨x, hx, hs⟩ := Option.map_eq_some_iff.mp hs
    obtain ⟨e, notices, he, hn, rfl⟩ := advance?_eq hx
    have hcrew := hc.advance (t := Party.rival) he
    obtain ⟨hp, ⟨ha, hm⟩ | ⟨-, -, hin⟩ | ⟨ha, hm, -⟩⟩ :=
      hc.advance_acquiring (t := Party.rival) h.unpoisoned hadm he
    · simp only [ha] at hs
      subst hs
      exact h.amid .rival hcrew hp hn h.holder (hpl ▸ hm)
    · exact absurd (hhold ▸ rfl) (h.holder_outside hin).1
    · simp only [ha] at hs
      subst hs
      exact place (s := s) .rival rfl hcrew hp h.holder hm
        (hst.onward ⟨hstage, rfl, rfl, rfl, rfl, rfl, rfl, rfl⟩
          (hhold ▸ show 1 ≤ 3 ∧ 3 ≤ 6 by decide) rfl (hn.trans hst.passed))
  | noting v =>
    have hstage : s.rival.stage = 3 := by rw [hpl]; rfl
    rw [hpl] at hadm hturned
    have hhold := h.holder_eq_awaitingTry (by omega) (by omega)
    obtain rfl : v = .wouldBlock := hturned
    simp only [Contention.rivalStep, hpl, Option.some.injEq] at hs
    subst hs
    exact ⟨hc, h.unpoisoned, h.holder, hadm,
      hst.onward ⟨hstage, rfl, rfl, rfl, rfl, rfl, rfl, rfl⟩
        (hhold ▸ show 1 ≤ 4 ∧ 4 ≤ 6 by decide) rfl hst.passed⟩
  | signalling kept =>
    have hstage : s.rival.stage = 4 := by rw [hpl]; rfl
    rw [hpl] at hadm hturned
    have hhold := h.holder_eq_awaitingTry (by omega) (by omega)
    simp only [Contention.rivalStep, hpl, Option.some.injEq] at hs
    subst hs
    exact ⟨hc, h.unpoisoned, h.holder, hadm,
      hst.onward ⟨hstage, rfl, rfl, rfl, rfl, rfl, rfl, rfl⟩
        (hhold ▸ show 1 ≤ 5 ∧ 5 ≤ 6 by decide) hturned hst.passed⟩
  | announcing kept =>
    have hstage : s.rival.stage = 5 := by rw [hpl]; rfl
    have hall := hst.allows
    rw [hpl] at hadm hturned hall
    obtain ⟨m, hm, hm'⟩ := Phase.Admits.start_free false hadm
    simp only [Contention.rivalStep, hpl, start?, hm, Option.map_some, Option.some.injEq] at hs
    subst hs
    have hallows : s.holder.Allows 6 := by
      cases hh : s.holder <;> rw [hh] at hall <;> simp_all [HolderPlace.Allows, RivalPlace.stage]
    exact place (s := s) .rival rfl (hc.start (t := Party.rival) hm) h.unpoisoned h.holder hm'
      (hst.onward ⟨hstage, rfl, rfl, rfl, rfl, rfl, rfl, rfl⟩ hallows hturned hst.passed)
  | locking kept =>
    have hstage : s.rival.stage = 6 := by rw [hpl]; rfl
    rw [hpl] at hadm hturned
    simp only [Contention.rivalStep, hpl] at hs
    obtain ⟨x, hx, hs⟩ := Option.bind_eq_some_iff.mp hs
    obtain ⟨e, notices, he, hn, rfl⟩ := advance?_eq hx
    have hcrew := hc.advance (t := Party.rival) he
    obtain ⟨hp, ⟨ha, hm⟩ | ⟨ha, hm, hin⟩ | ⟨ha, -, hpoll⟩⟩ :=
      hc.advance_acquiring (t := Party.rival) h.unpoisoned hadm he
    · simp only [ha, Option.some.injEq] at hs
      subst hs
      exact h.amid .rival hcrew hp hn h.holder (hpl ▸ hm)
    · simp only [ha, settled, show clean .acquired = true from rfl, if_true,
        Option.some.injEq] at hs
      subst hs
      have hhold := h.holder_eq_joining hstage hin
      exact place (s := s) .rival rfl hcrew hp h.holder hm
        (hst.onward ⟨hstage, rfl, rfl, rfl, rfl, rfl, rfl, rfl⟩
          (hhold ▸ show 6 ≤ 7 ∧ 7 ≤ 10 by decide) hturned (hn.trans hst.passed))
    · cases hpoll
  | reading kept =>
    have hstage : s.rival.stage = 7 := by rw [hpl]; rfl
    rw [hpl] at hadm hturned
    have hhold := h.holder_eq_joining_of_past (by omega) (by omega)
    simp only [Contention.rivalStep, hpl, Option.some.injEq] at hs
    subst hs
    exact ⟨hc, h.unpoisoned, h.holder, hadm,
      hst.onward ⟨hstage, rfl, rfl, rfl, rfl, rfl, rfl, rfl⟩
        (hhold ▸ show 6 ≤ 8 ∧ 8 ≤ 10 by decide) hturned hst.passed⟩
  | confirming kept =>
    have hstage : s.rival.stage = 8 := by rw [hpl]; rfl
    rw [hpl] at hadm hturned
    have hhold := h.holder_eq_joining_of_past (by omega) (by omega)
    obtain ⟨m, hm, hm'⟩ := Phase.Admits.start_release hadm
    simp only [Contention.rivalStep, hpl, start?, hm, Option.map_some, Option.some.injEq] at hs
    subst hs
    exact place (s := s) .rival rfl (hc.start (t := Party.rival) hm) h.unpoisoned h.holder hm'
      (hst.onward ⟨hstage, rfl, rfl, rfl, rfl, rfl, rfl, rfl⟩
        (hhold ▸ show 6 ≤ 9 ∧ 9 ≤ 10 by decide) hturned hst.passed)
  | releasing kept =>
    have hstage : s.rival.stage = 9 := by rw [hpl]; rfl
    rw [hpl] at hadm hturned
    have hhold := h.holder_eq_joining_of_past (by omega) (by omega)
    obtain rfl : kept = false := hturned
    simp only [Contention.rivalStep, hpl] at hs
    obtain ⟨x, hx, hs⟩ := Option.bind_eq_some_iff.mp hs
    obtain ⟨e, notices, he, hn, rfl⟩ := advance?_eq hx
    have hcrew := hc.advance (t := Party.rival) he
    obtain ⟨hp, ⟨ha, hm⟩ | ⟨ha, hm⟩⟩ :=
      hc.advance_releasing (t := Party.rival) h.unpoisoned hadm he
    · simp only [ha, Option.some.injEq] at hs
      subst hs
      exact h.amid .rival hcrew hp hn h.holder (hpl ▸ hm)
    · simp only [ha, Bool.false_eq_true, if_false, Option.some.injEq] at hs
      subst hs
      exact place (s := s) .rival rfl hcrew hp h.holder hm
        (hst.onward ⟨hstage, rfl, rfl, rfl, rfl, rfl, rfl, rfl⟩
          (hhold ▸ show 6 ≤ 10 ∧ 10 ≤ 10 by decide) trivial (hn.trans hst.passed))
  | done => simp [Contention.rivalStep, hpl] at hs

theorem step (h : s.Sound) {p : Party} {s' : Contention} (hs : s.step p = some s') : s'.Sound :=
  match p with
  | .holder => h.holderStep hs
  | .rival => h.rivalStep hs

theorem inside_ne_rival (h : s.Sound) (hp : s.rival.phase = .free) :
    s.core.inside ≠ some .rival := by
  have hadm := h.rival
  rw [hp] at hadm
  exact fun hin => (h.crew.inside_iff Party.rival).mp hin hadm.standing_free

theorem inside_ne_holder (h : s.Sound) (hp : s.holder.phase = .free) :
    s.core.inside ≠ some .holder := by
  have hadm := h.holder
  rw [hp] at hadm
  exact fun hin => (h.crew.inside_iff Party.holder).mp hin hadm.standing_free

/-- The rival waits for nothing but the lock. -/
theorem rivalStep_isSome (h : s.Sound) (hpos : 1 ≤ s.rival.stage) (hend : s.rival.stage < 10)
    (hfree : s.rival.stage = 6 → s.core.inside ≠ some .holder) : s.rivalStep.isSome := by
  have hc := h.crew
  have hadm := h.rival
  cases hpl : s.rival with
  | unborn => simp [hpl, RivalPlace.stage] at hpos
  | done => simp [hpl, RivalPlace.stage] at hend
  | starting =>
    rw [hpl] at hadm
    obtain ⟨m, hm, -⟩ := Phase.Admits.start_free true hadm
    simp [Contention.rivalStep, hpl, start?, hm]
  | trying =>
    rw [hpl] at hadm
    have hsome : ((s.members .rival).advance? .rival s.core).isSome :=
      hc.advance?_isSome_of_polling (t := Party.rival) hadm
    simpa [Contention.rivalStep, hpl, advance?] using hsome
  | noting v => simp [Contention.rivalStep, hpl]
  | signalling kept => simp [Contention.rivalStep, hpl]
  | announcing kept =>
    rw [hpl] at hadm
    obtain ⟨m, hm, -⟩ := Phase.Admits.start_free false hadm
    simp [Contention.rivalStep, hpl, start?, hm]
  | locking kept =>
    rw [hpl] at hadm
    have hfree' : ∀ u, s.core.inside = some u → u = .rival := fun u hu => by
      cases u with
      | holder => exact absurd hu (hfree (by rw [hpl]; rfl))
      | rival => rfl
    have hs : (s.members .rival).stage = .calling (.acquire false) hadm.choose :=
      congrArg Member.stage hadm.choose_spec
    obtain ⟨e, he⟩ := Option.isSome_iff_exists.mp
      (hc.advance?_isSome (t := Party.rival) hs hfree')
    replace he : (s.members .rival).advance? .rival s.core = some e := he
    obtain ⟨-, ⟨ha, -⟩ | ⟨ha, -⟩ | ⟨-, -, hpoll⟩⟩ :=
      hc.advance_acquiring (t := Party.rival) h.unpoisoned hadm he
    · simp [Contention.rivalStep, hpl, advance?, he, ha]
    · simp [Contention.rivalStep, hpl, advance?, he, ha, settled,
        show clean .acquired = true from rfl]
    · cases hpoll
  | reading kept => simp [Contention.rivalStep, hpl]
  | confirming kept =>
    rw [hpl] at hadm
    obtain ⟨m, hm, -⟩ := Phase.Admits.start_release hadm
    simp [Contention.rivalStep, hpl, start?, hm]
  | releasing kept =>
    obtain rfl : kept = false := by have := h.story.turned; rwa [hpl] at this
    rw [hpl] at hadm
    have hin := hc.inside_of_releasing (t := Party.rival) hadm
    have hs : (s.members .rival).stage = .calling (.release false) hadm.choose :=
      congrArg Member.stage hadm.choose_spec.2
    obtain ⟨e, he⟩ := Option.isSome_iff_exists.mp
      (hc.advance?_isSome (t := Party.rival) hs fun u hu => by simp_all)
    replace he : (s.members .rival).advance? .rival s.core = some e := he
    obtain ⟨-, ⟨ha, -⟩ | ⟨ha, -⟩⟩ :=
      hc.advance_releasing (t := Party.rival) h.unpoisoned hadm he <;>
    simp [Contention.rivalStep, hpl, advance?, he, ha]

/-- One of the two can always go on, up to the end of the holder. -/
theorem exists_step (h : s.Sound) (hover : s.isOver = false) : ∃ p, (s.step p).isSome := by
  have hc := h.crew
  have hadm := h.holder
  have hst := h.story
  have hall := hst.allows
  cases hpl : s.holder with
  | starting =>
    rw [hpl] at hadm
    obtain ⟨m, hm, -⟩ := Phase.Admits.start_free false hadm
    exact ⟨.holder, by simp [Contention.step, Contention.holderStep, hpl, start?, hm]⟩
  | acquiring =>
    rw [hpl] at hadm hall
    have hunborn : s.rival = .unborn := by
      cases hr : s.rival <;> simp_all [HolderPlace.Allows, RivalPlace.stage]
    have hfree : ∀ u, s.core.inside = some u → u = .holder := fun u hu => by
      cases u with
      | holder => rfl
      | rival => exact absurd hu (h.inside_ne_rival (by rw [hunborn]; rfl))
    have hs : (s.members .holder).stage = .calling (.acquire false) hadm.choose :=
      congrArg Member.stage hadm.choose_spec
    obtain ⟨e, he⟩ := Option.isSome_iff_exists.mp
      (hc.advance?_isSome (t := Party.holder) hs hfree)
    replace he : (s.members .holder).advance? .holder s.core = some e := he
    refine ⟨.holder, ?_⟩
    obtain ⟨-, ⟨ha, -⟩ | ⟨ha, -⟩ | ⟨-, -, hpoll⟩⟩ :=
      hc.advance_acquiring (t := Party.holder) h.unpoisoned hadm he
    · simp [Contention.step, Contention.holderStep, hpl, advance?, he, ha]
    · simp [Contention.step, Contention.holderStep, hpl, advance?, he, ha, judged,
        show clean .acquired = true from rfl]
    · cases hpoll
  | awaitingTry =>
    rw [hpl] at hall
    cases ht : s.tried with
    | true => exact ⟨.holder, by simp [Contention.step, Contention.holderStep, hpl, ht]⟩
    | false =>
      have hlt : s.rival.stage < 5 := by simpa [hst.tried] using ht
      exact ⟨.rival, h.rivalStep_isSome hall.1 (by omega) (by omega)⟩
  | awaitingWord =>
    rw [hpl] at hall
    cases ht : s.announced with
    | true => exact ⟨.holder, by simp [Contention.step, Contention.holderStep, hpl, ht]⟩
    | false =>
      have hlt : s.rival.stage < 6 := by simpa [hst.announced] using ht
      exact ⟨.rival, h.rivalStep_isSome (Nat.le_trans (by decide) hall.1) (by omega) (by omega)⟩
  | watching =>
    rw [hpl] at hadm
    obtain ⟨m, hm, -⟩ := Phase.Admits.start_release hadm
    exact ⟨.holder,
      by simp [Contention.step, Contention.holderStep, hpl, start?, check, remark, hm]⟩
  | releasing joins =>
    rw [hpl] at hadm
    have hin := hc.inside_of_releasing (t := Party.holder) hadm
    have hs : (s.members .holder).stage = .calling (.release false) hadm.choose :=
      congrArg Member.stage hadm.choose_spec.2
    have hsome := hc.advance?_isSome (t := Party.holder) hs fun u hu => by simp_all
    replace hsome : ((s.members .holder).advance? .holder s.core).isSome := hsome
    exact ⟨.holder, by simpa [Contention.step, Contention.holderStep, hpl, advance?] using hsome⟩
  | joining =>
    rw [hpl] at hall
    by_cases hend : s.rival.stage < 10
    · have hout := h.inside_ne_holder (by rw [hpl]; rfl)
      exact ⟨.rival, h.rivalStep_isSome (Nat.le_trans (by decide) hall.1) hend fun _ => hout⟩
    · have hdone : s.rival = .done := by
        cases hr : s.rival <;> simp_all [RivalPlace.stage]
      exact ⟨.holder, by simp [Contention.step, Contention.holderStep, hpl, hdone]⟩
  | done => simp [isOver, hpl] at hover

end Sound

theorem Reachable.sound (h : s.Reachable) : s.Sound := by
  induction h with
  | initial => exact sound_initial
  | step _ hs ih => exact ih.step hs

/-- The order in which the tool itself runs the two is one of them. -/
theorem Reachable.run (fuel : Nat) (h : s.Reachable) : (run fuel s).Reachable := by
  induction fuel generalizing s with
  | zero => exact h
  | succ fuel ih =>
    simp only [Contention.run]
    cases hr : s.rivalStep with
    | some t => exact ih (h.step (p := .rival) hr)
    | none =>
      cases hh : s.holderStep with
      | some t => exact ih (h.step (p := .holder) hh)
      | none => exact h

/-- No check fails, and the holder does not end before it has made all of them. -/
theorem Sound.checks_report (h : s.Sound) : s.report.checks = s.holder.passed.reverse := by
  rw [← h.story.passed, ← List.filterMap_reverse]
  rfl

end Contention
end Stress
end CheckedLock
