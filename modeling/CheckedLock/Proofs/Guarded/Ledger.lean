import Mathlib.Logic.Equiv.Basic
import Mathlib.Data.List.Nodup
import CheckedLock.Proofs.Guarded.History

/-! Books on who holds what. An entry says that the guard at a place holds a mutex for a thread,
with the number of exceptions recorded at the acquisition. Guards change places, are given up and
come from acquisitions; books that agree with the history of the locks go on doing so. -/
namespace CheckedLock
namespace Guarded

variable {n : Nat}

/-- Where a guard can be; in the hand of a thread that has not acted on its verdict yet. -/
inductive Place (n : Nat)
  | result (r : Name)
  | guard (g : Name)
  | hand (t : Fin n)
  deriving DecidableEq

structure Hold (n : Nat) where
  thread : Fin n
  mutex : Name
  depth : Nat

@[ext] structure Ledger (n : Nat) where
  hold : Place n → Option (Hold n)
  core : Name → Option (Core (Fin n))
  inFlight : Fin n → List Nat
  history : List (Deed n)

namespace Ledger

def put (l : Ledger n) (p : Place n) (h : Option (Hold n)) : Ledger n :=
  { l with hold := Function.update l.hold p h }

def move (l : Ledger n) (p q : Place n) : Ledger n := (l.put p none).put q (l.hold p)

def swap (l : Ledger n) (p q : Place n) : Ledger n := { l with hold := l.hold ∘ Equiv.swap p q }

/-- The mutex of an entry is released; the entry stays where it is. -/
def close (l : Ledger n) (h : Hold n) : Ledger n :=
  match l.core h.mutex with
  | none => l
  | some c => { l with
      core := Function.update l.core h.mutex
        (some (c.freed (decide (h.depth < (l.inFlight h.thread).length))))
      history := .released h.mutex h.thread (l.inFlight h.thread) :: l.history }

def closes (l : Ledger n) : Option (Hold n) → Ledger n
  | none => l
  | some h => l.close h

/-- What a place holds is given up. -/
def surrender (l : Ledger n) (p : Place n) : Ledger n := (l.closes (l.hold p)).put p none

/-- Thread `t` acquires `m`, whose core is `c`. -/
def take (l : Ledger n) (t : Fin n) (m : Name) (c : Core (Fin n)) : Ledger n where
  hold := Function.update l.hold (.hand t) (some ⟨t, m, (l.inFlight t).length⟩)
  core := Function.update l.core m (some (c.takenBy t))
  inFlight := l.inFlight
  history := .acquired m t c.grant (l.inFlight t) :: l.history

def create (l : Ledger n) (m : Name) : Ledger n :=
  { l with core := Function.update l.core m (some {}) }

/-- Other exceptions are in flight on a thread. -/
def fly (l : Ledger n) (t : Fin n) (F : List Nat) : Ledger n :=
  { l with inFlight := Function.update l.inFlight t F }

@[simp] theorem core_put (l : Ledger n) (p : Place n) (h : Option (Hold n)) :
    (l.put p h).core = l.core := rfl

@[simp] theorem history_put (l : Ledger n) (p : Place n) (h : Option (Hold n)) :
    (l.put p h).history = l.history := rfl

/-- A move to an empty place. -/
theorem move_eq_swap {l : Ledger n} {p q : Place n} (hq : l.hold q = none) :
    l.move p q = l.swap p q := by
  ext1
  · funext x
    by_cases hxq : x = q
    · simp [move, swap, put, hxq]
    · by_cases hxp : x = p
      · subst hxp
        simp [move, swap, put, hxq, hq]
      · simp [move, swap, put, hxq, hxp, Equiv.swap_apply_of_ne_of_ne]
  all_goals rfl

theorem put_of_eq {l : Ledger n} {p : Place n} {h : Option (Hold n)} (hp : l.hold p = h) :
    l.put p h = l := by
  subst hp
  simp [put]

@[simp] theorem put_put (l : Ledger n) (p : Place n) (h k : Option (Hold n)) :
    (l.put p h).put p k = l.put p k := by simp [put]

theorem put_comm (l : Ledger n) {p q : Place n} (hpq : p ≠ q) (h k : Option (Hold n)) :
    (l.put p h).put q k = (l.put q k).put p h := by
  simp only [put]
  rw [Function.update_comm hpq]

@[simp] theorem hold_put_self (l : Ledger n) (p : Place n) (h : Option (Hold n)) :
    (l.put p h).hold p = h := by simp [put]

theorem hold_put_of_ne (l : Ledger n) {p q : Place n} (hq : q ≠ p) (h : Option (Hold n)) :
    (l.put p h).hold q = l.hold q := by simp [put, hq]

@[simp] theorem hold_closes (l : Ledger n) (h : Option (Hold n)) : (l.closes h).hold = l.hold := by
  cases h with
  | none => rfl
  | some h => simp only [closes, close]; split <;> rfl

theorem closes_put (l : Ledger n) (h : Option (Hold n)) (p : Place n) (k : Option (Hold n)) :
    (l.put p k).closes h = (l.closes h).put p k := by
  cases h with
  | none => rfl
  | some h => simp only [closes, close, put]; split <;> rfl

theorem surrender_of_none {l : Ledger n} {p : Place n} (hp : l.hold p = none) :
    l.surrender p = l := by simp [surrender, hp, closes, put_of_eq]

theorem surrender_of_some {l : Ledger n} {p : Place n} {h : Hold n} (hp : l.hold p = some h) :
    l.surrender p = (l.close h).put p none := by simp [surrender, hp, closes]

@[simp] theorem hold_surrender_self (l : Ledger n) (p : Place n) :
    (l.surrender p).hold p = none := by simp [surrender]

theorem hold_surrender_of_ne (l : Ledger n) {p q : Place n} (hq : q ≠ p) :
    (l.surrender p).hold q = l.hold q := by simp [surrender, hold_put_of_ne _ hq]

theorem surrender_put (l : Ledger n) {p q : Place n} (hpq : p ≠ q) (k : Option (Hold n)) :
    (l.put p k).surrender q = (l.surrender q).put p k := by
  simp only [surrender, hold_put_of_ne _ hpq.symm, closes_put]
  exact put_comm _ hpq _ _

/-- The books agree with the history. -/
structure Sound (l : Ledger n) : Prop where
  lawful : Lawful l.history
  core_eq : ∀ {m c}, l.core m = some c → c = coreAfter m l.history
  known : ∀ d ∈ l.history, l.core d.mutex ≠ none
  /-- An entry stands for the current acquisition of its mutex. -/
  current_of_hold : ∀ {p h}, l.hold p = some h →
    ∃ before, current h.mutex l.history = some (h.thread, before) ∧ before.length = h.depth
  hold_of_current : ∀ {m a}, current m l.history = some a → ∃ p h, l.hold p = some h ∧ h.mutex = m
  unique : ∀ {p q h k}, l.hold p = some h → l.hold q = some k → h.mutex = k.mutex → p = q
  nodup : ∀ t, (l.inFlight t).Nodup
  history_nodup : ∀ d ∈ l.history, d.inFlight.Nodup

/-- Books without entries. -/
def blank (n : Nat) : Ledger n := ⟨fun _ => none, fun _ => none, fun _ => [], []⟩

theorem sound_blank : (blank n).Sound := by
  constructor <;> simp [blank, Lawful, current]

namespace Sound

variable {l : Ledger n}

theorem exists_core (hl : l.Sound) {p : Place n} {h : Hold n} (hp : l.hold p = some h) :
    ∃ c, l.core h.mutex = some c := by
  obtain ⟨before, hc, _⟩ := hl.current_of_hold hp
  obtain ⟨later, v, earlier, he, _⟩ := exists_acquired_of_current hc
  exact Option.ne_none_iff_exists'.mp
    (hl.known (.acquired h.mutex h.thread v before) (by simp [he]))

theorem current_eq_none (hl : l.Sound) {m : Name} {c : Core (Fin n)} (hm : l.core m = some c)
    (hfree : c.inside = none) : current m l.history = none := by
  rw [hl.core_eq hm] at hfree
  simpa [coreAfter] using hfree

theorem swap (hl : l.Sound) (p q : Place n) : (l.swap p q).Sound where
  lawful := hl.lawful
  core_eq := hl.core_eq
  known := hl.known
  current_of_hold hx := hl.current_of_hold hx
  hold_of_current hc := by
    obtain ⟨x, h, hx, hm⟩ := hl.hold_of_current hc
    exact ⟨Equiv.swap p q x, h, by simpa [Ledger.swap] using hx, hm⟩
  unique hx hy hm := (Equiv.swap p q).injective (hl.unique hx hy hm)
  nodup := hl.nodup
  history_nodup := hl.history_nodup

theorem move (hl : l.Sound) {p q : Place n} (hq : l.hold q = none) : (l.move p q).Sound := by
  rw [move_eq_swap hq]
  exact hl.swap p q

theorem surrender (hl : l.Sound) (p : Place n) : (l.surrender p).Sound := by
  cases hp : l.hold p with
  | none => rwa [surrender_of_none hp]
  | some h =>
    obtain ⟨c, hc⟩ := hl.exists_core hp
    obtain ⟨before, hcur, hlen⟩ := hl.current_of_hold hp
    have hlate : isLate h.mutex l.history (l.inFlight h.thread) =
        decide (h.depth < (l.inFlight h.thread).length) := by simp [isLate, hcur, hlen]
    -- an entry elsewhere is on another mutex
    have hother : ∀ {q k}, q ≠ p → l.hold q = some k → h.mutex ≠ k.mutex :=
      fun hq hk he => hq (hl.unique hk hp he.symm)
    rw [surrender_of_some hp]
    simp only [close, hc]
    constructor
    case lawful => exact ⟨⟨before, hcur⟩, hl.lawful⟩
    case core_eq =>
      intro m d hd
      simp only [core_put, Function.update_apply] at hd
      rw [history_put]
      split at hd
      · next hm =>
        subst hm
        obtain rfl := Option.some.inj hd
        rw [coreAfter_released_self, hlate, hl.core_eq hc]
      · next hm =>
        rw [coreAfter_released_ne (Ne.symm hm)]
        exact hl.core_eq hd
    case known =>
      intro d hd
      simp only [put, Function.update_apply]
      split
      · simp
      · next hm =>
        rcases List.mem_cons.mp hd with rfl | hd
        · exact absurd rfl hm
        · exact hl.known d hd
    case current_of_hold =>
      intro q k hk
      simp only [put, Function.update_apply] at hk
      split at hk
      · cases hk
      · next hq =>
        have hne := hother hq hk
        simpa [put, current, hne] using hl.current_of_hold hk
    case hold_of_current =>
      intro m a ha
      simp only [put, current] at ha
      split at ha
      · cases ha
      · next hm =>
        obtain ⟨q, k, hk, hkm⟩ := hl.hold_of_current ha
        have hq : q ≠ p := by
          rintro rfl
          obtain rfl := Option.some.inj (hp.symm.trans hk)
          exact hm hkm
        exact ⟨q, k, by simpa [put, hq] using hk, hkm⟩
    case unique =>
      intro x y a b hx hy hm
      simp only [put, Function.update_apply] at hx hy
      split at hx <;> split at hy <;> first | contradiction | exact hl.unique hx hy hm
    case nodup => exact hl.nodup
    case history_nodup =>
      intro d hd
      rcases List.mem_cons.mp hd with rfl | hd
      · exact hl.nodup h.thread
      · exact hl.history_nodup d hd

theorem take (hl : l.Sound) {t : Fin n} {m : Name} {c : Core (Fin n)} (hm : l.core m = some c)
    (hfree : c.inside = none) (ht : l.hold (.hand t) = none) : (l.take t m c).Sound := by
  have hcur := hl.current_eq_none hm hfree
  -- nobody has an entry on a free mutex
  have hother : ∀ {q k}, l.hold q = some k → m ≠ k.mutex := by
    rintro q k hk rfl
    obtain ⟨before, hc, _⟩ := hl.current_of_hold hk
    simp [hcur] at hc
  constructor
  case lawful =>
    refine ⟨hcur, ?_, hl.lawful⟩
    rw [← hl.core_eq hm]
  case core_eq =>
    intro k d hd
    simp only [Ledger.take, Function.update_apply] at hd
    split at hd
    · next hk =>
      subst hk
      obtain rfl := Option.some.inj hd
      rw [Ledger.take, coreAfter_acquired_self, hl.core_eq hm]
    · next hk =>
      rw [Ledger.take, coreAfter_acquired_ne (Ne.symm hk)]
      exact hl.core_eq hd
  case known =>
    intro d hd
    simp only [Ledger.take, Function.update_apply]
    split
    · simp
    · next hk =>
      rcases List.mem_cons.mp hd with rfl | hd
      · exact absurd rfl hk
      · exact hl.known d hd
  case current_of_hold =>
    intro q k hk
    simp only [Ledger.take, Function.update_apply] at hk
    split at hk
    · obtain rfl := Option.some.inj hk
      exact ⟨l.inFlight t, by simp [Ledger.take, current], rfl⟩
    · simpa [Ledger.take, current, hother hk] using hl.current_of_hold hk
  case hold_of_current =>
    intro k a ha
    simp only [Ledger.take, current] at ha
    split at ha
    · next hk =>
      exact ⟨.hand t, ⟨t, m, (l.inFlight t).length⟩, by simp [Ledger.take], hk⟩
    · obtain ⟨q, e, he, hem⟩ := hl.hold_of_current ha
      have hq : q ≠ .hand t := by rintro rfl; simp [ht] at he
      exact ⟨q, e, by simpa [Ledger.take, hq] using he, hem⟩
  case unique =>
    intro x y a b hx hy hab
    simp only [Ledger.take, Function.update_apply] at hx hy
    split at hx <;> split at hy
    · simp_all
    · obtain rfl := Option.some.inj hx
      exact absurd hab (hother hy)
    · obtain rfl := Option.some.inj hy
      exact absurd hab.symm (hother hx)
    · exact hl.unique hx hy hab
  case nodup => exact hl.nodup
  case history_nodup =>
    intro d hd
    rcases List.mem_cons.mp hd with rfl | hd
    · exact hl.nodup t
    · exact hl.history_nodup d hd

theorem create (hl : l.Sound) {m : Name} (hm : l.core m = none) : (l.create m).Sound := by
  have hnew : ∀ d ∈ l.history, d.mutex ≠ m := by
    rintro d hd rfl
    exact hl.known d hd hm
  refine ⟨hl.lawful, ?_, ?_, hl.current_of_hold, hl.hold_of_current, hl.unique, hl.nodup,
    hl.history_nodup⟩
  · intro k c hc
    simp only [Ledger.create, Function.update_apply] at hc
    split at hc
    · next hk =>
      subst hk
      obtain rfl := Option.some.inj hc
      exact (coreAfter_of_forall_ne hnew).symm
    · exact hl.core_eq hc
  · intro d hd
    simpa [Ledger.create, Function.update_apply, hnew d hd] using hl.known d hd

theorem fly (hl : l.Sound) {F : List Nat} (hF : F.Nodup) (t : Fin n) : (l.fly t F).Sound := by
  refine ⟨hl.lawful, hl.core_eq, hl.known, hl.current_of_hold, hl.hold_of_current, hl.unique, ?_,
    hl.history_nodup⟩
  intro u
  by_cases hu : u = t
  · subst hu
    simpa [Ledger.fly] using hF
  · simpa [Ledger.fly, hu] using hl.nodup u

end Sound

end Ledger
end Guarded
end CheckedLock
