import CheckedLock.Proofs.Guarded.Books

/-! What an operation reaches, and that it depends on nothing else: in a world that is the same
there, whatever it is elsewhere, the operation answers the same, makes the same changes there, and
leaves the rest alone. -/
namespace CheckedLock
namespace Guarded

variable {n : Nat}

/-- What can be touched by a step, apart from the state of a thread. -/
inductive Cell
  | mutex (m : Name)
  | result (r : Name)
  | guard (g : Name)
  deriving DecidableEq, Repr

/-- The mutex that is locked by the guard. -/
def Guard.lockCells (g : Guard) : List Cell := (g.lock.map .mutex).toList

/-- The mutex whose value the guard opens. -/
def Guard.valueCells (g : Guard) : List Cell := (g.target.map .mutex).toList

/-- The mutex and the slots that an operation names. -/
def Op.cells : Op → List Cell
  | .mutex m (.lock r) | .mutex m (.tryLock r) => [.mutex m, .result r]
  | .mutex m _ => [.mutex m]
  | .result r (.content g) | .result r (.intoValue g) => [.result r, .guard g]
  | .result r _ => [.result r]
  | .guard g (.move dest) | .guard g (.swap dest) => [.guard g, .guard dest]
  | .guard g _ => [.guard g]
  | .throw | .catch_ => []

/-- A part of a world: some of its cells, and the states of some threads. -/
structure Region (n : Nat) where
  cells : List Cell
  threads : List (Fin n)

namespace World

/-- The mutex that is locked from a slot. -/
def lockedAt (w : World n) (p : Place n) : List Cell :=
  match w.guardAt p with
  | some s => s.held.lockCells
  | none => []

/-- The mutex that an operation on a result reaches through a guard. -/
def behindResult (w : World n) (r : Name) (s : Slot n (Acquisition Guard)) : ResultOp → List Cell
  | .status | .error | .ignorePoison | .panicIfPoison | .apply _ => []
  | .read | .write _ => match s.held.content with
    | .ok g => g.valueCells
    | .error _ => []
  | .content g => match s.held.content with
    | .ok _ => w.lockedAt (.guard g)
    | .error _ => []
  | .intoValue g => match s.held.intoValue with
    | .ok _ => w.lockedAt (.guard g)
    | .error _ => []
  | .drop => w.lockedAt (.result r)

/-- The mutex that an operation on a guard reaches through it, or through the one that it replaces.
-/
def behindGuard (w : World n) (g : Name) (s : Slot n Guard) : GuardOp → List Cell
  | .holds | .swap _ => []
  | .release | .drop => s.held.lockCells
  | .read | .size | .write _ | .format _ | .log | .panic => s.held.valueCells
  | .move dest => if g = dest then [] else w.lockedAt (.guard dest)

/-- What the first step of an operation reaches. The slot that it is to fill later is its own
already. -/
def startCells (w : World n) (o : Op) : List Cell :=
  o.cells ++ match o with
    | .mutex _ _ | .throw | .catch_ => []
    | .result r o => match w.results r with
      | some s => w.behindResult r s o
      | none => []
    | .guard g o => match w.guards g with
      | some s => w.behindGuard g s o
      | none => []

/-- What is reached when a thread acts on its verdict: the mutex, the slot that it fills, and the
mutex that the slot held before. -/
def finishCells (w : World n) (t : Fin n) : List Cell :=
  match (w.threads t).arrived with
  | none => []
  | some a => .mutex a.mutex :: match a.purpose.slot? with
    | some r => .result r :: w.lockedAt (.result r)
    | none => []

/-- The two worlds have the same there. -/
def SameAt (w v : World n) : Cell → Prop
  | .mutex m => v.mutexes m = w.mutexes m
  | .result r => v.results r = w.results r
  | .guard g => v.guards g = w.guards g

theorem SameAt.refl (w : World n) (c : Cell) : w.SameAt w c := by cases c <;> rfl

theorem SameAt.symm {w v : World n} {c : Cell} (h : w.SameAt v c) : v.SameAt w c := by
  cases c <;> exact Eq.symm h

theorem SameAt.trans {w v u : World n} {c : Cell} (h : w.SameAt v c) (h' : v.SameAt u c) :
    w.SameAt u c := by
  cases c <;> exact Eq.trans h' h

/-- `v` is as `w` on the region and as `z` elsewhere. Since `w` had the journal `j` and `v` had that
of `z`, the same has happened in both. -/
structure Mirrors (R : Region n) (j : List (Event n)) (z w v : World n) : Prop where
  inside : ∀ c ∈ R.cells, w.SameAt v c
  outside : ∀ c ∉ R.cells, z.SameAt v c
  mine : ∀ t ∈ R.threads, v.threads t = w.threads t
  others : ∀ t ∉ R.threads, v.threads t = z.threads t
  journal : ∃ es, w.journal = es ++ j ∧ v.journal = es ++ z.journal

/-- Mirrored worlds with the same answer. -/
inductive Echo (R : Region n) (j : List (Event n)) (z : World n) {α : Type} :
    World n × α → World n × α → Prop
  | intro {w v : World n} {a : α} : Mirrors R j z w v → Echo R j z (w, a) (v, a)

/-- Mirrored outcomes: the same panic, or the same answer in mirrored worlds. -/
inductive Echoes (R : Region n) (j : List (Event n)) (z : World n) {α : Type} :
    Except Panic (World n × α) → Except Panic (World n × α) → Prop
  | ok {x y : World n × α} : Echo R j z x y → Echoes R j z (.ok x) (.ok y)
  | error (p : Panic) : Echoes R j z (.error p) (.error p)

namespace Mirrors

variable {R : Region n} {j : List (Event n)} {z w v : World n} {t : Fin n} {m : Name}

theorem refl (R : Region n) (w : World n) : Mirrors R w.journal w w w :=
  ⟨fun c _ => .refl w c, fun c _ => .refl w c, fun _ _ => rfl, fun _ _ => rfl, [], rfl, rfl⟩

variable (h : Mirrors R j z w v)
include h

/-! ### Reading -/

theorem mutexes_eq (hm : .mutex m ∈ R.cells) : v.mutexes m = w.mutexes m := h.inside _ hm

theorem results_eq {r : Name} (hr : .result r ∈ R.cells) : v.results r = w.results r :=
  h.inside _ hr

theorem guards_eq {g : Name} (hg : .guard g ∈ R.cells) : v.guards g = w.guards g := h.inside _ hg

theorem inFlight_eq (ht : t ∈ R.threads) : v.inFlight t = w.inFlight t := by
  rw [inFlight, inFlight, h.mine t ht]

theorem depth_eq (ht : t ∈ R.threads) : v.depth t = w.depth t := by
  rw [depth, depth, h.inFlight_eq ht]

theorem ask_eq (hm : .mutex m ∈ R.cells) (q : Request) : v.ask t m q = w.ask t m q := by
  rw [ask, ask, h.mutexes_eq hm]

theorem valueOf_eq {g : Guard} (hg : g.valueCells ⊆ R.cells) : v.valueOf g = w.valueOf g := by
  unfold valueOf Guard.access
  cases hm : g.target with
  | none => rfl
  | some m =>
    have hc : .mutex m ∈ R.cells := hg (by simp [Guard.valueCells, hm])
    simp only [h.mutexes_eq hc]

theorem display_eq {g : Guard} (hg : g.valueCells ⊆ R.cells) : v.display g = w.display g := by
  rw [display, display, h.valueOf_eq hg]

theorem slotHolds_eq {g : Name} (hg : .guard g ∈ R.cells) : v.slotHolds g = w.slotHolds g := by
  rw [slotHolds, slotHolds, h.guards_eq hg]

/-! ### Single changes -/

theorem note (e : Event n) : Mirrors R j z (w.note e) (v.note e) := by
  obtain ⟨es, hw, hv⟩ := h.journal
  exact ⟨h.inside, h.outside, h.mine, h.others, e :: es, by simp [World.note, hw],
    by simp [World.note, hv]⟩

theorem noteAll (seen : List Notice) :
    Mirrors R j z (w.noteAll m t seen) (v.noteAll m t seen) := by
  induction seen generalizing w v with
  | nil => exact h
  | cons x seen ih => exact ih (h.note _)

theorem setMutex (hm : .mutex m ∈ R.cells) (x : Mutex n) :
    Mirrors R j z (w.setMutex m x) (v.setMutex m x) where
  inside c hc := by
    have hold := h.inside c hc
    cases c with
    | mutex k =>
      by_cases hk : k = m
      · subst hk; simp [SameAt]
      · simpa [SameAt, setMutex_ne _ _ hk] using hold
    | result _ | guard _ => exact hold
  outside c hc := by
    have hold := h.outside c hc
    cases c with
    | mutex k =>
      have hk : k ≠ m := fun hk => hc (hk ▸ hm)
      simpa [SameAt, setMutex_ne _ _ hk] using hold
    | result _ | guard _ => exact hold
  mine := h.mine
  others := h.others
  journal := h.journal

theorem setResult {r : Name} (hr : .result r ∈ R.cells)
    (x : Option (Slot n (Acquisition Guard))) :
    Mirrors R j z (w.setResult r x) (v.setResult r x) where
  inside c hc := by
    have hold := h.inside c hc
    cases c with
    | result k =>
      by_cases hk : k = r
      · subst hk; simp [SameAt]
      · simpa [SameAt, setResult_ne _ _ hk] using hold
    | mutex _ | guard _ => exact hold
  outside c hc := by
    have hold := h.outside c hc
    cases c with
    | result k =>
      have hk : k ≠ r := fun hk => hc (hk ▸ hr)
      simpa [SameAt, setResult_ne _ _ hk] using hold
    | mutex _ | guard _ => exact hold
  mine := h.mine
  others := h.others
  journal := h.journal

theorem setGuard {g : Name} (hg : .guard g ∈ R.cells) (x : Option (Slot n Guard)) :
    Mirrors R j z (w.setGuard g x) (v.setGuard g x) where
  inside c hc := by
    have hold := h.inside c hc
    cases c with
    | guard k =>
      by_cases hk : k = g
      · subst hk; simp [SameAt]
      · simpa [SameAt, setGuard_ne _ _ hk] using hold
    | mutex _ | result _ => exact hold
  outside c hc := by
    have hold := h.outside c hc
    cases c with
    | guard k =>
      have hk : k ≠ g := fun hk => hc (hk ▸ hg)
      simpa [SameAt, setGuard_ne _ _ hk] using hold
    | mutex _ | result _ => exact hold
  mine := h.mine
  others := h.others
  journal := h.journal

variable (ht : t ∈ R.threads)
include ht

theorem setThread {x y : ThreadState} (hxy : y = x) :
    Mirrors R j z (w.setThread t x) (v.setThread t y) where
  inside := h.inside
  outside := h.outside
  mine u hu := by
    subst hxy
    by_cases hut : u = t
    · subst hut; simp
    · simpa [setThread_ne _ _ hut] using h.mine u hu
  others u hu := by
    have hut : u ≠ t := fun hut => hu (hut ▸ ht)
    rw [setThread_ne _ _ hut]
    exact h.others u hu
  journal := h.journal

theorem throw : Mirrors R j z (w.throw t) (v.throw t) := h.setThread ht (by rw [h.mine t ht])

theorem catch_ : Mirrors R j z (w.catch_ t) (v.catch_ t) := h.setThread ht (by rw [h.mine t ht])

/-! ### Slots -/

/-- A release reaches the mutex that the guard locks. -/
theorem release {g : Guard} (hg : g.lockCells ⊆ R.cells) :
    Mirrors R j z (w.release t g) (v.release t g) := by
  unfold World.release unwinds
  cases hl : g.lock with
  | none => exact h
  | some m =>
    have hm : .mutex m ∈ R.cells := hg (by simp [Guard.lockCells, hl])
    simp only [h.mutexes_eq hm, h.depth_eq ht, h.inFlight_eq ht]
    split
    · exact h
    split
    · exact ((h.setMutex hm _).noteAll _).note _
    · exact h

theorem releaseResult {r : Name} {s : Slot n (Acquisition Guard)} (hs : w.results r = some s)
    (hg : w.lockedAt (.result r) ⊆ R.cells) :
    Mirrors R j z (w.releaseResult t s.held) (v.releaseResult t s.held) := by
  unfold World.releaseResult
  cases hi : s.held.inner with
  | failure e c => exact h
  | ok g =>
    refine h.release ht fun c hc => hg ?_
    simpa [lockedAt, guardAt, hs, Slot.guard?, Acquisition.payload?, hi] using hc

theorem storeResult {r : Name} (hr : .result r ∈ R.cells)
    (hg : w.lockedAt (.result r) ⊆ R.cells) (a : Acquisition Guard) :
    Mirrors R j z (w.storeResult t r a) (v.storeResult t r a) := by
  unfold World.storeResult
  rw [h.results_eq hr]
  cases hs : w.results r with
  | none => exact h.setResult hr _
  | some old => exact (h.releaseResult ht hs hg).setResult hr _

theorem storeGuard {g : Name} (hr : .guard g ∈ R.cells) (hg : w.lockedAt (.guard g) ⊆ R.cells)
    (x : Guard) : Mirrors R j z (w.storeGuard t g x) (v.storeGuard t g x) := by
  unfold World.storeGuard
  rw [h.guards_eq hr]
  cases hs : w.guards g with
  | none => exact h.setGuard hr _
  | some old =>
    refine (h.release ht fun c hc => hg ?_).setGuard hr _
    simpa [lockedAt, guardAt, hs] using hc

theorem moveGuard {g dest : Name} {s : Slot n Guard} (hg : .guard g ∈ R.cells)
    (hd : .guard dest ∈ R.cells) (hs : s.thread = t)
    (hl : g ≠ dest → w.lockedAt (.guard dest) ⊆ R.cells) :
    Mirrors R j z (w.moveGuard g dest s) (v.moveGuard g dest s) := by
  unfold World.moveGuard
  split
  · exact h
  · next hne =>
    refine hs ▸ (h.setGuard hg _).storeGuard (hs ▸ ht) hd ?_ _
    have hsame : (w.setGuard g (some { s with held := s.held.vacated })).lockedAt (.guard dest) =
        w.lockedAt (.guard dest) := by
      simp only [lockedAt, guardAt, setGuard_ne _ _ (Ne.symm hne)]
    exact hsame ▸ hl hne

omit ht in
/-- Two guards that change places release nothing. -/
theorem swapGuards {g dest : Name} {s other : Slot n Guard} (hg : .guard g ∈ R.cells)
    (hd : .guard dest ∈ R.cells) (ho : w.guards dest = some other) :
    Mirrors R j z (w.swapGuards g dest s) (v.swapGuards g dest s) := by
  rw [swapGuards_eq s ho, swapGuards_eq s ((h.guards_eq hd).trans ho)]
  exact (h.setGuard hg _).setGuard hd _

/-! ### Operations -/

omit ht in
theorem writeThrough {g : Guard} (hg : g.valueCells ⊆ R.cells) (p : Payload) :
    Echo R j z (w.writeThrough g p) (v.writeThrough g p) := by
  unfold World.writeThrough Guard.access
  cases hm : g.target with
  | none => exact .intro h
  | some m =>
    have hc : .mutex m ∈ R.cells := hg (by simp [Guard.valueCells, hm])
    simp only [h.mutexes_eq hc]
    split
    · exact .intro (h.setMutex hc _)
    · exact .intro h

theorem unpack {r g : Name} {s : Slot n (Acquisition Guard)} (e : Except Misuse Guard)
    (hs : s.thread = t) (hr : .result r ∈ R.cells) (hg : .guard g ∈ R.cells)
    (hl : ∀ x, e = .ok x → w.lockedAt (.guard g) ⊆ R.cells) :
    Echo R j z (w.unpack r g s e) (v.unpack r g s e) := by
  cases e with
  | error m => exact .intro h
  | ok x => exact .intro ((h.setResult hr _).storeGuard (hs ▸ ht) hg (hl x rfl) x)

theorem arrive (hm : .mutex m ∈ R.cells) (x : Mutex n) (p : Purpose) (c : Core.Course (Fin n)) :
    Mirrors R j z (w.arrive t m x p c) (v.arrive t m x p c) := by
  unfold World.arrive
  split
  · next core u seen =>
    have hnoted := ((h.setMutex hm { x with core := core }).noteAll (m := m) (t := t) seen).note
      (.attempted m t u (w.inFlight t))
    rw [h.inFlight_eq ht]
    exact hnoted.setThread ht (by rw [hnoted.mine t ht, hnoted.depth_eq ht])
  · exact h
  · next core u seen =>
    have hnoted := ((h.setMutex hm { x with core := core }).noteAll (m := m) (t := t) seen).note
      (.suspended m t)
    exact hnoted.setThread ht (by rw [hnoted.mine t ht])

theorem enter (hm : .mutex m ∈ R.cells) (polling : Bool) (p : Purpose) :
    Echo R j z (w.enter t m polling p) (v.enter t m polling p) := by
  unfold World.enter
  rw [h.mutexes_eq hm]
  split
  · exact .intro h
  · exact .intro (h.arrive ht hm _ _ _)

theorem conclude {a : Arrival} (x : Mutex n) (hm : .mutex a.mutex ∈ R.cells)
    (hr : ∀ r, a.purpose.slot? = some r →
      .result r ∈ R.cells ∧ w.lockedAt (.result r) ⊆ R.cells) :
    Echo R j z (w.conclude t x a) (v.conclude t x a) := by
  have hg : (Guard.holding a.mutex a.depth).lockCells ⊆ R.cells := by
    simpa [Guard.lockCells, Guard.holding] using hm
  cases hp : a.purpose with
  | keep r =>
    simp only [World.conclude, hp]
    obtain ⟨hc, hl⟩ := hr r (by rw [hp]; rfl)
    exact .intro (h.storeResult ht hc hl _)
  | takeValue =>
    simp only [World.conclude, hp]
    split
    · exact .intro ((h.setMutex hm _).release ht hg)
    · exact .intro h
  | encode =>
    simp only [World.conclude, hp]
    split
    · exact .intro (h.release ht hg)
    · exact .intro h
  | decode d =>
    simp only [World.conclude, hp]
    split
    · unfold World.decodeInto
      split
      · exact .intro ((h.setMutex hm _).release ht hg)
      · exact .intro (((h.throw ht).release ht hg).catch_ ht)
    · exact .intro h

theorem finish (hc : w.finishCells t ⊆ R.cells) : Echo R j z (w.finish t) (v.finish t) := by
  unfold World.finish
  unfold finishCells at hc
  rw [h.mine t ht]
  split
  · exact .intro h
  next a ha =>
  rw [ha] at hc
  have hm : .mutex a.mutex ∈ R.cells := hc List.mem_cons_self
  rw [h.mutexes_eq hm]
  split
  · exact .intro h
  · refine (h.setThread ht rfl).conclude ht _ hm fun r hr => ?_
    simp only [hr, List.cons_subset] at hc
    exact hc.2

theorem onResult {r : Name} {s : Slot n (Acquisition Guard)} {o : ResultOp}
    (hs : w.results r = some s) (hst : s.thread = t) (hn : (Op.result r o).cells ⊆ R.cells)
    (hc : w.behindResult r s o ⊆ R.cells) :
    Echoes R j z (w.onResult r s o) (v.onResult r s o) := by
  have hr : .result r ∈ R.cells := hn (by cases o <;> simp [Op.cells])
  have same : ∀ a : Reply, Echoes R j z (.ok (w, a)) (.ok (v, a)) := fun a => .ok (.intro h)
  have back : ∀ e : Except Panic (Acquisition Guard),
      Echoes R j z (e.map (w.putBack r s)) (e.map (v.putBack r s)) := fun e => by
    cases e with
    | error x => exact .error x
    | ok a => exact .ok (.intro (h.setResult hr _))
  cases o with
  | status | error => exact same _
  | read =>
    simp only [World.onResult]
    simp only [behindResult] at hc
    cases he : s.held.content with
    | error m => exact same _
    | ok g =>
      rw [he] at hc
      simp only [Except.bind, h.valueOf_eq hc]
      exact same _
  | write p =>
    simp only [World.onResult]
    simp only [behindResult] at hc
    cases he : s.held.content with
    | error m => exact same _
    | ok g =>
      rw [he] at hc
      exact .ok (h.writeThrough hc p)
  | content g | intoValue g =>
    simp only [behindResult] at hc
    have hg : .guard g ∈ R.cells := hn (by simp [Op.cells])
    exact .ok (h.unpack ht _ hst hr hg fun x hx => by simpa [hx] using hc)
  | ignorePoison => exact back (.ok _)
  | panicIfPoison => exact back _
  | apply policy => exact back _
  | drop =>
    subst hst
    exact .ok (.intro ((h.releaseResult ht hs hc).setResult hr _))

theorem onGuard {g : Name} {s : Slot n Guard} {o : GuardOp} (hst : s.thread = t)
    (hn : (Op.guard g o).cells ⊆ R.cells) (hc : w.behindGuard g s o ⊆ R.cells) :
    Echoes R j z (w.onGuard g s o) (v.onGuard g s o) := by
  have hg : .guard g ∈ R.cells := hn (by cases o <;> simp [Op.cells])
  have same : ∀ a : Reply, Echoes R j z (.ok (w, a)) (.ok (v, a)) := fun a => .ok (.intro h)
  subst hst
  cases o with
  | holds => exact same _
  | release => exact .ok (.intro ((h.release ht hc).setGuard hg _))
  | read | size =>
    simp only [World.onGuard, h.valueOf_eq hc]
    exact same _
  | format width =>
    simp only [World.onGuard, h.display_eq hc]
    exact same _
  | write p => exact .ok (h.writeThrough hc p)
  | log =>
    simp only [World.onGuard, h.display_eq hc]
    exact .ok (.intro (h.note _))
  | panic =>
    simp only [World.onGuard, h.display_eq hc]
    exact .error _
  | move dest =>
    have hd : .guard dest ∈ R.cells := hn (by simp [Op.cells])
    simp only [behindGuard] at hc
    have hmove := h.moveGuard ht hg hd (s := s) rfl fun hne => by simpa [hne] using hc
    simp only [World.onGuard, hmove.slotHolds_eq hg, hmove.slotHolds_eq hd]
    exact .ok (.intro hmove)
  | swap dest =>
    have hd : .guard dest ∈ R.cells := hn (by simp [Op.cells])
    simp only [World.onGuard, h.guards_eq hd]
    split
    · exact same _
    · next other ho => exact .ok (.intro (h.swapGuards hg hd ho))
  | drop => exact .ok (.intro ((h.release ht hc).setGuard hg _))

theorem start {o : Op} (hp : w.Permits t o) (hc : w.startCells o ⊆ R.cells) :
    Echoes R j z (w.start t o) (v.start t o) := by
  have answered : ∀ {e e' : Except Panic (World n × Reply)}, Echoes R j z e e' →
      Echoes R j z (e.map fun y => (y.1, some y.2)) (e'.map fun y => (y.1, some y.2)) := by
    rintro _ _ (⟨⟨hy⟩⟩ | x)
    · exact .ok (.intro hy)
    · exact .error x
  obtain ⟨hn, hb⟩ := List.append_subset.mp hc
  cases o with
  | throw => exact .ok (.intro (h.throw ht))
  | catch_ => exact .ok (.intro (h.catch_ ht))
  | result r o =>
    have hr : .result r ∈ R.cells := hn (by cases o <;> simp [Op.cells])
    simp only [World.start, h.results_eq hr]
    cases hs : w.results r with
    | none => exact .ok (.intro h)
    | some s =>
      simp only [hs] at hb
      have hst : s.thread = t := by cases o <;> simp_all [Permits, Mine]
      exact answered (h.onResult ht hs hst hn hb)
  | guard g o =>
    have hg : .guard g ∈ R.cells := hn (by cases o <;> simp [Op.cells])
    simp only [World.start, h.guards_eq hg]
    cases hs : w.guards g with
    | none => exact .ok (.intro h)
    | some s =>
      simp only [hs] at hb
      have hst : s.thread = t := by cases o <;> simp_all [Permits, Mine]
      exact answered (h.onGuard ht hst hn hb)
  | mutex m o =>
    have hm : .mutex m ∈ R.cells := hn (by cases o <;> simp [Op.cells])
    cases o with
    | create p => exact .ok (.intro (h.setMutex hm _))
    | lockedByMe | isPoisoned =>
      simp only [World.start, onMutex, h.ask_eq hm]
      exact .ok (.intro h)
    | lock | tryLock | intoInner | toJson | fromJson => exact .ok (h.enter ht hm _ _)

/-- A waiting thread looks at the mutex that it waits for. -/
theorem wake (hp : ∀ p, (w.threads t).pending = some p → .mutex p.mutex ∈ R.cells) :
    (w.wake? t = none ∧ v.wake? t = none) ∨
      ∃ x y, w.wake? t = some x ∧ v.wake? t = some y ∧ Mirrors R j z x y := by
  unfold World.wake?
  rw [h.mine t ht]
  cases hpend : (w.threads t).pending with
  | none => exact .inl ⟨rfl, rfl⟩
  | some p =>
    have hm := hp p hpend
    simp only [h.mutexes_eq hm]
    cases w.mutexes p.mutex with
    | none => exact .inl ⟨rfl, rfl⟩
    | some x =>
      dsimp only
      cases x.core.resume t p.point with
      | waiting _ _ _ => exact .inl ⟨rfl, rfl⟩
      | answered core a seen =>
        exact .inr ⟨_, _, rfl, rfl, (h.setThread ht rfl).arrive ht hm _ _ _⟩

end Mirrors
end World
end Guarded
end CheckedLock
