import CheckedLock.Proofs.Guarded.Conservation

/-! Twin worlds differ in the contents of some slots only. A turn that names none of these slots
goes the same way in both, so twins stay twins. -/
namespace CheckedLock
namespace Guarded

variable {n : Nat}

/-- The slots that an operation names. -/
def Op.named : Op → List (Place n)
  | .mutex _ (.lock r) | .mutex _ (.tryLock r) => [.result r]
  | .mutex _ _ | .throw | .catch_ => []
  | .result r (.content g) | .result r (.intoValue g) => [.result r, .guard g]
  | .result r _ => [.result r]
  | .guard g (.move dest) | .guard g (.swap dest) => [.guard g, .guard dest]
  | .guard g _ => [.guard g]

namespace World

/-- The slots that a turn names; the last step of an acquisition fills the slot of its purpose. -/
def named (w : World n) : Turn n → List (Place n)
  | .start _ o => o.named
  | .wake _ => []
  | .finish t => ((w.threads t).arrived.bind (·.purpose.slot?)).toList.map .result

def AgreeAt (w v : World n) : Place n → Prop
  | .result r => v.results r = w.results r
  | .guard g => v.guards g = w.guards g
  | .hand _ => True

/-- The worlds are the same up to slots outside of `S`. -/
structure Twin (S : Set (Place n)) (w v : World n) : Prop where
  mutexes : v.mutexes = w.mutexes
  threads : v.threads = w.threads
  journal : v.journal = w.journal
  agree : ∀ p ∈ S, w.AgreeAt v p

/-- Twins with the same answer. -/
inductive Answered (S : Set (Place n)) {α : Type} : World n × α → World n × α → Prop
  | intro {w v : World n} {a : α} : Twin S w v → Answered S (w, a) (v, a)

/-- Two outcomes that end the process alike, or answer alike in twins. -/
inductive Alongside (S : Set (Place n)) {α : Type} :
    Except Panic (World n × α) → Except Panic (World n × α) → Prop
  | ok {y z : World n × α} : Answered S y z → Alongside S (.ok y) (.ok z)
  | error (x : Panic) : Alongside S (.error x) (.error x)

namespace Twin

variable {S : Set (Place n)} {w v : World n} {t : Fin n} {m : Name}

theorem refl (S : Set (Place n)) (w : World n) : Twin S w w :=
  ⟨rfl, rfl, rfl, fun p _ => by cases p <;> trivial⟩

theorem trans {u : World n} (h : Twin S u w) (k : Twin S w v) : Twin S u v where
  mutexes := k.mutexes.trans h.mutexes
  threads := k.threads.trans h.threads
  journal := k.journal.trans h.journal
  agree p hp := by
    have hu := h.agree p hp
    have hv := k.agree p hp
    cases p with
    | result r => exact Eq.trans hv hu
    | guard g => exact Eq.trans hv hu
    | hand u => trivial

theorem history_eq (h : Twin S w v) : v.history = w.history := by simp [history, h.journal]

variable (h : Twin S w v)
include h

theorem inFlight_eq (t : Fin n) : v.inFlight t = w.inFlight t := by simp [inFlight, h.threads]

theorem depth_eq (t : Fin n) : v.depth t = w.depth t := by simp [depth, h.inFlight_eq]

theorem named_eq (k : Turn n) : v.named k = w.named k := by
  cases k <;> simp [named, h.threads]

theorem isResting_eq (t : Fin n) : v.isResting t = w.isResting t := by
  simp [isResting, h.threads]

theorem valueOf_eq : v.valueOf = w.valueOf := by
  funext g
  simp [valueOf, h.mutexes]

theorem display_eq : v.display = w.display := by
  funext g
  simp [display, h.valueOf_eq]

theorem ask_eq (r : Request) : v.ask t m r = w.ask t m r := by simp [ask, h.mutexes]

theorem results_eq {r : Name} (hr : .result r ∈ S) : v.results r = w.results r := h.agree _ hr

theorem guards_eq {g : Name} (hg : .guard g ∈ S) : v.guards g = w.guards g := h.agree _ hg

theorem slotHolds_eq {g : Name} (hg : .guard g ∈ S) : v.slotHolds g = w.slotHolds g := by
  simp [slotHolds, h.guards_eq hg]

theorem note {e e' : Event n} (he : e' = e) : Twin S (w.note e) (v.note e') :=
  ⟨h.mutexes, h.threads, by simp [World.note, h.journal, he], h.agree⟩

theorem noteAll (seen : List Notice) : Twin S (w.noteAll m t seen) (v.noteAll m t seen) := by
  induction seen generalizing w v with
  | nil => exact h
  | cons x seen ih => exact ih (h.note rfl)

theorem setMutex (m : Name) (x : Mutex n) : Twin S (w.setMutex m x) (v.setMutex m x) :=
  ⟨by simp [World.setMutex, h.mutexes], h.threads, h.journal, h.agree⟩

theorem setThread (t : Fin n) {x y : ThreadState} (hxy : y = x) :
    Twin S (w.setThread t x) (v.setThread t y) :=
  ⟨h.mutexes, by simp [World.setThread, h.threads, hxy], h.journal, h.agree⟩

theorem setResult (r : Name) (x : Option (Slot n (Acquisition Guard))) :
    Twin S (w.setResult r x) (v.setResult r x) := by
  refine ⟨h.mutexes, h.threads, h.journal, fun p hp => ?_⟩
  have hold := h.agree p hp
  cases p with
  | result k =>
    by_cases hk : k = r
    · subst hk; simp [AgreeAt]
    · simpa [AgreeAt, setResult_ne _ _ hk] using hold
  | guard g => exact hold
  | hand u => trivial

theorem setGuard (g : Name) (x : Option (Slot n Guard)) :
    Twin S (w.setGuard g x) (v.setGuard g x) := by
  refine ⟨h.mutexes, h.threads, h.journal, fun p hp => ?_⟩
  have hold := h.agree p hp
  cases p with
  | result r => exact hold
  | guard k =>
    by_cases hk : k = g
    · subst hk; simp [AgreeAt]
    · simpa [AgreeAt, setGuard_ne _ _ hk] using hold
  | hand u => trivial

theorem throw (t : Fin n) : Twin S (w.throw t) (v.throw t) :=
  h.setThread t (by rw [h.threads])

theorem catch_ (t : Fin n) : Twin S (w.catch_ t) (v.catch_ t) :=
  h.setThread t (by rw [h.threads])

/-- A release looks at no slot. -/
theorem release (t : Fin n) (g : Guard) : Twin S (w.release t g) (v.release t g) := by
  unfold World.release unwinds
  rw [h.mutexes, h.depth_eq, h.inFlight_eq]
  split
  · exact h
  split
  · exact h
  split
  · exact ((h.setMutex _ _).noteAll _).note rfl
  · exact h

theorem releaseResult (t : Fin n) (a : Acquisition Guard) :
    Twin S (w.releaseResult t a) (v.releaseResult t a) := by
  unfold World.releaseResult
  split
  · exact h.release t _
  · exact h

theorem storeResult {r : Name} (hr : .result r ∈ S) (a : Acquisition Guard) :
    Twin S (w.storeResult t r a) (v.storeResult t r a) := by
  unfold World.storeResult
  rw [h.results_eq hr]
  split
  · exact h.setResult _ _
  · exact (h.releaseResult _ _).setResult _ _

theorem storeGuard {g : Name} (hg : .guard g ∈ S) (x : Guard) :
    Twin S (w.storeGuard t g x) (v.storeGuard t g x) := by
  unfold World.storeGuard
  rw [h.guards_eq hg]
  split
  · exact h.setGuard _ _
  · exact (h.release _ _).setGuard _ _

theorem moveGuard {g dest : Name} (hd : .guard dest ∈ S) (s : Slot n Guard) :
    Twin S (w.moveGuard g dest s) (v.moveGuard g dest s) := by
  unfold World.moveGuard
  split
  · exact h
  · exact (h.setGuard _ _).storeGuard hd _

theorem swapGuards {g dest : Name} {other : Slot n Guard} (ho : w.guards dest = some other)
    (hd : .guard dest ∈ S) (s : Slot n Guard) :
    Twin S (w.swapGuards g dest s) (v.swapGuards g dest s) := by
  rw [swapGuards_eq s ho, swapGuards_eq s ((h.guards_eq hd).trans ho)]
  exact (h.setGuard _ _).setGuard _ _

theorem writeThrough (g : Guard) (p : Payload) :
    Answered S (w.writeThrough g p) (v.writeThrough g p) := by
  unfold World.writeThrough
  rw [h.mutexes]
  split
  · exact .intro h
  split
  · exact .intro (h.setMutex _ _)
  · exact .intro h

theorem arrive (m : Name) (x : Mutex n) (p : Purpose) (c : Core.Course (Fin n)) :
    Twin S (w.arrive t m x p c) (v.arrive t m x p c) := by
  unfold World.arrive
  split
  · next core u seen =>
    have hseen := (h.setMutex m { x with core := core }).noteAll (m := m) (t := t) seen
    have hnoted := hseen.note (congrArg (Event.attempted m t u) (h.inFlight_eq t))
    refine hnoted.setThread t ?_
    rw [hnoted.threads, hnoted.depth_eq]
  · exact h
  · next core u seen =>
    have hnoted := ((h.setMutex m { x with core := core }).noteAll (m := m) (t := t) seen).note
      (e := .suspended m t) rfl
    refine hnoted.setThread t ?_
    rw [hnoted.threads]

theorem enter (polling : Bool) (p : Purpose) :
    Answered S (w.enter t m polling p) (v.enter t m polling p) := by
  unfold World.enter
  rw [h.mutexes]
  split
  · exact .intro h
  · exact .intro (h.arrive _ _ _ _)

theorem conclude (x : Mutex n) (a : Arrival) (ha : ∀ r, a.purpose.slot? = some r → .result r ∈ S) :
    Answered S (w.conclude t x a) (v.conclude t x a) := by
  cases hp : a.purpose with
  | keep r =>
    simp only [World.conclude, hp]
    exact .intro (h.storeResult (ha r (by rw [hp]; rfl)) _)
  | takeValue =>
    simp only [World.conclude, hp]
    split
    · exact .intro ((h.setMutex _ _).release _ _)
    · exact .intro h
  | encode =>
    simp only [World.conclude, hp]
    split
    · exact .intro (h.release _ _)
    · exact .intro h
  | decode d =>
    simp only [World.conclude, hp]
    split
    · unfold World.decodeInto
      split
      · exact .intro ((h.setMutex _ _).release _ _)
      · exact .intro (((h.throw t).release _ _).catch_ t)
    · exact .intro h

theorem finish (ht : ∀ p ∈ w.named (.finish t), p ∈ S) :
    Answered S (w.finish t) (v.finish t) := by
  unfold World.finish
  rw [h.mutexes, h.threads]
  split
  · exact .intro h
  next a ha =>
  split
  · exact .intro h
  · refine (h.setThread t rfl).conclude _ a fun r hr => ht _ ?_
    simp [named, ha, hr]

theorem onResult {r : Name} {s : Slot n (Acquisition Guard)} {o : ResultOp}
    (hn : ∀ p ∈ (Op.result r o).named, p ∈ S) :
    Alongside S (w.onResult r s o) (v.onResult r s o) := by
  have same : ∀ a : Reply, Alongside S (.ok (w, a)) (.ok (v, a)) := fun a => .ok (.intro h)
  have unpacked : ∀ (g : Name) (e : Except Misuse Guard), .guard g ∈ S →
      Alongside S (.ok (w.unpack r g s e)) (.ok (v.unpack r g s e)) := fun g e hg => by
    cases e with
    | error m => exact same _
    | ok x => exact .ok (.intro ((h.setResult _ _).storeGuard hg _))
  have back : ∀ e : Except Panic (Acquisition Guard),
      Alongside S (e.map (w.putBack r s)) (e.map (v.putBack r s)) := fun e => by
    cases e with
    | error x => exact .error x
    | ok a => exact .ok (.intro (h.setResult _ _))
  cases o with
  | status => exact same _
  | error => exact same _
  | read =>
    simp only [World.onResult, h.valueOf_eq]
    exact same _
  | write p =>
    simp only [World.onResult]
    split
    · exact same _
    · exact .ok (h.writeThrough _ p)
  | content g => exact unpacked g _ (hn _ (by simp [Op.named]))
  | intoValue g => exact unpacked g _ (hn _ (by simp [Op.named]))
  | ignorePoison => exact back (.ok _)
  | panicIfPoison => exact back _
  | apply policy => exact back _
  | drop => exact .ok (.intro ((h.releaseResult _ _).setResult _ _))

theorem onGuard {g : Name} {s : Slot n Guard} {o : GuardOp}
    (hn : ∀ p ∈ (Op.guard g o).named, p ∈ S) :
    Alongside S (w.onGuard g s o) (v.onGuard g s o) := by
  have same : ∀ a : Reply, Alongside S (.ok (w, a)) (.ok (v, a)) := fun a => .ok (.intro h)
  cases o with
  | holds => exact same _
  | release => exact .ok (.intro ((h.release _ _).setGuard _ _))
  | read | size =>
    simp only [World.onGuard, h.valueOf_eq]
    exact same _
  | format width =>
    simp only [World.onGuard, h.display_eq]
    exact same _
  | write p => exact .ok (h.writeThrough _ p)
  | log =>
    simp only [World.onGuard, h.display_eq]
    exact .ok (.intro (h.note rfl))
  | panic =>
    simp only [World.onGuard, h.display_eq]
    exact .error _
  | move dest =>
    have hg : .guard g ∈ S := hn _ (by simp [Op.named])
    have hd : .guard dest ∈ S := hn _ (by simp [Op.named])
    have hmove := h.moveGuard (g := g) hd s
    simp only [World.onGuard, hmove.slotHolds_eq hg, hmove.slotHolds_eq hd]
    exact .ok (.intro hmove)
  | swap dest =>
    have hd : .guard dest ∈ S := hn _ (by simp [Op.named])
    simp only [World.onGuard, h.guards_eq hd]
    split
    · exact same _
    · next other ho => exact .ok (.intro (h.swapGuards ho hd s))
  | drop => exact .ok (.intro ((h.release _ _).setGuard _ _))

theorem start {o : Op} (hn : ∀ p ∈ o.named, p ∈ S) :
    Alongside S (w.start t o) (v.start t o) := by
  have answered : ∀ {e e' : Except Panic (World n × Reply)}, Alongside S e e' →
      Alongside S (e.map fun y => (y.1, some y.2)) (e'.map fun y => (y.1, some y.2)) := by
    rintro _ _ (⟨⟨hy⟩⟩ | x)
    · exact .ok (.intro hy)
    · exact .error x
  cases o with
  | throw => exact .ok (.intro (h.throw t))
  | catch_ => exact .ok (.intro (h.catch_ t))
  | result r o =>
    have hr : .result r ∈ S := hn _ (by cases o <;> simp [Op.named])
    simp only [World.start, h.results_eq hr]
    split
    · exact .ok (.intro h)
    · exact answered (h.onResult hn)
  | guard g o =>
    have hg : .guard g ∈ S := hn _ (by cases o <;> simp [Op.named])
    simp only [World.start, h.guards_eq hg]
    split
    · exact .ok (.intro h)
    · exact answered (h.onGuard hn)
  | mutex m o =>
    cases o with
    | create p => exact .ok (.intro (h.setMutex _ _))
    | lockedByMe | isPoisoned =>
      simp only [World.start, onMutex, h.ask_eq]
      exact .ok (.intro h)
    | lock | tryLock | intoInner | toJson | fromJson => exact .ok (h.enter _ _)

theorem wake {y : World n} (hy : w.wake? t = some y) : ∃ z, v.wake? t = some z ∧ Twin S y z := by
  unfold World.wake? at hy ⊢
  rw [h.mutexes, h.threads]
  split at hy
  · cases hy
  split at hy
  · cases hy
  split at hy
  · cases hy
  · obtain rfl := Option.some.inj hy
    exact ⟨_, rfl, (h.setThread t rfl).arrive _ _ _ _⟩

/-- A turn that names slots of `S` only goes the same way in both worlds. -/
theorem turn {k : Turn n} {y : World n} {reply : Option Reply} (hn : ∀ p ∈ w.named k, p ∈ S)
    (hy : w.turn k = some (y, reply)) : ∃ z, v.turn k = some (z, reply) ∧ Twin S y z := by
  cases k with
  | start t o =>
    have hboth := h.start (t := t) hn
    simp only [World.turn, h.isResting_eq] at hy ⊢
    generalize w.start t o = e at hy hboth
    generalize v.start t o = e' at hboth
    split at hy
    · next hrest =>
      rw [if_pos hrest]
      obtain ⟨⟨htwin⟩⟩ | x := hboth
      · obtain ⟨rfl, rfl⟩ := Prod.mk.inj (Option.some.inj hy)
        exact ⟨_, rfl, htwin⟩
      · cases hy
    · cases hy
  | wake t =>
    obtain ⟨y', hy', he⟩ := Option.map_eq_some_iff.mp hy
    obtain ⟨rfl, rfl⟩ := Prod.mk.inj he
    obtain ⟨z, hz, htwin⟩ := h.wake hy'
    exact ⟨z, by simp [World.turn, hz], htwin⟩
  | finish t =>
    simp only [World.turn, h.threads] at hy ⊢
    split at hy
    · next ha =>
      have hboth := h.finish hn
      rw [if_pos ha]
      generalize w.finish t = e at hy hboth
      generalize v.finish t = e' at hboth
      obtain ⟨htwin⟩ := hboth
      obtain ⟨rfl, rfl⟩ := Prod.mk.inj (Option.some.inj hy)
      exact ⟨_, rfl, htwin⟩
    · cases hy

theorem allows {k : Turn n} (hn : ∀ p ∈ w.named k, p ∈ S) (hk : w.Allows k) : v.Allows k := by
  cases k with
  | wake t => trivial
  | finish t => trivial
  | start t o =>
    have hr : ∀ r, .result r ∈ (Op.named o : List (Place n)) → v.results r = w.results r :=
      fun r hr => h.results_eq (hn _ hr)
    have hg : ∀ g, .guard g ∈ (Op.named o : List (Place n)) → v.guards g = w.guards g :=
      fun g hg => h.guards_eq (hn _ hg)
    cases o with
    | throw => trivial
    | catch_ => trivial
    | mutex m o =>
      cases o <;> simp_all [Allows, Permits, Op.named, h.mutexes, h.threads]
    | result r o => cases o <;> simp_all [Allows, Permits, Op.named]
    | guard g o => cases o <;> simp_all [Allows, Permits, Op.named]

end Twin
end World
end Guarded
end CheckedLock
