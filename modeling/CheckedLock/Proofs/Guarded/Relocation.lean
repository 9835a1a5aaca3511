import CheckedLock.Proofs.Guarded.Twin

/-! Relocation of guards. Moving guards to places that hold nothing, swapping them and clearing
marks on results changes places round and nothing else, and a lock is given up from its new place
as it would have been from the old one. A guard that a move replaces is released before it. -/
namespace CheckedLock
namespace Guarded

variable {n : Nat}

/-- The operations that give up what a slot holds. -/
inductive GivesUp : Place n → Op → Prop
  | release (g : Name) : GivesUp (.guard g) (.guard g .release)
  | dropGuard (g : Name) : GivesUp (.guard g) (.guard g .drop)
  | dropResult (r : Name) : GivesUp (.result r) (.result r .drop)

namespace World

/-- What only takes guards to other places, where nothing is held, or clears marks on results. -/
def Relocating (w : World n) : Op → Prop
  | .guard g (.move dest) => dest = g ∨ w.slotHolds dest = false
  | .guard _ (.swap _) => True
  | .result _ (.content g) | .result _ (.intoValue g) => w.slotHolds g = false
  | .result _ .ignorePoison | .result _ .panicIfPoison | .result _ (.apply _) => True
  | _ => False

/-- Where a finite sequence of relocating operations leads to. -/
inductive Relocates (w : World n) : World n → Prop
  | refl : Relocates w w
  | turn {v u : World n} {t : Fin n} {o : Op} {reply : Option Reply} :
    Relocates w v → v.Permits t o → v.Relocating o → v.turn (.start t o) = some (u, reply) →
    Relocates w u

/-- Runs whose turns name slots of `S` only; the latest turn first, with its answer. -/
inductive Follows (S : Set (Place n)) (w : World n) :
    List (Turn n × Option Reply) → World n → Prop
  | refl : Follows S w [] w
  | turn {x y : World n} {ks : List (Turn n × Option Reply)} {k : Turn n} {reply : Option Reply} :
    Follows S w ks x → x.Allows k → (∀ p ∈ x.named k, p ∈ S) → x.turn k = some (y, reply) →
    Follows S w ((k, reply) :: ks) y

/-- Each lock is given up in both worlds with the same effect, from whichever place it has. -/
def ReleaseAlike (x y : World n) : Prop :=
  ∀ {m t q p o o'}, x.Locks q m t → y.Locks p m t → GivesUp q o → GivesUp p o' →
    x.isResting t = true → ∃ x' y' r r', x.turn (.start t o) = some (x', r) ∧
      y.turn (.start t o') = some (y', r') ∧
      x'.history = .released m t (x.inFlight t) :: x.history ∧
      y'.mutexes = x'.mutexes ∧ y'.threads = x'.threads ∧ y'.journal = x'.journal

structure Relocatable (w : World n) : Prop where
  /-- Nothing happens to the locks; the guards that have one change places. -/
  carries : ∀ {v}, w.Relocates v → v.mutexes = w.mutexes ∧ v.threads = w.threads ∧
    v.journal = w.journal ∧ ∃ π : Equiv.Perm (Place n), v.ledger.hold = w.ledger.hold ∘ π
  /-- The relocated world follows the original one, as long as no other slot is named than those
  where the two agree. -/
  follows : ∀ {v S ks x}, w.Relocates v → (∀ p ∈ S, w.AgreeAt v p) → Follows S w ks x →
    ∃ y, Follows S v ks y ∧ Twin S x y ∧ x.ReleaseAlike y ∧
      ∀ h, (∃ q, x.ledger.hold q = some h) ↔ ∃ p, y.ledger.hold p = some h
  /-- To move a guard over another one that has a lock is to release that one first. -/
  displaces : ∀ {t g dest s other m v reply}, w.guards g = some s → w.guards dest = some other →
    other.held.lock = some m → g ≠ dest → w.Permits t (.guard g (.move dest)) →
    w.turn (.start t (.guard g (.move dest))) = some (v, reply) →
    ∃ u, w.turn (.start t (.guard dest .release)) = some (u, some (.flag true)) ∧
      u.Relocating (.guard g (.move dest)) ∧
      u.turn (.start t (.guard g (.move dest))) = some (v, reply) ∧
      v.history = .released m t (w.inFlight t) :: w.history ∧
      (∀ k ≠ m, v.mutexes k = w.mutexes k) ∧
      v.ledger.hold (.guard dest) = w.ledger.hold (.guard g) ∧ v.ledger.hold (.guard g) = none
  swaps : ∀ {t g dest s other v reply}, w.guards g = some s → w.guards dest = some other →
    w.turn (.start t (.guard g (.swap dest))) = some (v, reply) →
    v.guards g = some other ∧ v.guards dest = some s
  /-- A swap undoes itself. -/
  swaps_back : ∀ {t g dest v reply}, w.turn (.start t (.guard g (.swap dest))) = some (v, reply) →
    v.turn (.start t (.guard g (.swap dest))) = some (w, reply)

variable {w v : World n} {t : Fin n} {m : Name}

/-- What a first step does is what its turn does. -/
theorem turn_start_eq {o : Op} {answer : Option Reply} :
    w.turn (.start t o) = some (v, answer) ↔
      w.isResting t = true ∧ w.start t o = .ok (v, answer) := by
  cases hr : w.isResting t <;> cases hs : w.start t o <;>
    simp [World.turn, hr, hs, Except.toOption]

theorem turn_guard {g : Name} {s : Slot n Guard} {o : GuardOp} {answer : Option Reply}
    (hs : w.guards g = some s) : w.turn (.start t (.guard g o)) = some (v, answer) ↔
      w.isResting t = true ∧ ∃ reply, w.onGuard g s o = .ok (v, reply) ∧ some reply = answer := by
  rw [turn_start_eq]
  simp only [start, hs]
  cases w.onGuard g s o <;> simp [Except.map, Prod.ext_iff]

theorem turn_result {r : Name} {s : Slot n (Acquisition Guard)} {o : ResultOp}
    {answer : Option Reply} (hs : w.results r = some s) :
    w.turn (.start t (.result r o)) = some (v, answer) ↔
      w.isResting t = true ∧ ∃ reply, w.onResult r s o = .ok (v, reply) ∧ some reply = answer := by
  rw [turn_start_eq]
  simp only [start, hs]
  cases w.onResult r s o <;> simp [Except.map, Prod.ext_iff]

theorem setGuard_eq_self {g : Name} {x : Option (Slot n Guard)} (hx : w.guards g = x) :
    w.setGuard g x = w := by
  have hf : (fun k => if k = g then x else w.guards k) = w.guards := by
    funext k
    split
    · next hk => rw [hk, hx]
    · rfl
  simp only [setGuard, hf]

theorem noteAll_setGuard (g : Name) (x : Option (Slot n Guard)) (m : Name) (t : Fin n)
    (seen : List Notice) :
    (w.setGuard g x).noteAll m t seen = (w.noteAll m t seen).setGuard g x := by
  induction seen generalizing w with
  | nil => rfl
  | cons y seen ih => exact ih (w := w.note (.noticed m t y))

/-- A release looks at the guard that is released, not at the slots. -/
theorem release_setGuard (g : Name) (x : Option (Slot n Guard)) (t : Fin n) (y : Guard) :
    (w.setGuard g x).release t y = (w.release t y).setGuard g x := by
  cases hl : y.lock with
  | none => simp [release, hl]
  | some m =>
    cases hm : w.mutexes m with
    | none =>
      have hm' : (w.setGuard g x).mutexes m = none := hm
      simp [release, hl, hm, hm']
    | some z =>
      have hm' : (w.setGuard g x).mutexes m = some z := hm
      simp only [release, hl, hm, hm', Core.call_release]
      rw [show ∀ c, (w.setGuard g x).setMutex m c = (w.setMutex m c).setGuard g x from fun _ => rfl,
        noteAll_setGuard]
      rfl

/-- What a release does depends on the lock and on the number on record. -/
theorem release_congr {g g' : Guard} (hl : g'.lock = g.lock) (hd : g'.depth = g.depth) :
    w.release t g' = w.release t g := by simp only [release, unwinds, hl, hd]

theorem noteAll_mutexes (m : Name) (t : Fin n) (seen : List Notice) :
    (w.noteAll m t seen).mutexes = w.mutexes := by
  induction seen generalizing w with
  | nil => rfl
  | cons y seen ih => exact ih (w := w.note (.noticed m t y))

theorem release_mutexes_ne {g : Guard} {k : Name} (hk : g.lock ≠ some k) :
    (w.release t g).mutexes k = w.mutexes k := by
  cases hl : g.lock with
  | none => simp [release, hl]
  | some m =>
    have hne : k ≠ m := fun h => hk (h ▸ hl)
    cases hm : w.mutexes m with
    | none => simp [release, hl, hm]
    | some x =>
      simp [release, hl, hm, Core.call_release, note, noteAll_mutexes, setMutex_ne _ _ hne]

theorem release_of_unlocked {g : Guard} (hl : g.lock = none) : w.release t g = w := by
  simp [release, hl]

/-- Over a slot that holds nothing there is nothing to release. -/
theorem storeGuard_of_not_holds {g : Name} (hg : w.slotHolds g = false) (x : Guard) :
    w.storeGuard t g x = w.setGuard g (some ⟨t, x⟩) := by
  cases hs : w.guards g with
  | none => simp [storeGuard, hs]
  | some s =>
    have hl : s.held.lock = none := by simpa [slotHolds, hs, Guard.holds] using hg
    simp [storeGuard, hs, release_of_unlocked hl]

theorem hold_of_not_holds {g : Name} (hg : w.slotHolds g = false) :
    w.ledger.hold (.guard g) = none := by
  cases hs : w.guards g with
  | none => simp [ledger, guardAt, hs]
  | some s =>
    have hl : s.held.lock = none := by simpa [slotHolds, hs, Guard.holds] using hg
    simp [hold_guard hs, Slot.hold?, hl]

/-- Over a place that holds nothing a move is an exchange. -/
theorem hold_move_of_not_holds {p q : Place n} (hq : w.ledger.hold q = none) :
    ((w.ledger.surrender q).move p q).hold = w.ledger.hold ∘ Equiv.swap p q := by
  rw [Ledger.surrender_of_none hq, Ledger.move_eq_swap hq]
  rfl

/-- The slots may differ. -/
theorem Twin.of_slots (hm : v.mutexes = w.mutexes) (ht : v.threads = w.threads)
    (hj : v.journal = w.journal) : Twin ∅ w v := ⟨hm, ht, hj, nofun⟩

theorem Twin.weaken {S : Set (Place n)} (h : Twin S w v) : Twin ∅ w v :=
  .of_slots h.mutexes h.threads h.journal

/-- The guards that have a lock change places; nothing else happens. -/
def Rearranges (w v : World n) : Prop :=
  Twin ∅ w v ∧ ∃ π : Equiv.Perm (Place n), v.ledger.hold = w.ledger.hold ∘ π

theorem Rearranges.refl (w : World n) : w.Rearranges w := ⟨.refl ∅ w, Equiv.refl _, rfl⟩

theorem Rearranges.trans {u : World n} (h : u.Rearranges w) (k : w.Rearranges v) :
    u.Rearranges v := by
  obtain ⟨htwin, π, hπ⟩ := h
  obtain ⟨hnext, σ, hσ⟩ := k
  exact ⟨htwin.trans hnext, σ.trans π, by rw [hσ, hπ]; rfl⟩

theorem rearranges_unpack {r g : Name} {s : Slot n (Acquisition Guard)} {e : Except Misuse Guard}
    (hs : w.results r = some s) (hmine : Mine s.thread (w.guards g))
    (hfree : w.slotHolds g = false) (he : ∀ x, e = .ok x → s.held.inner = .ok x) :
    w.Rearranges (w.unpack r g s e).1 := by
  cases e with
  | error x => exact .refl w
  | ok x =>
    simp only [unpack]
    constructor
    · rw [storeGuard_of_not_holds (by simpa [slotHolds, setResult] using hfree)]
      exact .of_slots rfl rfl rfl
    · refine ⟨Equiv.swap (.result r) (.guard g), ?_⟩
      rw [ledger_unpack hs (he x rfl) hmine]
      exact hold_move_of_not_holds (hold_of_not_holds hfree)

theorem rearranges_putBack {r : Name} {s : Slot n (Acquisition Guard)} {a : Acquisition Guard}
    (hs : w.results r = some s) (ha : a.inner = s.held.inner) :
    w.Rearranges (w.putBack r s a).1 :=
  ⟨.of_slots rfl rfl rfl, Equiv.refl _, congrArg Ledger.hold (ledger_remark hs ha)⟩

theorem rearranges_moveGuard {g dest : Name} {s : Slot n Guard} (hs : w.guards g = some s)
    (hmine : Mine s.thread (w.guards dest)) (ho : dest = g ∨ w.slotHolds dest = false) :
    w.Rearranges (w.moveGuard g dest s) := by
  by_cases hne : g = dest
  · rw [moveGuard, if_pos hne]
    exact .refl w
  · have hfree : w.slotHolds dest = false := ho.resolve_left (Ne.symm hne)
    have hfree' : (w.takeGuard g s).slotHolds dest = false := by
      simpa [slotHolds, takeGuard, setGuard_ne _ _ (Ne.symm hne)] using hfree
    constructor
    · rw [moveGuard, if_neg hne, storeGuard_of_not_holds hfree']
      exact .of_slots rfl rfl rfl
    · refine ⟨Equiv.swap (.guard g) (.guard dest), ?_⟩
      rw [ledger_moveGuard hs hmine hne]
      exact hold_move_of_not_holds (hold_of_not_holds hfree)

theorem rearranges_swapGuards {g dest : Name} {s other : Slot n Guard} (hs : w.guards g = some s)
    (hd : w.guards dest = some other) : w.Rearranges (w.swapGuards g dest s) := by
  refine ⟨?_, Equiv.swap (.guard g) (.guard dest), ?_⟩
  · rw [swapGuards_eq s hd]
    exact .of_slots rfl rfl rfl
  · rw [ledger_swapGuards hs hd]
    rfl

/-- One relocating operation. -/
theorem relocating_turn {o : Op} {answer : Option Reply} (hp : w.Permits t o)
    (ho : w.Relocating o) (h : w.turn (.start t o) = some (v, answer)) : w.Rearranges v := by
  cases o with
  | throw | catch_ | mutex => exact ho.elim
  | result r o =>
    cases hs : w.results r with
    | none =>
      have h := (turn_start_eq.mp h).2
      simp only [start, hs] at h
      obtain ⟨rfl, -⟩ := Prod.mk.inj (Except.ok.inj h)
      exact .refl w
    | some s =>
      obtain ⟨-, reply, h, -⟩ := (turn_result hs).mp h
      have mine : ∀ {g : Name}, Mine t (w.results r) → Mine t (w.guards g) →
          Mine s.thread (w.guards g) := fun hr hg => by rwa [hr s hs]
      cases o with
      | content g =>
        obtain rfl := congrArg Prod.fst (Except.ok.inj h)
        exact rearranges_unpack hs (mine hp.1 hp.2) ho fun x => inner_of_content
      | intoValue g =>
        obtain rfl := congrArg Prod.fst (Except.ok.inj h)
        exact rearranges_unpack hs (mine hp.1 hp.2) ho fun x => inner_of_intoValue
      | ignorePoison =>
        obtain rfl := congrArg Prod.fst (Except.ok.inj h)
        exact rearranges_putBack hs rfl
      | panicIfPoison =>
        obtain ⟨a, ha, hb⟩ := except_map_eq_ok h
        obtain rfl := congrArg Prod.fst hb
        exact rearranges_putBack hs (inner_of_panicIfPoison ha)
      | apply policy =>
        obtain ⟨a, ha, hb⟩ := except_map_eq_ok h
        obtain rfl := congrArg Prod.fst hb
        exact rearranges_putBack hs (inner_of_apply ha)
      | status | error | read | write | drop => exact ho.elim
  | guard g o =>
    cases hs : w.guards g with
    | none =>
      have h := (turn_start_eq.mp h).2
      simp only [start, hs] at h
      obtain ⟨rfl, -⟩ := Prod.mk.inj (Except.ok.inj h)
      exact .refl w
    | some s =>
      obtain ⟨-, reply, h, -⟩ := (turn_guard hs).mp h
      cases o with
      | move dest =>
        obtain rfl := congrArg Prod.fst (Except.ok.inj h)
        have hmine : Mine s.thread (w.guards dest) := by
          rw [hp.1 s hs]
          exact hp.2
        exact rearranges_moveGuard hs hmine ho
      | swap dest =>
        have h := Except.ok.inj h
        cases hd : w.guards dest with
        | none =>
          simp only [hd] at h
          obtain ⟨rfl, -⟩ := Prod.mk.inj h
          exact .refl w
        | some other =>
          simp only [hd] at h
          obtain ⟨rfl, -⟩ := Prod.mk.inj h
          exact rearranges_swapGuards hs hd
      | holds | release | read | size | write | format | log | panic | drop => exact ho.elim

theorem Relocates.rearranges (h : w.Relocates v) : w.Rearranges v := by
  induction h with
  | refl => exact .refl w
  | turn _ hp ho ht ih => exact ih.trans (relocating_turn hp ho ht)

theorem Relocates.reachable (h : w.Relocates v) (hw : w.Reachable) : v.Reachable := by
  induction h with
  | refl => exact hw
  | turn _ hp _ ht ih => exact ih.turn (x := .start _ _) hp ht

theorem Follows.reachable {S : Set (Place n)} {ks : List (Turn n × Option Reply)}
    (h : Follows S w ks v) (hw : w.Reachable) : v.Reachable := by
  induction h with
  | refl => exact hw
  | turn _ ha _ ht ih => exact ih.turn ha ht

theorem Twin.follows {S : Set (Place n)} {ks : List (Turn n × Option Reply)} {x : World n}
    (h : Twin S w v) (hx : Follows S w ks x) : ∃ y, Follows S v ks y ∧ Twin S x y := by
  induction hx with
  | refl => exact ⟨v, .refl, h⟩
  | turn _ ha hn ht ih =>
    obtain ⟨y, hy, htwin⟩ := ih
    obtain ⟨z, hz, hnext⟩ := htwin.turn hn ht
    exact ⟨z, hy.turn (htwin.allows hn ha) (by rwa [htwin.named_eq]) hz, hnext⟩

/-- To give up a lock is to release the guard; the slot does not matter any more. -/
theorem turn_givesUp {q : Place n} {o : Op} {g : Guard} (ho : GivesUp q o)
    (hr : w.isResting t = true) (hq : w.guardAt q = some ⟨t, g⟩) :
    ∃ v r, w.turn (.start t o) = some (v, r) ∧ Twin ∅ (w.release t g) v := by
  cases ho with
  | release k =>
    exact ⟨_, _, (turn_guard hq).mpr ⟨hr, _, rfl, rfl⟩, .of_slots rfl rfl rfl⟩
  | dropGuard k =>
    exact ⟨_, _, (turn_guard hq).mpr ⟨hr, _, rfl, rfl⟩, .of_slots rfl rfl rfl⟩
  | dropResult r =>
    obtain ⟨s, hs, hm⟩ := Option.bind_eq_some_iff.mp hq
    obtain ⟨g', hpay, he⟩ := Option.map_eq_some_iff.mp hm
    obtain ⟨rfl, rfl⟩ := Slot.mk.inj he
    have hinner : s.held.inner = .ok g' := by
      cases hi : s.held.inner <;> simp_all [Acquisition.payload?]
    refine ⟨_, _, (turn_result hs).mpr ⟨hr, _, rfl, rfl⟩, ?_⟩
    simp only [discardResult, releaseResult, hinner]
    exact .of_slots rfl rfl rfl

theorem history_release {g : Guard} (hw : w.Orderly) {q : Place n}
    (hq : w.guardAt q = some ⟨t, g⟩) (hl : g.lock = some m) :
    (w.release t g).history = .released m t (w.inFlight t) :: w.history := by
  obtain ⟨x, hx⟩ := exists_mutex (hw.known_of_locks ⟨g, hq, hl⟩)
  have hledger := w.ledger_release t g
  have hhistory : (w.release t g).ledger.history =
      .released m t (w.inFlight t) :: w.ledger.history := by
    rw [hledger]
    simp [Slot.hold?, hl, Ledger.closes, Ledger.close, ledger_core hx]
    rfl
  exact hhistory

theorem hold_of_guardAt {g : Guard} {q : Place n} (hq : w.guardAt q = some ⟨t, g⟩)
    (hl : g.lock = some m) : w.ledger.hold q = some ⟨t, m, g.depth⟩ := by
  simp [ledger, hq, Slot.hold?, hl]

/-- Twins release each lock with the same effect, wherever its guard is. -/
theorem Twin.releaseAlike {S : Set (Place n)} (h : Twin S w v) (hw : w.Orderly) (hv : v.Orderly) :
    w.ReleaseAlike v := by
  intro m t q p o o' hq hp ho ho' hr
  obtain ⟨g, hg, hl⟩ := hq
  obtain ⟨g', hg', hl'⟩ := hp
  obtain ⟨before, hc, hlen⟩ := hw.sound.current_of_hold (hold_of_guardAt hg hl)
  obtain ⟨before', hc', hlen'⟩ := hv.sound.current_of_hold (hold_of_guardAt hg' hl')
  -- both guards stand for the latest acquisition of the one history
  have hsame : v.ledger.history = w.ledger.history := h.history_eq
  rw [hsame] at hc'
  obtain ⟨-, rfl⟩ := Prod.mk.inj (Option.some.inj (hc.symm.trans hc'))
  have hdepth : g'.depth = g.depth := hlen'.symm.trans hlen
  obtain ⟨x', r, hx', htx⟩ := turn_givesUp ho hr hg
  obtain ⟨y', r', hy', hty⟩ := turn_givesUp ho' (by rwa [h.isResting_eq]) hg'
  have hrel : Twin ∅ (w.release t g) (v.release t g') := by
    rw [release_congr (hl'.trans hl.symm) hdepth]
    exact (h.release t g).weaken
  have hall := hrel.trans hty
  refine ⟨x', y', r, r', hx', hy', ?_, ?_, ?_, ?_⟩
  · rw [htx.history_eq, history_release hw hg hl]
  · rw [hall.mutexes, htx.mutexes]
  · rw [hall.threads, htx.threads]
  · rw [hall.journal, htx.journal]

/-- Who holds what, and since which number of exceptions, is a matter of the history. -/
theorem Twin.hold_iff {S : Set (Place n)} (h : Twin S w v) (hw : w.Orderly) (hv : v.Orderly)
    (e : Hold n) : (∃ q, w.ledger.hold q = some e) ↔ ∃ p, v.ledger.hold p = some e := by
  have key : ∀ {a b : World n}, a.Orderly → b.Orderly → b.ledger.history = a.ledger.history →
      (∃ q, a.ledger.hold q = some e) → ∃ p, b.ledger.hold p = some e := by
    rintro a b ha hb hhist ⟨q, hq⟩
    obtain ⟨before, hc, hlen⟩ := ha.sound.current_of_hold hq
    rw [← hhist] at hc
    obtain ⟨p, k, hp, hm⟩ := hb.sound.hold_of_current hc
    obtain ⟨before', hc', hlen'⟩ := hb.sound.current_of_hold hp
    rw [hm] at hc'
    obtain ⟨ht, rfl⟩ := Prod.mk.inj (Option.some.inj (hc.symm.trans hc'))
    refine ⟨p, ?_⟩
    have hke : k = e := by
      cases k
      cases e
      simp_all
    rw [hp, hke]
  exact ⟨key hw hv h.history_eq, key hv hw h.history_eq.symm⟩

theorem swap_turn_eq {g dest : Name} {s other : Slot n Guard} {reply : Option Reply}
    (hs : w.guards g = some s) (ho : w.guards dest = some other)
    (h : w.turn (.start t (.guard g (.swap dest))) = some (v, reply)) :
    w.isResting t = true ∧ reply = some .done ∧
      v = (w.setGuard g (some other)).setGuard dest (some s) := by
  obtain ⟨hr, a, ha, rfl⟩ := (turn_guard hs).mp h
  have ha := Except.ok.inj ha
  simp only [ho] at ha
  obtain ⟨rfl, rfl⟩ := Prod.mk.inj ha
  exact ⟨hr, rfl, swapGuards_eq s ho⟩

theorem swap_guards_eq {g dest : Name} {s other : Slot n Guard} (hs : w.guards g = some s)
    (ho : w.guards dest = some other) :
    ((w.setGuard g (some other)).setGuard dest (some s)).guards g = some other ∧
      ((w.setGuard g (some other)).setGuard dest (some s)).guards dest = some s := by
  refine ⟨?_, setGuard_self _ _ _⟩
  by_cases hne : g = dest
  · subst hne
    rw [setGuard_self, ← hs, ho]
  · rw [setGuard_ne _ _ hne, setGuard_self]

theorem setGuard_swap_back {g dest : Name} {s other : Slot n Guard} (hs : w.guards g = some s)
    (ho : w.guards dest = some other) :
    (((w.setGuard g (some other)).setGuard dest (some s)).setGuard g (some s)).setGuard dest
      (some other) = w := by
  by_cases hne : g = dest
  · subst hne
    simp only [setGuard_setGuard]
    exact setGuard_eq_self ho
  · rw [setGuard_comm hne, setGuard_setGuard, setGuard_comm hne, setGuard_setGuard]
    rw [setGuard_comm (Ne.symm hne), setGuard_eq_self hs, setGuard_eq_self ho]

theorem swap_back {g dest : Name} {reply : Option Reply}
    (h : w.turn (.start t (.guard g (.swap dest))) = some (v, reply)) :
    v.turn (.start t (.guard g (.swap dest))) = some (w, reply) := by
  cases hs : w.guards g with
  | none =>
    have hv := (turn_start_eq.mp h).2
    simp only [start, hs] at hv
    obtain ⟨rfl, -⟩ := Prod.mk.inj (Except.ok.inj hv)
    exact h
  | some s =>
    cases ho : w.guards dest with
    | none =>
      obtain ⟨-, a, ha, -⟩ := (turn_guard hs).mp h
      simp only [onGuard, ho, Except.ok.injEq, Prod.mk.injEq] at ha
      obtain ⟨rfl, -⟩ := ha
      exact h
    | some other =>
      obtain ⟨hr, rfl, rfl⟩ := swap_turn_eq hs ho h
      obtain ⟨hg, hd⟩ := swap_guards_eq hs ho
      refine (turn_guard hg).mpr ⟨hr, .done, ?_, rfl⟩
      simp only [onGuard, hd]
      rw [swapGuards_eq other hd, setGuard_swap_back hs ho]

/-- A move over a guard with a lock: a release of that one, and a move over what is left. -/
theorem moveGuard_eq_release {g dest : Name} {s other : Slot n Guard}
    (ho : w.guards dest = some other) (hne : g ≠ dest) (ht : other.thread = s.thread) :
    w.moveGuard g dest s =
      ((w.release other.thread other.held).takeGuard dest other).moveGuard g dest s := by
  have hw : (w.takeGuard g s).guards dest = some other := by
    rw [takeGuard, setGuard_ne _ _ (Ne.symm hne), ho]
  have hu : (((w.release other.thread other.held).takeGuard dest other).takeGuard g s).guards dest =
      some ⟨other.thread, other.held.vacated⟩ := by
    rw [takeGuard, setGuard_ne _ _ (Ne.symm hne), takeGuard, setGuard_self]
  have hstore : (w.takeGuard g s).storeGuard s.thread dest s.held =
      ((w.takeGuard g s).release s.thread other.held).setGuard dest (some s) := by
    simp only [storeGuard, hw]
  simp only [moveGuard, if_neg hne]
  rw [storeGuard_of_vacated hu, hstore, ht]
  simp only [takeGuard]
  rw [release_setGuard, setGuard_comm (Ne.symm hne), setGuard_setGuard]

theorem Orderly.displaces (hw : w.Orderly) {g dest : Name} {s other : Slot n Guard}
    {reply : Option Reply} (hs : w.guards g = some s) (ho : w.guards dest = some other)
    (hl : other.held.lock = some m) (hne : g ≠ dest)
    (hp : w.Permits t (.guard g (.move dest)))
    (h : w.turn (.start t (.guard g (.move dest))) = some (v, reply)) :
    ∃ u, w.turn (.start t (.guard dest .release)) = some (u, some (.flag true)) ∧
      u.Relocating (.guard g (.move dest)) ∧
      u.turn (.start t (.guard g (.move dest))) = some (v, reply) ∧
      v.history = .released m t (w.inFlight t) :: w.history ∧
      (∀ k ≠ m, v.mutexes k = w.mutexes k) ∧
      v.ledger.hold (.guard dest) = w.ledger.hold (.guard g) ∧
      v.ledger.hold (.guard g) = none := by
  have hst : s.thread = t := hp.1 s hs
  have hot : other.thread = t := hp.2 other ho
  obtain ⟨hr, a, ha, rfl⟩ := (turn_guard hs).mp h
  obtain ⟨rfl, rfl⟩ := Prod.mk.inj (Except.ok.inj ha)
  have hthreads : ((w.release other.thread other.held).takeGuard dest other).threads =
      w.threads := by simp [takeGuard, setGuard]
  have hleft : ((w.release other.thread other.held).takeGuard dest other).guards g = some s := by
    rw [takeGuard, setGuard_ne _ _ hne, (release_frame w _ _).2.1, hs]
  have hfree : ((w.release other.thread other.held).takeGuard dest other).slotHolds dest =
      false := by simp [slotHolds, takeGuard]
  have hmove := moveGuard_eq_release ho hne (hot.trans hst.symm)
  have hturn : ((w.release other.thread other.held).takeGuard dest other).turn
      (.start t (.guard g (.move dest))) = some (w.moveGuard g dest s, some
        (.moved ((w.moveGuard g dest s).slotHolds g) ((w.moveGuard g dest s).slotHolds dest))) := by
    refine (turn_guard hleft).mpr ⟨by simpa [isResting, hthreads] using hr, _, ?_, rfl⟩
    simp only [onGuard, ← hmove]
  have hvacant : (((w.release other.thread other.held).takeGuard dest other).takeGuard g
      s).slotHolds dest = false := by
    simp [slotHolds, takeGuard, setGuard_ne _ _ (Ne.symm hne)]
  refine ⟨_, (turn_guard ho).mpr ⟨hr, .flag true, ?_, rfl⟩, .inr hfree, hturn, ?_, ?_, ?_, ?_⟩
  · have hholds : other.held.holds = true := by simp [Guard.holds, hl]
    rw [← hholds]
    rfl
  · have hat : w.guardAt (.guard dest) = some ⟨t, other.held⟩ := hot ▸ ho
    rw [hmove, moveGuard, if_neg hne, storeGuard_of_not_holds hvacant, hot]
    exact history_release hw hat hl
  · intro k hk
    rw [hmove, moveGuard, if_neg hne, storeGuard_of_not_holds hvacant]
    exact release_mutexes_ne (g := other.held) (by simp [hl, Ne.symm hk])
  all_goals
    have hmine : Mine s.thread (w.guards dest) := by
      rw [hst]
      exact hp.2
    have hpq : Place.guard (n := n) g ≠ .guard dest := fun h => hne (Place.guard.inj h)
    rw [ledger_moveGuard hs hmine hne]
    simp [Ledger.move, Ledger.hold_put_of_ne _ hpq, Ledger.hold_surrender_of_ne _ hpq]

theorem Reachable.relocatable (h : w.Reachable) : w.Relocatable := by
  have hw := h.orderly
  constructor
  case carries =>
    intro v hv
    obtain ⟨htwin, hπ⟩ := hv.rearranges
    exact ⟨htwin.mutexes, htwin.threads, htwin.journal, hπ⟩
  case follows =>
    intro v S ks x hv hS hx
    have htwin := hv.rearranges.1
    have hstart : Twin S w v := ⟨htwin.mutexes, htwin.threads, htwin.journal, hS⟩
    obtain ⟨y, hy, hxy⟩ := hstart.follows hx
    have hxo := (hx.reachable h).orderly
    have hyo := (hy.reachable (hv.reachable h)).orderly
    exact ⟨y, hy, hxy, hxy.releaseAlike hxo hyo, hxy.hold_iff hxo hyo⟩
  case displaces => exact hw.displaces
  case swaps =>
    intro t g dest s other v reply hs ho ht
    obtain ⟨-, -, rfl⟩ := swap_turn_eq hs ho ht
    exact swap_guards_eq hs ho
  case swaps_back => exact swap_back

/-- A guard goes from its result to one slot and on to another; then an exception begins, and the
release leaves the mark that it would have left from the result. -/
theorem relocatable_before_exception : ∃ w v : World 1, w.Reachable ∧ w.Relocatable ∧
    w.Relocates v ∧ w.Locks (.result "r") "m" 0 ∧ v.Locks (.guard "k") "m" 0 ∧
    ∃ x y, Follows ∅ w [(.start 0 .throw, some .done)] x ∧
      Follows ∅ v [(.start 0 .throw, some .done)] y ∧ x.ReleaseAlike y := by
  have h₁ := (Reachable.initial (n := 1)).turn (x := .start 0 (.mutex "m" (.create (.int 0))))
    rfl rfl
  have h₂ := h₁.turn (x := .start 0 (.mutex "m" (.lock "r"))) ⟨nofun, fun u => nofun⟩ rfl
  have h := h₂.turn (x := .finish 0) trivial rfl
  have here : ∀ {w : World 1}, w.Reachable → w.Relocates w ∧ Follows ∅ w [] w :=
    fun _ => ⟨.refl, .refl⟩
  have v₁ := (here h).1.turn (t := 0) (o := .result "r" (.content "g"))
    ⟨by rintro s ⟨⟩; rfl, nofun⟩ rfl rfl
  have v₂ := v₁.turn (t := 0) (o := .guard "g" (.move "k")) ⟨by rintro s ⟨⟩; rfl, nofun⟩
    (.inr rfl) rfl
  have hx := (here h).2.turn (k := .start 0 .throw) trivial nofun rfl
  obtain ⟨y, hy, -, halike, -⟩ := h.relocatable.follows (S := ∅) v₂ nofun hx
  exact ⟨_, _, h, h.relocatable, v₂, ⟨.holding "m" 0, rfl, rfl⟩, ⟨.holding "m" 0, rfl, rfl⟩,
    _, y, hx, hy, halike⟩

end World
end Guarded
end CheckedLock
