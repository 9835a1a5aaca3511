import CheckedLock.Proofs.Guarded.Books
import CheckedLock.Proofs.Guarded.Posting

/-! What an operation can do to a world. An operation that acquires nothing comes to one of a few
changes of the thread's own slots; whatever is to be shown of all operations is shown of these. -/
namespace CheckedLock
namespace Guarded
namespace World

variable {n : Nat}

/-- Two worlds that differ in values and messages only. -/
structure Alike (w v : World n) : Prop where
  results : v.results = w.results
  guards : v.guards = w.guards
  threads : v.threads = w.threads
  core : ∀ m, (v.mutexes m).map (·.core) = (w.mutexes m).map (·.core)
  history : v.history = w.history

theorem Alike.refl (w : World n) : Alike w w := ⟨rfl, rfl, rfl, fun _ => rfl, rfl⟩

theorem Alike.ledger_eq {w v : World n} (h : Alike w v) : v.ledger = w.ledger := by
  ext1
  · simp only [ledger, guardAt_congr h.results h.guards h.threads]
  · exact funext h.core
  · funext u
    simp [ledger, inFlight, h.threads]
  · exact h.history

/-- What thread `t` can do without acquiring a mutex. -/
inductive Change (t : Fin n) (w : World n) : World n → Prop
  | quiet {v : World n} : Alike w v → Change t w v
  | create {m : Name} (p : Payload) : w.mutexes m = none → Change t w (w.setMutex m ⟨{}, p⟩)
  | remark {r : Name} {s : Slot n (Acquisition Guard)} {a : Acquisition Guard} :
    w.results r = some s → s.thread = t → a.inner = s.held.inner →
    Change t w (w.setResult r (some { s with held := a }))
  | unpack {r g : Name} {s : Slot n (Acquisition Guard)} {x : Guard} :
    w.results r = some s → s.thread = t → s.held.inner = .ok x → Mine t (w.guards g) →
    Change t w ((w.setResult r (some { s with held := s.held.mapValue Guard.vacated })).storeGuard
      s.thread g x)
  | discardResult {r : Name} {s : Slot n (Acquisition Guard)} :
    w.results r = some s → s.thread = t → Change t w (w.discardResult r s)
  | release {g : Name} {s : Slot n Guard} :
    w.guards g = some s → s.thread = t →
    Change t w ((w.release s.thread s.held).takeGuard g s)
  | move {g dest : Name} {s : Slot n Guard} :
    w.guards g = some s → s.thread = t → Mine t (w.guards dest) → g ≠ dest →
    Change t w (w.moveGuard g dest s)
  | swap {g dest : Name} {s other : Slot n Guard} :
    w.guards g = some s → s.thread = t → w.guards dest = some other → other.thread = t →
    Change t w (w.swapGuards g dest s)
  | discardGuard {g : Name} {s : Slot n Guard} :
    w.guards g = some s → s.thread = t → Change t w (w.discardGuard g s)
  | throw : Change t w (w.throw t)
  | catch_ : Change t w (w.catch_ t)

namespace Change

variable {w v : World n} {t : Fin n} {reply : Reply}

theorem of_writeThrough (g : Guard) (p : Payload) : Alike w (w.writeThrough g p).1 := by
  unfold writeThrough
  split
  · exact .refl w
  · next m _ =>
    split
    · next x hx =>
      refine ⟨rfl, rfl, rfl, fun k => ?_, rfl⟩
      by_cases hk : k = m
      · subst hk; simp [hx]
      · simp [setMutex_ne _ _ hk]
    · exact .refl w

theorem of_unpack {r g : Name} {s : Slot n (Acquisition Guard)} {e : Except Misuse Guard}
    (hr : w.results r = some s) (hs : s.thread = t) (hg : Mine t (w.guards g))
    (he : ∀ x, e = .ok x → s.held.inner = .ok x) (h : w.unpack r g s e = (v, reply)) :
    Change t w v := by
  cases e with
  | error m =>
    obtain ⟨rfl, -⟩ := Prod.mk.inj h
    exact .quiet (.refl w)
  | ok x =>
    obtain ⟨rfl, -⟩ := Prod.mk.inj h
    exact .unpack hr hs (he x rfl) hg

theorem of_putBack {r : Name} {s : Slot n (Acquisition Guard)} {a : Acquisition Guard}
    (hr : w.results r = some s) (hs : s.thread = t) (ha : a.inner = s.held.inner)
    (h : w.putBack r s a = (v, reply)) : Change t w v := by
  obtain ⟨rfl, -⟩ := Prod.mk.inj h
  exact .remark hr hs ha

end Change

theorem inner_of_content {α : Type} {a : Acquisition α} {x : α} (h : a.content = .ok x) :
    a.inner = .ok x := by
  unfold Acquisition.content at h
  split at h
  · cases h
  · cases hi : a.inner with
    | ok y => simp_all [Outcome.content]
    | failure e c => simp [Outcome.content, hi] at h

theorem inner_of_intoValue {α : Type} {a : Acquisition α} {x : α} (h : a.intoValue = .ok x) :
    a.inner = .ok x := by
  cases hi : a.inner with
  | ok y => simp_all [Acquisition.intoValue, Outcome.content]
  | failure e c => simp [Acquisition.intoValue, Outcome.content, hi] at h

theorem inner_of_panicIfPoison {α : Type} {a b : Acquisition α} (h : a.panicIfPoison = .ok b) :
    b.inner = a.inner := by
  unfold Acquisition.panicIfPoison at h
  split at h
  · cases h
  · obtain rfl := Except.ok.inj h
    rfl

theorem inner_of_apply {α : Type} {a b : Acquisition α} {policy : Option PoisonPolicy}
    (h : a.apply policy = .ok b) : b.inner = a.inner := by
  cases policy with
  | none => obtain rfl := Except.ok.inj h; rfl
  | some policy =>
    cases policy with
    | inform => obtain rfl := Except.ok.inj h; rfl
    | ignore => obtain rfl := Except.ok.inj h; rfl
    | panic => exact inner_of_panicIfPoison h

theorem except_map_eq_ok {ε α β : Type} {e : Except ε α} {f : α → β} {b : β}
    (h : e.map f = .ok b) : ∃ a, e = .ok a ∧ f a = b := by
  cases e with
  | error x => cases h
  | ok a => exact ⟨a, rfl, Except.ok.inj h⟩

variable {w v : World n} {t : Fin n} {reply : Reply}

theorem onResult_change {r : Name} {s : Slot n (Acquisition Guard)} {o : ResultOp}
    (hr : w.results r = some s) (hp : w.Permits t (.result r o))
    (h : w.onResult r s o = .ok (v, reply)) : Change t w v := by
  cases o with
  | status => obtain ⟨rfl, -⟩ := Prod.mk.inj (Except.ok.inj h); exact .quiet (.refl w)
  | error => obtain ⟨rfl, -⟩ := Prod.mk.inj (Except.ok.inj h); exact .quiet (.refl w)
  | read => obtain ⟨rfl, -⟩ := Prod.mk.inj (Except.ok.inj h); exact .quiet (.refl w)
  | write p =>
    have h := Except.ok.inj h
    cases hc : s.held.content with
    | error m => simp only [hc] at h; obtain ⟨rfl, -⟩ := Prod.mk.inj h; exact .quiet (.refl w)
    | ok g =>
      simp only [hc] at h
      obtain rfl : (w.writeThrough g p).1 = v := congrArg Prod.fst h
      exact .quiet (Change.of_writeThrough g p)
  | content g =>
    exact .of_unpack hr (hp.1 s hr) hp.2 (fun x => inner_of_content) (Except.ok.inj h)
  | intoValue g =>
    exact .of_unpack hr (hp.1 s hr) hp.2 (fun x => inner_of_intoValue) (Except.ok.inj h)
  | ignorePoison =>
    have ha : s.held.ignorePoison.inner = s.held.inner := rfl
    exact .of_putBack hr (hp s hr) ha (Except.ok.inj h)
  | panicIfPoison =>
    obtain ⟨a, ha, hb⟩ := except_map_eq_ok h
    exact .of_putBack hr (hp s hr) (inner_of_panicIfPoison ha) hb
  | apply policy =>
    obtain ⟨a, ha, hb⟩ := except_map_eq_ok h
    exact .of_putBack hr (hp s hr) (inner_of_apply ha) hb
  | drop =>
    obtain ⟨rfl, -⟩ := Prod.mk.inj (Except.ok.inj h)
    exact .discardResult hr (hp s hr)

theorem onGuard_change {g : Name} {s : Slot n Guard} {o : GuardOp}
    (hg : w.guards g = some s) (hp : w.Permits t (.guard g o))
    (h : w.onGuard g s o = .ok (v, reply)) : Change t w v := by
  cases o with
  | holds => obtain ⟨rfl, -⟩ := Prod.mk.inj (Except.ok.inj h); exact .quiet (.refl w)
  | read => obtain ⟨rfl, -⟩ := Prod.mk.inj (Except.ok.inj h); exact .quiet (.refl w)
  | size => obtain ⟨rfl, -⟩ := Prod.mk.inj (Except.ok.inj h); exact .quiet (.refl w)
  | format width => obtain ⟨rfl, -⟩ := Prod.mk.inj (Except.ok.inj h); exact .quiet (.refl w)
  | log =>
    obtain ⟨rfl, -⟩ := Prod.mk.inj (Except.ok.inj h)
    exact .quiet ⟨rfl, rfl, rfl, fun _ => rfl, rfl⟩
  | write p =>
    obtain rfl : (w.writeThrough s.held p).1 = v := congrArg Prod.fst (Except.ok.inj h)
    exact .quiet (Change.of_writeThrough s.held p)
  | release =>
    obtain ⟨rfl, -⟩ := Prod.mk.inj (Except.ok.inj h)
    exact .release hg (hp s hg)
  | panic => cases h
  | move dest =>
    obtain ⟨rfl, -⟩ := Prod.mk.inj (Except.ok.inj h)
    by_cases hne : g = dest
    · rw [moveGuard, if_pos hne]; exact .quiet (.refl w)
    · exact .move hg (hp.1 s hg) hp.2 hne
  | swap dest =>
    have h := Except.ok.inj h
    cases hd : w.guards dest with
    | none => simp only [hd] at h; obtain ⟨rfl, -⟩ := Prod.mk.inj h; exact .quiet (.refl w)
    | some other =>
      simp only [hd] at h
      obtain ⟨rfl, -⟩ := Prod.mk.inj h
      exact .swap hg (hp.1 s hg) hd (hp.2 other hd)
  | drop =>
    obtain ⟨rfl, -⟩ := Prod.mk.inj (Except.ok.inj h)
    exact .discardGuard hg (hp s hg)

/-- The first step of an operation answers and changes something, or it enters a mutex. -/
theorem start_cases {o : Op} {answer : Option Reply} (hp : w.Permits t o)
    (h : w.start t o = .ok (v, answer)) :
    (answer ≠ none ∧ Change t w v) ∨ (answer = none ∧ ∃ m x polling p, w.mutexes m = some x ∧
      v = w.arrive t m x p (x.core.call t (.acquire polling)) ∧
      ∀ r, p.slot? = some r → Mine t (w.results r) ∧ ∀ u, (w.threads u).target? ≠ some r) := by
  have hrefl : Change t w w := .quiet (.refl w)
  have answered : ∀ {y : World n} {reply : Reply}, Change t w y → (y, some reply) = (v, answer) →
      answer ≠ none ∧ Change t w v := fun hy he => by
    obtain ⟨rfl, rfl⟩ := Prod.mk.inj he
    exact ⟨nofun, hy⟩
  cases o with
  | throw => exact .inl (answered .throw (Except.ok.inj h))
  | catch_ => exact .inl (answered .catch_ (Except.ok.inj h))
  | result r o =>
    simp only [start] at h
    split at h
    · exact .inl (answered hrefl (Except.ok.inj h))
    · next s hs =>
      obtain ⟨⟨v', reply⟩, hv, he⟩ := except_map_eq_ok h
      exact .inl (answered (onResult_change hs hp hv) he)
  | guard g o =>
    simp only [start] at h
    split at h
    · exact .inl (answered hrefl (Except.ok.inj h))
    · next s hs =>
      obtain ⟨⟨v', reply⟩, hv, he⟩ := except_map_eq_ok h
      exact .inl (answered (onGuard_change hs hp hv) he)
  | mutex m o =>
    have entered : ∀ polling p, w.enter t m polling p = (v, answer) →
        (∀ r, p.slot? = some r → Mine t (w.results r) ∧ ∀ u, (w.threads u).target? ≠ some r) →
        (answer ≠ none ∧ Change t w v) ∨ (answer = none ∧ ∃ m x polling p, w.mutexes m = some x ∧
          v = w.arrive t m x p (x.core.call t (.acquire polling)) ∧
          ∀ r, p.slot? = some r →
            Mine t (w.results r) ∧ ∀ u, (w.threads u).target? ≠ some r) := by
      intro polling p he hslot
      unfold enter at he
      split at he
      · exact .inl (answered hrefl he)
      · next x hx =>
        obtain ⟨rfl, rfl⟩ := Prod.mk.inj he
        exact .inr ⟨rfl, m, x, polling, p, hx, rfl, hslot⟩
    have h := Except.ok.inj h
    cases o with
    | create p => exact .inl (answered (.create p hp) h)
    | lockedByMe => exact .inl (answered hrefl h)
    | isPoisoned => exact .inl (answered hrefl h)
    | lock r => exact entered false (.keep r) h fun k hk => Option.some.inj hk ▸ hp
    | tryLock r => exact entered true (.keep r) h fun k hk => Option.some.inj hk ▸ hp
    | intoInner => exact entered false .takeValue h fun k hk => nomatch hk
    | toJson => exact entered false .encode h fun k hk => nomatch hk
    | fromJson d => exact entered false (.decode d) h fun k hk => nomatch hk

/-- In every guard there is a lock if and only if there is a target, the same mutex. -/
def Paired (f : Place n → Option (Slot n Guard)) : Prop :=
  ∀ p s, f p = some s → s.held.target = s.held.lock

theorem Paired.update {f : Place n → Option (Slot n Guard)} (hf : Paired f) (p : Place n)
    {x : Option (Slot n Guard)} (hx : ∀ s, x = some s → s.held.target = s.held.lock) :
    Paired (Function.update f p x) := by
  intro q s hs
  rw [Function.update_apply] at hs
  split at hs
  · exact hx s hs
  · exact hf q s hs

theorem Paired.update_none {f : Place n → Option (Slot n Guard)} (hf : Paired f) (p : Place n) :
    Paired (Function.update f p none) := hf.update p fun _ hs => nomatch hs

theorem Paired.update_some {f : Place n → Option (Slot n Guard)} (hf : Paired f) (p : Place n)
    {s : Slot n Guard} (hs : s.held.target = s.held.lock) :
    Paired (Function.update f p (some s)) :=
  hf.update p fun _ hx => Option.some.inj hx ▸ hs

/-- What a change leaves as it was, besides the books. -/
structure Calm (t : Fin n) (w v : World n) : Prop where
  others : ∀ u ≠ t, v.threads u = w.threads u
  pending : (v.threads t).pending = (w.threads t).pending
  arrived : (v.threads t).arrived = (w.threads t).arrived
  numbered : (∀ e ∈ (w.threads t).inFlight, e < (w.threads t).thrown) →
    ∀ e ∈ (v.threads t).inFlight, e < (v.threads t).thrown
  results : ∀ r s, v.results r = some s → ∃ s₀, w.results r = some s₀ ∧ s₀.thread = s.thread
  paired : Paired w.guardAt → Paired v.guardAt

theorem Calm.trans {u w v : World n} {t : Fin n} (h : Calm t u w) (k : Calm t w v) :
    Calm t u v where
  others x hx := (k.others x hx).trans (h.others x hx)
  pending := k.pending.trans h.pending
  arrived := k.arrived.trans h.arrived
  numbered := k.numbered ∘ h.numbered
  results r s hs := by
    obtain ⟨s₁, h₁, e₁⟩ := k.results r s hs
    obtain ⟨s₀, h₀, e₀⟩ := h.results r s₁ h₁
    exact ⟨s₀, h₀, e₀.trans e₁⟩
  paired := k.paired ∘ h.paired

theorem Calm.of_threads {w v : World n} {t : Fin n} (ht : v.threads = w.threads)
    (hr : ∀ r s, v.results r = some s → ∃ s₀, w.results r = some s₀ ∧ s₀.thread = s.thread)
    (hp : Paired w.guardAt → Paired v.guardAt) : Calm t w v :=
  ⟨fun u _ => by rw [ht], by rw [ht], by rw [ht], by rw [ht]; exact id, hr, hp⟩

namespace Change

theorem calm (h : Change t w v) : Calm t w v := by
  have same : ∀ r s, w.results r = some s → ∃ s₀, w.results r = some s₀ ∧ s₀.thread = s.thread :=
    fun r s hs => ⟨s, hs, rfl⟩
  cases h with
  | quiet h =>
    have hg := guardAt_congr h.results h.guards h.threads
    exact .of_threads h.threads (by rw [h.results]; exact same) (by rw [hg]; exact id)
  | create p _ => exact .of_threads rfl same id
  | @remark r s a hs _ ha =>
    have hg : Slot.guard? { s with held := a } = w.guardAt (.result r) := by
      simp [guardAt, hs, Slot.guard?, Acquisition.payload?, ha]
    refine .of_threads rfl ?_ ?_
    · intro k x hx
      by_cases hk : k = r
      · subst hk
        obtain rfl := Option.some.inj ((setResult_self w k _).symm.trans hx)
        exact ⟨s, hs, rfl⟩
      · exact same k x (by rwa [setResult_ne _ _ hk] at hx)
    · rw [guardAt_setResult, Option.bind_some, hg, Function.update_eq_self]
      exact id
  | @unpack r g s x hs _ hx hg =>
    have hr : w.guardAt (.result r) = some ⟨s.thread, x⟩ := by
      simp [guardAt, hs, Slot.guard?, Acquisition.payload?, hx]
    refine .of_threads ?_ ?_ ?_
    · simp [setResult]
    · intro k y hy
      rw [(storeGuard_frame _ _ _ _).1] at hy
      by_cases hk : k = r
      · subst hk
        obtain rfl := Option.some.inj ((setResult_self w k _).symm.trans hy)
        exact ⟨s, hs, rfl⟩
      · exact same k y (by rwa [setResult_ne _ _ hk] at hy)
    · intro hp
      rw [guardAt_storeGuard, guardAt_setResult]
      refine (hp.update _ fun y hy => ?_).update_some _ (hp _ _ hr)
      obtain rfl : (⟨s.thread, x.vacated⟩ : Slot n Guard) = y := by
        simpa [Slot.guard?, Acquisition.payload?, Acquisition.mapValue, hx] using hy
      rfl
  | @discardResult r s hs _ =>
    refine .of_threads ?_ ?_ ?_
    · simp [World.discardResult, setResult]
    · intro k y hy
      by_cases hk : k = r
      · subst hk; simp [World.discardResult] at hy
      · exact same k y (by simpa [World.discardResult, setResult_ne _ _ hk] using hy)
    · intro hp
      rw [World.discardResult, guardAt_setResult, guardAt_releaseResult]
      exact hp.update_none _
  | @release g s hs _ =>
    refine .of_threads ?_ ?_ ?_
    · simp [takeGuard, setGuard]
    · simpa [takeGuard, setGuard] using same
    · intro hp
      rw [takeGuard, guardAt_setGuard, guardAt_release]
      exact hp.update_some _ rfl
  | @move g dest s hs _ hd hne =>
    refine .of_threads ?_ ?_ ?_
    · simp [moveGuard, hne, takeGuard, setGuard]
    · simpa [moveGuard, hne, takeGuard, setGuard] using same
    · intro hp
      rw [moveGuard, if_neg hne, guardAt_storeGuard, takeGuard, guardAt_setGuard]
      exact (hp.update_some _ rfl).update_some _ (hp (.guard g) s hs)
  | @swap g dest s other hs _ ho _ =>
    rw [swapGuards_eq s ho]
    refine .of_threads rfl same ?_
    intro hp
    rw [guardAt_setGuard, guardAt_setGuard]
    exact (hp.update_some _ (hp (.guard dest) other ho)).update_some _ (hp (.guard g) s hs)
  | @discardGuard g s hs _ =>
    refine .of_threads ?_ ?_ ?_
    · simp [World.discardGuard, setGuard]
    · simpa [World.discardGuard, setGuard] using same
    · intro hp
      rw [World.discardGuard, guardAt_setGuard, guardAt_release]
      exact hp.update_none _
  | throw =>
    refine ⟨fun u hu => setThread_ne _ _ hu, ?_, ?_, ?_, same, ?_⟩
    · simp [World.throw]
    · simp [World.throw]
    · intro hnum e he
      simp only [World.throw, setThread_self, List.mem_cons] at he ⊢
      obtain rfl | he := he
      · exact Nat.lt_succ_self _
      · exact Nat.lt_succ_of_lt (hnum e he)
    · rw [World.throw, guardAt_setThread]
      have hh : ((w.threads t).arrived.bind fun a => a.guard?.map (Slot.mk t)) =
          w.guardAt (.hand t) := rfl
      rw [hh, Function.update_eq_self]
      exact id
  | catch_ =>
    refine ⟨fun u hu => setThread_ne _ _ hu, ?_, ?_, ?_, same, ?_⟩
    · simp [World.catch_]
    · simp [World.catch_]
    · intro hnum e he
      simp only [World.catch_, setThread_self] at he ⊢
      exact hnum e (List.mem_of_mem_tail he)
    · rw [World.catch_, guardAt_setThread]
      have hh : ((w.threads t).arrived.bind fun a => a.guard?.map (Slot.mk t)) =
          w.guardAt (.hand t) := rfl
      rw [hh, Function.update_eq_self]
      exact id

end Change

/-- A place is of the thread whose guard object is there. -/
theorem owned_of_guardAt {p : Place n} (hp : ∀ s, w.guardAt p = some s → s.thread = t) :
    w.ledger.Owned t p := by
  intro h hh
  obtain ⟨s, hs, hm⟩ := Option.bind_eq_some_iff.mp hh
  obtain ⟨m, -, rfl⟩ := Option.map_eq_some_iff.mp hm
  exact hp s hs

theorem owned_result {r : Name} (hr : Mine t (w.results r)) : w.ledger.Owned t (.result r) := by
  refine owned_of_guardAt fun s hs => ?_
  obtain ⟨x, hx, hm⟩ := Option.bind_eq_some_iff.mp hs
  obtain ⟨g, -, rfl⟩ := Option.map_eq_some_iff.mp hm
  exact hr x hx

theorem owned_guard {g : Name} (hg : Mine t (w.guards g)) : w.ledger.Owned t (.guard g) :=
  owned_of_guardAt hg

theorem mine_of_thread {α : Type} {s : Slot n α} {o : Option (Slot n α)} (hs : o = some s)
    (ht : s.thread = t) : Mine t o := by
  rintro x hx
  obtain rfl := Option.some.inj (hs.symm.trans hx)
  exact ht

/-- A change is one posting. -/
theorem Change.posting (h : Change t w v) (hn : (w.inFlight t).Nodup)
    (hnum : ∀ e ∈ (w.threads t).inFlight, e < (w.threads t).thrown) :
    w.ledger.Posting t v.ledger := by
  cases h with
  | quiet h => rw [h.ledger_eq]; exact .stay
  | create p hm =>
    rw [ledger_setMutex]
    exact .create (by simp [ledger, hm])
  | remark hs _ ha => rw [ledger_remark hs ha]; exact .stay
  | unpack hs ht hx hg =>
    rw [ledger_unpack hs hx (ht ▸ hg)]
    exact .replace (by simp) (owned_result (mine_of_thread hs ht)) (owned_guard hg)
  | discardResult hs ht =>
    rw [ledger_discardResult hs]
    exact .surrender (owned_result (mine_of_thread hs ht))
  | release hs ht =>
    rw [ledger_release_takeGuard hs]
    exact .surrender (owned_guard (mine_of_thread hs ht))
  | move hs ht hd hne =>
    rw [ledger_moveGuard hs (ht ▸ hd) hne]
    exact .replace (fun h => hne (Place.guard.inj h)) (owned_guard (mine_of_thread hs ht))
      (owned_guard hd)
  | swap hs ht ho hto =>
    rw [ledger_swapGuards hs ho]
    exact .swap (owned_guard (mine_of_thread hs ht)) (owned_guard (mine_of_thread ho hto))
  | discardGuard hs ht =>
    rw [ledger_discardGuard hs]
    exact .surrender (owned_guard (mine_of_thread hs ht))
  | throw =>
    have hF : ((w.threads t).thrown :: w.inFlight t).Nodup :=
      List.nodup_cons.mpr ⟨fun hm => Nat.lt_irrefl _ (hnum _ hm), hn⟩
    rw [ledger_throw]
    exact .fly hF
  | catch_ =>
    rw [ledger_catch]
    exact .fly hn.tail

end World
end Guarded
end CheckedLock
