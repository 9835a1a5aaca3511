import CheckedLock.Proofs.Guarded.Ledger

/-! Postings. What a thread does in one turn is one entry in the books, or none: at most one lock
changes hands, and the thread is a party to it. -/
namespace CheckedLock
namespace Guarded

variable {n : Nat} {t u : Fin n} {m : Name}

/-- A release ends an acquisition of its own thread, and an acquisition takes a free lock, so what
another thread does is not about a lock that is held. -/
theorem mutex_ne_of_lawful {d : Deed n} {h : List (Deed n)} {before : List Nat}
    (hl : Lawful (d :: h)) (hc : current m h = some (t, before)) (ht : d.thread ≠ t) :
    d.mutex ≠ m := by
  rintro rfl
  cases d with
  | acquired k u v F => simp [Deed.mutex, hl.1] at hc
  | released k u F =>
    obtain ⟨b, hb⟩ := hl.1
    obtain ⟨rfl, -⟩ := Prod.mk.inj (Option.some.inj (hb.symm.trans hc))
    exact ht rfl

theorem coreAfter_of_mutex_ne {d : Deed n} {h : List (Deed n)} (hd : d.mutex ≠ m) :
    coreAfter m (d :: h) = coreAfter m h := by
  cases d with
  | acquired => exact coreAfter_acquired_ne hd
  | released => exact coreAfter_released_ne hd

namespace Ledger

/-- What the place holds, it holds for thread `t`. -/
def Owned (l : Ledger n) (t : Fin n) (p : Place n) : Prop := ∀ h ∈ l.hold p, h.thread = t

inductive Posting (t : Fin n) (l : Ledger n) : Ledger n → Prop
  | stay : Posting t l l
  | fly {F : List Nat} : F.Nodup → Posting t l (l.fly t F)
  | create {m : Name} : l.core m = none → Posting t l (l.create m)
  | take {m : Name} {c : Core (Fin n)} :
    l.core m = some c → c.inside = none → l.hold (.hand t) = none → Posting t l (l.take t m c)
  | surrender {p : Place n} : l.Owned t p → Posting t l (l.surrender p)
  /-- What stood at `q` is given up for what stands at `p`. -/
  | replace {p q : Place n} : p ≠ q → l.Owned t p → l.Owned t q →
    Posting t l ((l.surrender q).move p q)
  | swap {p q : Place n} : l.Owned t p → l.Owned t q → Posting t l (l.swap p q)
  /-- An exception begins and ends within the turn; in between it passes `p`. -/
  | unwind {p : Place n} {e : Nat} : l.Owned t p → (e :: l.inFlight t).Nodup →
    Posting t l (((l.fly t (e :: l.inFlight t)).surrender p).fly t (l.inFlight t))

theorem history_surrender (l : Ledger n) (p : Place n) :
    (l.surrender p).history = l.history ∨
      ∃ h ∈ l.hold p, (l.surrender p).history =
        .released h.mutex h.thread (l.inFlight h.thread) :: l.history := by
  cases hp : l.hold p with
  | none => exact .inl (by rw [surrender_of_none hp])
  | some h =>
    rw [surrender_of_some hp, history_put, close]
    split
    · exact .inl rfl
    · exact .inr ⟨h, rfl, rfl⟩

theorem core_surrender_ne_none {l : Ledger n} {p : Place n} (hm : l.core m ≠ none) :
    (l.surrender p).core m ≠ none := by
  cases hp : l.hold p with
  | none => rwa [surrender_of_none hp]
  | some h =>
    rw [surrender_of_some hp, core_put, close]
    split
    · exact hm
    · simp only [Function.update_apply]
      split
      · simp
      · exact hm

namespace Posting

variable {l k : Ledger n}

theorem sound (h : Posting t l k) (hl : l.Sound) : k.Sound := by
  cases h with
  | stay => exact hl
  | fly hF => exact hl.fly hF t
  | create hm => exact hl.create hm
  | take hm hfree ht => exact hl.take hm hfree ht
  | surrender _ => exact hl.surrender _
  | replace _ _ _ => exact (hl.surrender _).move (hold_surrender_self _ _)
  | swap _ _ => exact hl.swap _ _
  | unwind _ hF => exact ((hl.fly hF t).surrender _).fly (hl.nodup t) t

/-- A turn has one deed at most, and it is the thread's own. The exceptions in flight are the ones
before the turn, apart from one that does not outlast it. -/
theorem history (h : Posting t l k) :
    k.history = l.history ∨ ∃ d, d.thread = t ∧ k.history = d :: l.history ∧
      (d.inFlight = l.inFlight t ∨ ∃ e ∉ l.inFlight t, d.inFlight = e :: l.inFlight t) := by
  -- the deed of a surrender is a release for the place's thread
  have give : ∀ {l : Ledger n} {p : Place n}, l.Owned t p →
      (l.surrender p).history = l.history ∨ ∃ d, d.thread = t ∧
        (l.surrender p).history = d :: l.history ∧ d.inFlight = l.inFlight t := fun {l p} hp => by
    obtain he | ⟨e, he, hd⟩ := l.history_surrender p
    · exact .inl he
    · obtain rfl := hp e he
      exact .inr ⟨.released e.mutex e.thread (l.inFlight e.thread), rfl, hd, rfl⟩
  cases h with
  | stay => exact .inl rfl
  | fly => exact .inl rfl
  | create => exact .inl rfl
  | take => exact .inr ⟨_, rfl, rfl, .inl rfl⟩
  | surrender hp => exact (give hp).imp_right fun ⟨d, hd, he, hF⟩ => ⟨d, hd, he, .inl hF⟩
  | replace _ _ hq => exact (give hq).imp_right fun ⟨d, hd, he, hF⟩ => ⟨d, hd, he, .inl hF⟩
  | swap => exact .inl rfl
  | @unwind p e hp hn =>
    have hp' : (l.fly t (e :: l.inFlight t)).Owned t p := hp
    refine (give hp').imp_right fun ⟨d, hd, he, hF⟩ => ⟨d, hd, he, .inr ⟨e, ?_, ?_⟩⟩
    · exact (List.nodup_cons.mp hn).1
    · rw [hF]
      simp [Ledger.fly]

/-- A mutex that is there stays. -/
theorem core_ne_none (h : Posting t l k) (hm : l.core m ≠ none) : k.core m ≠ none := by
  cases h with
  | stay => exact hm
  | fly => exact hm
  | create =>
    simp only [Ledger.create, Function.update_apply]
    split
    · simp
    · exact hm
  | take =>
    simp only [Ledger.take, Function.update_apply]
    split
    · simp
    · exact hm
  | surrender => exact core_surrender_ne_none hm
  | replace => exact core_surrender_ne_none hm
  | swap => exact hm
  | @unwind p e => exact core_surrender_ne_none (l := l.fly t (e :: l.inFlight t)) hm

/-- A lock that another thread holds is left alone. -/
theorem coreAfter_eq (h : Posting t l k) (hl : l.Sound) {before : List Nat} (hu : u ≠ t)
    (hc : current m l.history = some (u, before)) :
    coreAfter m k.history = coreAfter m l.history := by
  obtain he | ⟨d, hd, he, -⟩ := h.history
  · rw [he]
  · have hlaw : Lawful (d :: l.history) := he ▸ (h.sound hl).lawful
    rw [he, coreAfter_of_mutex_ne (mutex_ne_of_lawful hlaw hc (hd ▸ hu.symm))]

end Posting
end Ledger
end Guarded
end CheckedLock
