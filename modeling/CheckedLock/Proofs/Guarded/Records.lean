import CheckedLock.Proofs.Guarded.Deadlock
/-! What a turn puts into the journal. It is an attempt with its notice, or one release with its
notice, or it is nothing about a lock. -/
namespace CheckedLock
namespace Guarded

variable {n : Nat}

namespace World

variable {w v y z : World n} {t : Fin n}

/-- Neither the journal nor a lock is changed. -/
structure Tacit (w v : World n) : Prop where
  journal : v.journal = w.journal
  core : v.ledger.core = w.ledger.core

theorem Tacit.refl (w : World n) : Tacit w w := ⟨rfl, rfl⟩

/-- What is written down when a release takes the core `c` to `d`. -/
def releaseEntry (t : Fin n) (m : Name) (F : List Nat) (c d : Core (Fin n)) : List (Event n) :=
  .released m t F :: if d.poisoned && !c.poisoned then [.noticed m t .poisoned] else []

/-- Thread `t` releases one lock, or none. -/
inductive Frees (t : Fin n) (w v : World n) : Prop
  | none : Tacit w v → Frees t w v
  | one {m : Name} {F : List Nat} {c d : Core (Fin n)} : w.ledger.core m = some c →
    v.ledger.core m = some d → v.journal = releaseEntry t m F c d ++ w.journal → Frees t w v

theorem Frees.refl (t : Fin n) (w : World n) : Frees t w w := .none (.refl w)

theorem Frees.after (h : Frees t y v) (hy : Tacit w y) : Frees t w v := by
  cases h with
  | none h => exact .none ⟨h.journal.trans hy.journal, h.core.trans hy.core⟩
  | one hc hd hj => exact .one (hy.core ▸ hc) hd (hy.journal ▸ hj)

theorem Frees.before (h : Frees t w y) (hy : Tacit y v) : Frees t w v := by
  cases h with
  | none h => exact .none ⟨hy.journal.trans h.journal, hy.core.trans h.core⟩
  | one hc hd hj => exact .one hc (hy.core ▸ hd) (hy.journal.trans hj)

end World
end Guarded
end CheckedLock
