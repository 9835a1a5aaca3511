import CheckedLock.Proofs.Guarded.Values

/-! The chronicle of a run keeps its edits in order, each with the history of the locks at the time.
A value is changed by the holder of its lock only, and whoever reads it through a guard finds what
the latest edit left. -/
namespace CheckedLock
namespace Guarded

variable {n : Nat}

/-- What an operation that reads through a guard makes of the value. -/
def GuardOp.reading? : GuardOp → Option (Payload → Reply)
  | .read => some .value
  | .size => some (.size ·.size)
  | .format width => some fun p => .text (Column.right width (p.display?.getD ""))
  | .holds | .release | .write _ | .log | .panic | .move _ | .swap _ | .drop => none

/-- A change of a value, with the history of the locks until then. -/
structure Edit (n : Nat) where
  thread : Fin n
  mutex : Name
  value : Payload
  past : List (Deed n)

structure Chronicle (n : Nat) where
  /-- the first values -/
  made : Name → Option Payload := fun _ => none
  /-- the latest edit first -/
  edits : List (Edit n) := []

namespace Chronicle

/-- What the latest edit has left, or else the first value. -/
def latest? (c : Chronicle n) (m : Name) : Option Payload :=
  ((c.edits.find? (·.mutex = m)).map (·.value)).or (c.made m)

def next (c : Chronicle n) (w : World n) (k : Turn n) : Chronicle n where
  made := assign c.made k.made?
  edits := ((w.edit? k).map fun e => ⟨k.thread, e.1, e.2, w.history⟩).toList ++ c.edits

end Chronicle

namespace World

/-- The worlds of all runs, each with the chronicle of a run to it. -/
inductive Recorded : World n → Chronicle n → Prop
  | initial : Recorded {} {}
  | turn {w v : World n} {c : Chronicle n} {k : Turn n} {reply : Option Reply} :
    Recorded w c → w.Allows k → w.turn k = some (v, reply) → Recorded v (c.next w k)

theorem reachable_iff_recorded {w : World n} : w.Reachable ↔ ∃ c, w.Recorded c := by
  constructor
  · intro h
    induction h with
    | initial => exact ⟨{}, .initial⟩
    | turn _ ha ht ih =>
      obtain ⟨c, hc⟩ := ih
      exact ⟨_, hc.turn ha ht⟩
  · rintro ⟨c, h⟩
    induction h with
    | initial => exact .initial
    | turn _ ha ht ih => exact ih.turn ha ht

/-- Only holders touch the values. -/
structure OnlyByHolder (w : World n) (c : Chronicle n) : Prop where
  /-- Every value is what the latest edit behind its lock has left. -/
  value_eq : w.value? = c.latest?
  /-- Later edits come later in the history of the locks. -/
  inLockOrder : c.edits.Pairwise fun later earlier => earlier.past <:+ later.past
  byHolder : ∀ e ∈ c.edits, e.past <:+ w.history ∧
    ∃ before, current e.mutex e.past = some (e.thread, before)
  overwrites : ∀ {k v reply}, w.turn k = some (v, reply) →
    v.value? = assign w.value? (k.made?.or (w.edit? k))
  /-- A value that is there changes by an edit. -/
  changes_only : ∀ {k v reply m}, w.Allows k → w.turn k = some (v, reply) → w.value? m ≠ none →
    v.value? m ≠ w.value? m → ∃ p, w.edit? k = some (m, p)
  /-- An edit is made by the thread that has the lock, by the only guard there is. -/
  edits_by : ∀ {k m p}, w.Allows k → w.edit? k = some (m, p) →
    ∃ q, w.Locks q m k.thread ∧ ∀ q' u, w.Locks q' m u → q' = q
  read_guard : ∀ {g s m o f}, w.guards g = some s → s.held.lock = some m → o.reading? = some f →
    ∃ p, c.latest? m = some p ∧ ∀ t, w.start t (.guard g o) = .ok (w, some (f p))
  read_result : ∀ {r s g m}, w.results r = some s → s.held.content = .ok g → g.lock = some m →
    ∃ p, c.latest? m = some p ∧ ∀ t, w.start t (.result r .read) = .ok (w, some (.value p))
  /-- A value that is moved out or put into a document is the latest one, too. -/
  finish : ∀ {t a}, (w.threads t).arrived = some a → a.verdict.holds = true →
    ∃ p, c.latest? a.mutex = some p ∧
      (a.purpose = .takeValue → ∃ s, (w.finish t).2 = .taken s (some p)) ∧
      (a.purpose = .encode → (w.finish t).2 = .document p.toJson)
  /-- Without the lock there is no access, and nothing happens. -/
  unlocked_guard : ∀ {g s o}, w.guards g = some s → s.held.lock = none →
    (o.reading? ≠ none ∨ ∃ p, o = .write p) →
    ∀ t, w.start t (.guard g o) = .ok (w, some (.misuse .accessWithoutLock))
  unlocked_result : ∀ {r s g o}, w.results r = some s → s.held.content = .ok g → g.lock = none →
    (o = .read ∨ ∃ p, o = .write p) →
    ∀ t, w.start t (.result r o) = .ok (w, some (.misuse .accessWithoutLock))
  /-- A message about such a guard says so instead of the value. -/
  unlocked_text : ∀ {g s}, w.guards g = some s → s.held.lock = none →
    w.display s.held = .error .accessWithoutLock

variable {w v : World n} {c : Chronicle n} {t : Fin n} {m : Name} {k : Turn n}
  {reply : Option Reply}

theorem edit?_of_made {e : Name × Payload} (h : k.made? = some e) : w.edit? k = none := by
  unfold Turn.made? at h
  split at h
  · rfl
  all_goals cases h

theorem latest?_next (hnew : ∀ m p, k.made? = some (m, p) → c.latest? m = none) :
    (c.next w k).latest? = assign c.latest? (k.made?.or (w.edit? k)) := by
  funext i
  cases hm : k.made? with
  | some e =>
    obtain ⟨m, p⟩ := e
    have hedit : w.edit? k = none := edit?_of_made hm
    by_cases hi : i = m
    · -- a new mutex has no edits yet
      subst hi
      have hnone := hnew i p hm
      simp only [Chronicle.latest?, Option.or_eq_none_iff, Option.map_eq_none_iff] at hnone
      simp [Chronicle.latest?, Chronicle.next, hm, hedit, hnone.1]
    · simp [Chronicle.latest?, Chronicle.next, hm, hedit, hi]
  | none =>
    cases he : w.edit? k with
    | none => simp [Chronicle.latest?, Chronicle.next, hm, he]
    | some e =>
      obtain ⟨m, p⟩ := e
      by_cases hi : m = i
      · simp [Chronicle.latest?, Chronicle.next, hm, he, hi]
      · simp [Chronicle.latest?, Chronicle.next, hm, he, hi, Ne.symm hi]

theorem start_reading {g : Name} {s : Slot n Guard} {o : GuardOp} {f : Payload → Reply}
    (hs : w.guards g = some s) (hf : o.reading? = some f) :
    w.start t (.guard g o) = .ok (w, some (replyOf f (w.valueOf s.held))) := by
  cases o with
  | read | size =>
    obtain rfl := Option.some.inj hf
    simp [start, hs, onGuard, Except.map]
  | format width =>
    obtain rfl := Option.some.inj hf
    simp only [start, hs, onGuard, Except.map, display]
    cases w.valueOf s.held <;> rfl
  | holds | release | write | log | panic | move | swap | drop => cases hf

theorem start_write {g : Name} {s : Slot n Guard} (hs : w.guards g = some s) (p : Payload) :
    w.start t (.guard g (.write p)) =
      .ok ((w.writeThrough s.held p).1, some (w.writeThrough s.held p).2) := by
  simp [start, hs, onGuard, Except.map]

theorem start_read_result {r : Name} {s : Slot n (Acquisition Guard)} {g : Guard}
    (hs : w.results r = some s) (hc : s.held.content = .ok g) :
    w.start t (.result r .read) = .ok (w, some (replyOf .value (w.valueOf g))) := by
  simp [start, hs, onResult, hc, Except.map, Except.bind]

theorem start_write_result {r : Name} {s : Slot n (Acquisition Guard)} {g : Guard}
    (hs : w.results r = some s) (hc : s.held.content = .ok g) (p : Payload) :
    w.start t (.result r (.write p)) =
      .ok ((w.writeThrough g p).1, some (w.writeThrough g p).2) := by
  simp [start, hs, onResult, hc, Except.map]

namespace Orderly

variable (hw : w.Orderly)
include hw

/-- The history grows by a deed or stays. -/
theorem history_suffix (ha : w.Allows k) (h : w.turn k = some (v, reply)) :
    w.history <:+ v.history := by
  obtain he | ⟨d, -, he, -⟩ := (hw.turn ha h).posting.history
  · have hsame : w.history = v.history := Eq.symm he
    exact hsame ▸ List.suffix_refl w.history
  · rw [show v.history = d :: w.history from he]
    exact List.suffix_cons d w.history

theorem changes_only (h : w.turn k = some (v, reply)) (ha : w.Allows k)
    (hm : w.value? m ≠ none) (hv : v.value? m ≠ w.value? m) : ∃ p, w.edit? k = some (m, p) := by
  rw [hw.value?_turn h] at hv
  cases hmade : k.made? with
  | some e =>
    obtain ⟨i, p⟩ := e
    have hi : m = i := by
      by_contra hne
      simp [hmade, hne] at hv
    subst hi
    unfold Turn.made? at hmade
    split at hmade
    · obtain ⟨rfl, -⟩ := Prod.mk.inj (Option.some.inj hmade)
      have hfree : w.mutexes _ = none := ha
      simp [value?, hfree] at hm
    all_goals cases hmade
  | none =>
    cases he : w.edit? k with
    | none => simp [hmade, he] at hv
    | some e =>
      obtain ⟨i, p⟩ := e
      have hi : m = i := by
        by_contra hne
        simp [hmade, he, hne] at hv
      exact ⟨p, by rw [hi]⟩

theorem finish_reply {a : Arrival} (ha : (w.threads t).arrived = some a)
    (hv : a.verdict.holds = true) : ∃ p, w.value? a.mutex = some p ∧
      (a.purpose = .takeValue → ∃ s, (w.finish t).2 = .taken s (some p)) ∧
      (a.purpose = .encode → (w.finish t).2 = .document p.toJson) := by
  obtain ⟨-, x, hx, hfin⟩ := hw.finish_eq ha
  refine ⟨x.value, by simp [value?, hx], fun hp => ?_, fun hp => ?_⟩
  · exact ⟨_, by rw [hfin]; simp only [conclude, hp, if_pos hv]; rfl⟩
  · simp [hfin, conclude, hp, hv]

end Orderly

namespace Recorded

theorem orderly (h : w.Recorded c) : w.Orderly := (reachable_iff_recorded.mpr ⟨c, h⟩).orderly

theorem value_eq (h : w.Recorded c) : w.value? = c.latest? := by
  induction h with
  | initial => rfl
  | @turn w v c k reply h ha ht ih =>
    have hnew : ∀ m p, k.made? = some (m, p) → c.latest? m = none := by
      intro m p hk
      unfold Turn.made? at hk
      split at hk
      · obtain ⟨rfl, -⟩ := Prod.mk.inj (Option.some.inj hk)
        have hfree : w.mutexes _ = none := ha
        simp [← ih, value?, hfree]
      all_goals cases hk
    rw [h.orderly.value?_turn ht, latest?_next hnew, ih]

/-- Edits are made by holders, and they are in the order of the history. -/
theorem edits (h : w.Recorded c) :
    c.edits.Pairwise (fun later earlier => earlier.past <:+ later.past) ∧
      ∀ e ∈ c.edits, e.past <:+ w.history ∧
        ∃ before, current e.mutex e.past = some (e.thread, before) := by
  induction h with
  | initial => simp
  | @turn w v c k reply h ha ht ih =>
    obtain ⟨horder, hby⟩ := ih
    have hw := h.orderly
    have hgrows := hw.history_suffix ha ht
    have hold : ∀ e ∈ c.edits, e.past <:+ v.history ∧
        ∃ before, current e.mutex e.past = some (e.thread, before) :=
      fun e he => ⟨(hby e he).1.trans hgrows, (hby e he).2⟩
    cases hedit : w.edit? k with
    | none => simpa [Chronicle.next, hedit] using ⟨horder, hold⟩
    | some y =>
      obtain ⟨m, p⟩ := y
      have hlocks := (hw.locks_iff_current k.thread m).mp (locks_of_edit ha hedit)
      have hnext : (c.next w k).edits = ⟨k.thread, m, p, w.history⟩ :: c.edits := by
        simp [Chronicle.next, hedit]
      rw [hnext]
      refine ⟨List.pairwise_cons.mpr ⟨fun e he => (hby e he).1, horder⟩, ?_⟩
      exact List.forall_mem_cons.mpr ⟨⟨hgrows, hlocks⟩, hold⟩

theorem only_by_holder (h : w.Recorded c) : w.OnlyByHolder c := by
  have hw := h.orderly
  have hval := h.value_eq
  obtain ⟨horder, hby⟩ := h.edits
  constructor
  case value_eq => exact hval
  case inLockOrder => exact horder
  case byHolder => exact hby
  case overwrites => exact hw.value?_turn
  case changes_only => exact fun ha ht => hw.changes_only ht ha
  case edits_by =>
    intro k m p ha he
    obtain ⟨q, hq⟩ := locks_of_edit ha he
    exact ⟨q, hq, fun q' u hq' => hw.locks_unique hq' hq⟩
  case read_guard =>
    intro g s m o f hs hl hf
    obtain ⟨p, hp, hof⟩ := hw.valueOf_of_lock (q := .guard g) hs hl
    refine ⟨p, by rw [← hval, hp], fun t => ?_⟩
    rw [start_reading hs hf, hof]
    rfl
  case read_result =>
    intro r s g m hs hc hl
    obtain ⟨p, hp, hof⟩ := hw.valueOf_of_lock (guardAt_result hs (inner_of_content hc)) hl
    refine ⟨p, by rw [← hval, hp], fun t => ?_⟩
    rw [start_read_result hs hc, hof]
    rfl
  case finish =>
    intro t a ha hv
    rw [← hval]
    exact hw.finish_reply ha hv
  case unlocked_guard =>
    intro g s o hs hl ho t
    have hat : w.guardAt (.guard g) = some ⟨s.thread, s.held⟩ := hs
    obtain ho | ⟨p, rfl⟩ := ho
    · obtain ⟨f, hf⟩ := Option.ne_none_iff_exists'.mp ho
      rw [start_reading hs hf, hw.valueOf_of_unlocked hat hl]
      rfl
    · rw [start_write hs, hw.writeThrough_of_unlocked hat hl]
  case unlocked_result =>
    intro r s g o hs hc hl ho t
    have hat := guardAt_result hs (inner_of_content hc)
    obtain rfl | ⟨p, rfl⟩ := ho
    · rw [start_read_result hs hc, hw.valueOf_of_unlocked hat hl]
      rfl
    · rw [start_write_result hs hc, hw.writeThrough_of_unlocked hat hl]
  case unlocked_text =>
    intro g s hs hl
    simp [display, hw.valueOf_of_unlocked (q := .guard g) hs hl, Except.map]

/-- One thread writes and gives up the lock; the other one reads what it wrote, and the first one
has no access any more. -/
theorem only_by_holder_after_handover : ∃ (w : World 2) (c : Chronicle 2), w.Recorded c ∧
    w.OnlyByHolder c ∧ c.latest? "m" = some (.int 5) ∧ c.edits.map (·.thread) = [0] ∧
    w.start 1 (.result "s" .read) = .ok (w, some (.value (.int 5))) ∧
    w.start 0 (.guard "g" .read) = .ok (w, some (.misuse .accessWithoutLock)) := by
  have h₁ := (Recorded.initial (n := 2)).turn (k := .start 0 (.mutex "m" (.create (.int 0))))
    rfl rfl
  have h₂ := h₁.turn (k := .start 0 (.mutex "m" (.lock "r"))) ⟨nofun, fun u => nofun⟩ rfl
  have h₃ := h₂.turn (k := .finish 0) trivial rfl
  have h₄ := h₃.turn (k := .start 0 (.result "r" (.write (.int 5)))) (by rintro s ⟨⟩; rfl) rfl
  have h₅ := h₄.turn (k := .start 0 (.result "r" (.content "g"))) ⟨by rintro s ⟨⟩; rfl, nofun⟩ rfl
  have h₆ := h₅.turn (k := .start 0 (.guard "g" .release)) (by rintro s ⟨⟩; rfl) rfl
  have h₇ := h₆.turn (k := .start 1 (.mutex "m" (.lock "s"))) ⟨nofun, by decide⟩ rfl
  have h := h₇.turn (k := .finish 1) trivial rfl
  have honly := h.only_by_holder
  obtain ⟨p, hp, hread⟩ := honly.read_result (r := "s") rfl rfl rfl
  have hfive : some p = some (.int 5) := hp.symm
  obtain rfl := Option.some.inj hfive
  exact ⟨_, _, h, honly, rfl, rfl, hread 1,
    honly.unlocked_guard (g := "g") (o := .read) rfl rfl (.inl nofun) 0⟩

end Recorded
end World
end Guarded
end CheckedLock
