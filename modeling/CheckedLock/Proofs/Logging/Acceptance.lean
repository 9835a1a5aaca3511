import CheckedLock.Proofs.Logging.Traffic
import Mathlib.Data.List.Basic
import Mathlib.Data.List.Nodup

/-! Messages up to the queue. Each message that got past its level is in the hands of its author
until it is queued or printed, in the author's order; what was queued was queued before anything was
printed. -/
namespace CheckedLock
namespace Logging

variable {τ κ σ : Type}

namespace Event

theorem accepted_of_no_fallback {es : List (Event τ κ)} (h : es.filterMap fallback? = []) :
    es.filterMap accepted? = (es.filterMap queued?).filterMap Command.record? := by
  rw [List.filterMap_filterMap]
  refine List.filterMap_congr fun e he => ?_
  have hf := List.filterMap_eq_nil_iff.mp h e he
  cases e with
  | fallback r => cases hf
  | _ => rfl

theorem accepted_of_no_queued {es : List (Event τ κ)} (h : es.filterMap queued? = []) :
    es.filterMap accepted? = es.filterMap fallback? := by
  refine List.filterMap_congr fun e he => ?_
  have hq := List.filterMap_eq_nil_iff.mp h e he
  cases e with
  | queued c => cases hq
  | _ => rfl

end Event

variable [DecidableEq τ]

/-- Logged by this agent. -/
def Record.isBy (a : Agent τ) (r : Record τ) : Bool := decide (r.author = .agent a)

namespace Record

theorem isBy_iff {a : Agent τ} {r : Record τ} : r.isBy a = true ↔ r.author = .agent a :=
  decide_eq_true_iff

theorem filter_isBy_self {a : Agent τ} {rs : List (Record τ)} (h : ∀ r ∈ rs, r.author = .agent a) :
    rs.filter (isBy a) = rs :=
  List.filter_eq_self.mpr fun r hr => isBy_iff.mpr (h r hr)

theorem filter_isBy_ne {a b : Agent τ} {rs : List (Record τ)} (hab : a ≠ b)
    (h : ∀ r ∈ rs, r.author = .agent a) : rs.filter (isBy b) = [] := by
  refine List.filter_eq_nil_iff.mpr fun r hr hb => hab ?_
  have := (h r hr).symm.trans (isBy_iff.mp hb)
  simpa using this

end Record

namespace System

variable {o : Outlet τ σ} {react : κ → String → Reaction κ} {s₀ s s' : System τ κ σ}

/-- Where the messages are that have not come to the worker. -/
structure Accepting (s : System τ κ σ) : Prop where
  own : ∀ a, ∀ r ∈ (s.callers a).place.held, r.author = .agent a
  conserved : ∀ a, s.logger.accepted.filter (Record.isBy a) ++ (s.callers a).place.held =
    s.logger.admitted.filter (Record.isBy a)
  agents : ∀ r ∈ s.logger.accepted, r.author.isAgent = true
  split : s.logger.accepted = s.logger.queued.filterMap Command.record? ++ s.logger.fallen
  closed : s.logger.requested = false → s.logger.fallen = []
  authored : ∀ r ∈ s.logger.admitted, ∃ a, r.author = .agent a ∧ r.serial ≤ (s.callers a).serial
  distinct : s.logger.admitted.Nodup

theorem accepting_start (store : σ) (todo : τ → List (Call κ)) : (start store todo).Accepting where
  own := by
    rintro (t | _) <;> exact nofun
  conserved := by
    rintro (t | _) <;> rfl
  agents := nofun
  split := rfl
  closed := fun _ => rfl
  authored := nofun
  distinct := List.nodup_nil

namespace Accepting

/-- What the worker and the dispatcher do is no concern of the messages before the queue. -/
theorem bystands (h : s.Accepting) {g : Logger τ κ σ} {callers : Agent τ → Caller τ κ}
    {mine : Event τ κ → Bool} (hmine : ∀ e, mine e = true → e.isCallers = false)
    (hb : Logger.Bystands mine s.logger g) (hp : ∀ a, (callers a).place = (s.callers a).place)
    (hs : ∀ a, (callers a).serial = (s.callers a).serial) :
    (System.mk g callers).Accepting := by
  obtain ⟨es, hadds, hes'⟩ := hb.adds
  have hes : ∀ e ∈ es, e.isCallers = false := fun e he => hmine e (hes' e he)
  have hadm : g.admitted = s.logger.admitted :=
    hadds.told_eq fun e he => Event.admitted?_of_not_isCallers (hes e he)
  have hqueued : g.queued = s.logger.queued :=
    hadds.told_eq fun e he => Event.queued?_of_not_isCallers (hes e he)
  have hacc : g.accepted = s.logger.accepted :=
    hadds.told_eq fun e he => Event.accepted?_of_not_isCallers (hes e he)
  have hfallen : g.fallen = s.logger.fallen :=
    hadds.told_eq fun e he => Event.fallback?_of_not_isCallers (hes e he)
  exact {
    own := fun a => by simpa only [hp] using h.own a
    conserved := fun a => by simpa only [hp, hacc, hadm] using h.conserved a
    agents := by simpa only [hacc] using h.agents
    split := by simpa only [hacc, hqueued, hfallen] using h.split
    closed := by simpa only [hb.requested, hfallen] using h.closed
    authored := by simpa only [hadm, hs] using h.authored
    distinct := by simpa only [hadm] using h.distinct }

/-- A step of a caller. -/
theorem carries (h : s.Accepting) {a : Agent τ} {c : Caller τ κ} {g : Logger τ κ σ}
    {es : List (Event τ κ)} (hc : Logger.Carries a (s.callers a) s.logger c g es) :
    ({ s.setCaller a c with logger := g } : System τ κ σ).Accepting := by
  have hadm : g.admitted = s.logger.admitted ++ es.filterMap Event.admitted? := hc.adds.told _
  have hqueued : g.queued = s.logger.queued ++ es.filterMap Event.queued? := hc.adds.told _
  have hacc : g.accepted = s.logger.accepted ++ es.filterMap Event.accepted? := hc.adds.told _
  have hfallen : g.fallen = s.logger.fallen ++ es.filterMap Event.fallback? := hc.adds.told _
  -- everything this step handles is of the caller's own making
  have hmine : ∀ r ∈ es.filterMap Event.accepted? ++ c.place.held, r.author = .agent a := by
    rw [← hc.conserved]
    intro r hr
    exact (List.mem_append.mp hr).elim (h.own a r) (hc.author r)
  have hnew : ∀ r ∈ es.filterMap Event.accepted?, r.author = .agent a := fun r hr =>
    hmine r (List.mem_append_left _ hr)
  have hheld : ∀ r ∈ c.place.held, r.author = .agent a := fun r hr =>
    hmine r (List.mem_append_right _ hr)
  refine ⟨?_, ?_, ?_, ?_, ?_, ?_, ?_⟩
  · intro b
    by_cases hb : b = a
    · subst hb
      simpa using hheld
    · simpa [setCaller_ne s c hb] using h.own b
  · intro b
    rw [hacc, hadm, List.filter_append, List.filter_append, ← h.conserved b]
    by_cases hb : b = a
    · subst hb
      rw [Record.filter_isBy_self hnew, Record.filter_isBy_self hc.author, setCaller_self,
        List.append_assoc, List.append_assoc, hc.conserved]
    · rw [Record.filter_isBy_ne (Ne.symm hb) hnew, Record.filter_isBy_ne (Ne.symm hb) hc.author,
        setCaller_ne s c hb, List.append_nil, List.append_nil]
  · rw [hacc]
    intro r hr
    obtain hr | hr := List.mem_append.mp hr
    · exact h.agents r hr
    · rw [hnew r hr]
      rfl
  · obtain ⟨hopen, hf⟩ | ⟨-, hq⟩ := hc.gate
    · rw [hacc, hqueued, hfallen, h.split, h.closed hopen, hf, Event.accepted_of_no_fallback hf]
      simp
    · rw [hacc, hqueued, hfallen, h.split, hq, Event.accepted_of_no_queued hq]
      simp
  · intro hopen
    have hopen' : s.logger.requested = false :=
      Bool.eq_false_iff.mpr fun hr => Bool.eq_false_iff.mp hopen (hc.requested hr)
    obtain ⟨-, hf⟩ | ⟨hr, -⟩ := hc.gate
    · rw [hfallen, h.closed hopen', hf, List.append_nil]
    · rw [hopen'] at hr
      cases hr
  · intro r hr
    rw [hadm] at hr
    obtain hr | hr := List.mem_append.mp hr
    · obtain ⟨b, hb, hle⟩ := h.authored r hr
      refine ⟨b, hb, ?_⟩
      by_cases hba : b = a
      · subst hba
        simpa using Nat.le_trans hle hc.serial_le
      · simpa [setCaller_ne s c hba] using hle
    · exact ⟨a, hc.author r hr, by simpa using Nat.le_of_eq (hc.serial r hr).2⟩
  · rw [hadm]
    refine List.nodup_append.mpr ⟨h.distinct, ?_, ?_⟩
    · match hes : es.filterMap Event.admitted?, hc.single with
      | [], _ => exact List.nodup_nil
      | [r], _ => exact List.nodup_singleton r
    · rintro r hr _ hr' rfl
      -- an older message of this author has a smaller number
      obtain ⟨b, hb, hle⟩ := h.authored r hr
      have hba : b = a := by
        have := hb.symm.trans (hc.author r hr')
        simpa using this
      subst hba
      exact absurd hle (Nat.not_le.mpr (hc.serial r hr').1)

theorem step (h : s.Accepting) {x : Actor τ} (hs : s.step o react x = some s') :
    s'.Accepting := by
  obtain ⟨a, c, g, -, hm, rfl⟩ | ⟨g, -, hm, rfl⟩ | ⟨c, g, -, hm, rfl⟩ := step_cases hs
  · obtain ⟨es, hc⟩ := hm.carries
    exact h.carries hc
  · exact h.bystands (fun _ => Event.not_isCallers_of_isWorkers) hm.bystands (fun _ => rfl)
      fun _ => rfl
  · obtain ⟨hb, hp, hn⟩ := hm.bystands
    refine h.bystands (fun _ => Event.not_isCallers_of_isDispatchers) hb (fun a => ?_)
      fun a => ?_ <;>
      by_cases ha : a = .dispatcher <;> simp [setCaller, ha, hp, hn]

end Accepting

theorem Reachable.accepting {store : σ} {todo : τ → List (Call κ)}
    (hr : Reachable o react (System.start store todo) s) : s.Accepting := by
  induction hr with
  | start => exact accepting_start store todo
  | step x _ hs ih => exact ih.step hs

end System
end Logging
end CheckedLock
