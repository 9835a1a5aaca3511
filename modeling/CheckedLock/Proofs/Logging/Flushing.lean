import CheckedLock.Proofs.Logging.Ticket

/-! Flushing. A ticket is honoured when all that came into the queue before it is done, so whoever
waits for it can rely on that; and what the worker has taken from the queue, it honours. -/
namespace CheckedLock
namespace Logging
namespace System

variable {τ κ σ : Type} {o : Outlet τ σ} [DecidableEq τ] {react : κ → String → Reaction κ}
  {s s' s₁ : System τ κ σ} {a : Agent τ}

/-- Whenever a ticket was honoured, all the commands up to its own were done. -/
theorem Reachable.honoured {store : σ} {todo : τ → List (Call κ)}
    (hr : Reachable o react (System.start store todo) s) :
    ∀ t ∈ s.logger.honoured, ∃ cs, s.logger.Handled o cs ∧ .flush t ∈ cs := by
  induction hr with
  | start => exact nofun
  | @step s s' x hr hs ih =>
    intro t ht
    by_cases hold : t ∈ s.logger.honoured
    · obtain ⟨cs, hcs, hmem⟩ := ih t hold
      exact ⟨cs, hcs.extends (step_extends hs), hmem⟩
    · -- it is honoured in this step, so it is the worker's and nothing is left to report
      have hdue : s'.logger.due = [] := by
        obtain ⟨a, c, g, -, hm, rfl⟩ | ⟨g, -, hm, rfl⟩ | ⟨c, g, -, hm, rfl⟩ := step_cases hs
        · exact absurd (hm.extends.2 ▸ ht) hold
        · exact hm.honours.resolve_left fun hh => hold (hh ▸ ht)
        · exact absurd (by cases hm <;> exact ht) hold
      have hr' := hr.step x hs
      obtain ⟨done, xs, last, hacc⟩ := hr'.account
      have hsplit := hr'.docket
      rw [Logger.tickets, hacc.queued, List.filterMap_append, Logger.docket] at hsplit
      refine ⟨done, hacc.handled_done hdue, Command.flush_mem ?_⟩
      rw [List.append_cancel_right hsplit]
      exact List.mem_append_left _ (List.mem_reverse.mpr ht)

/-- Call number `k` of `a`, a flush with this ticket, is under way, or it is over. -/
def Flushes (s : System τ κ σ) (a : Agent τ) (k t : Nat) : Prop :=
  ((s.callers a).serial = k ∧ (s.callers a).place.flush? = some t) ∨
    ((s.callers a).HasReturned k ∧ (s.logger.requested = true ∨ t ∈ s.logger.honoured))

theorem Begins.flushes (h : s.Begins o react a .flush s') :
    s'.Flushes a ((s.callers a).serial + 1) s.logger.nextTicket := by
  obtain ⟨rest, c, g, hb, rfl⟩ := h.eq
  simp only [Logger.begin] at hb
  split at hb
  case isTrue hq =>
    cases hb
    exact .inr ⟨.inr ⟨by simp, by simp⟩, .inl hq⟩
  case isFalse =>
    cases hb
    refine .inl ⟨by simp, ?_⟩
    rw [setCaller_self]
    rfl

theorem Flushes.step {k t : Nat} (h : s.Flushes a k t) {x : Actor τ}
    (hs : s.step o react x = some s') : s'.Flushes a k t := by
  have hext := step_extends hs
  obtain ⟨hk, ht⟩ | ⟨hk, hdone⟩ := h
  · obtain hm | ⟨hp, hn⟩ := step_view hs a
    · obtain ⟨hn, hc | ⟨hidle, hdone⟩⟩ := hm.flush ht
      · exact .inl ⟨hn.trans hk, hc⟩
      · exact .inr ⟨.inr ⟨hk.symm.trans hn.symm, hidle⟩,
          hdone.imp hext.requested (@hext.honoured _)⟩
    · exact .inl ⟨hn.trans hk, by rw [hp]; exact ht⟩
  · exact .inr ⟨(Reachable.start.step x hs).hasReturned hk,
      hdone.imp hext.requested (@hext.honoured _)⟩

/-- A flush that returns while the queue is open has waited for all that was queued before it. -/
theorem Begins.waits {store : σ} {todo : τ → List (Call κ)}
    (hr : Reachable o react (System.start store todo) s) (hb : s.Begins o react a .flush s₁)
    (hrun : Reachable o react s₁ s') (hret : (s'.callers a).HasReturned ((s.callers a).serial + 1))
    (hopen : s'.logger.requested = false) : s'.logger.Handled o s.logger.queued := by
  have hrest : Reachable o react s s' := (Reachable.start.step _ hb.step).trans hrun
  obtain ⟨hk, ht⟩ | ⟨-, hq | ht⟩ :=
      hrun.preserves (p := fun u => u.Flushes a _ _) (fun h hs => h.step hs) hb.flushes
  · obtain hlt | ⟨-, hidle⟩ := hret
    · exact absurd hk (Nat.ne_of_gt hlt)
    · rw [hidle] at ht
      cases ht
  · rw [hopen] at hq
    cases hq
  · obtain ⟨cs, hcs, hmem⟩ := (hr.trans hrest).honoured _ ht
    -- the ticket was new when the call began
    have hnew : ¬ cs <+: s.logger.queued := fun hp =>
      Nat.lt_irrefl _ (hr.ticketed.drawn _ (Command.mem_tickets (hp.subset hmem)))
    exact hcs.of_prefix
      ((List.prefix_or_prefix_of_prefix hrest.extends.queued hcs.1).resolve_right hnew)

/-- The worker's steps are enough, whatever the others do in between. -/
theorem taken_runs {t : Nat} {xs : List (Actor τ)} (ht : s.logger.Taken t)
    (hrun : s.runs o react xs = some s') : t ∈ s'.logger.honoured ∨
      (s'.logger.Taken t ∧ s'.logger.worker.toil + xs.count .worker ≤ s.logger.worker.toil) := by
  induction xs generalizing s with
  | nil =>
    cases hrun
    exact .inr ⟨ht, Nat.le_refl _⟩
  | cons x rest ih =>
    obtain ⟨u, hs, hrest⟩ := Option.bind_eq_some_iff.mp hrun
    have hkeeps : ∀ {g : Logger τ κ σ}, g.worker = s.logger.worker → x ≠ .worker →
        g.Taken t ∧ g.worker.toil + [x].count .worker ≤ s.logger.worker.toil := by
      intro g hw hx
      rw [Logger.Taken, hw, List.count_singleton, if_neg (by simpa using hx)]
      exact ⟨ht, Nat.le_refl _⟩
    have hfirst : t ∈ u.logger.honoured ∨ (u.logger.Taken t ∧
        u.logger.worker.toil + [x].count .worker ≤ s.logger.worker.toil) := by
      obtain ⟨a, c, g, rfl, hm, rfl⟩ | ⟨g, rfl, hm, rfl⟩ | ⟨c, g, rfl, hm, rfl⟩ := step_cases hs
      · exact .inr (hkeeps (hm.worker_of_taken ht) (by simp))
      · obtain hdone | ⟨ht', hless⟩ := hm.taken ht
        · exact .inl hdone
        · refine .inr ⟨ht', ?_⟩
          rw [List.count_singleton_self]
          exact hless
      · exact .inr (hkeeps hm.serves.1.worker (by simp))
    obtain hdone | ⟨ht', hle⟩ := hfirst
    · exact .inl ((Reachable.start.runs hrest).extends.honoured hdone)
    · obtain hdone | ⟨ht'', hle'⟩ := ih ht' hrest
      · exact .inl hdone
      · refine .inr ⟨ht'', ?_⟩
        rw [← List.singleton_append, List.count_append]
        omega

/-- The worker can take its step, when the dispatcher has let go of its lock. -/
theorem unhindered_of_taken {t : Nat} (ht : s.logger.Taken t) :
    (s.runs o react [.worker]).isSome = true ∨
      (s.runs o react [.dispatcher, .worker]).isSome = true := by
  obtain ⟨ha, he, -⟩ := ht.busy
  by_cases hd : s.logger.dispatcher = .dozing
  · refine .inr ?_
    simp only [System.runs, System.step, Logger.dispatcherStep_of_dozing hd, Option.map_some,
      Option.bind_some]
    obtain ⟨g, hg⟩ := Option.isSome_iff_exists.mp (Logger.workerStep_isSome (o := o)
      (g := { s.logger with dispatcher := .asleep }) ha he nofun)
    rw [hg]
    rfl
  · obtain ⟨g, hg⟩ := Option.isSome_iff_exists.mp (Logger.workerStep_isSome (o := o) ha he hd)
    refine .inl ?_
    rw [System.runs, System.step, hg]
    rfl

/-- A ticket that a thread waits for is honoured, or the worker has it before it. -/
theorem Reachable.awaited {store : σ} {todo : τ → List (Call κ)}
    (hr : Reachable o react (System.start store todo) s) {t : Nat}
    (hp : (s.callers a).place = .awaiting t) :
    t ∈ s.logger.honoured ∨ s.logger.Taken t ∨ .flush t ∈ s.logger.queue := by
  have hmem : t ∈ s.logger.tickets := hr.ticketed.sent a t (by rw [hp]; rfl)
  rw [hr.docket, Logger.docket, Logger.pending, List.filterMap_append] at hmem
  simp only [List.mem_append, List.mem_reverse, Option.mem_toList] at hmem
  obtain (hmem | hmem) | hmem | hmem := hmem
  · exact .inl hmem
  · exact .inr (.inl (.inr hmem))
  · exact .inr (.inl (.inl (Command.flush_mem hmem)))
  · exact .inr (.inr (Command.flush_mem hmem))

/-- A worker that has ended leaves nobody waiting. -/
theorem Reachable.honoured_of_exited {store : σ} {todo : τ → List (Call κ)}
    (hr : Reachable o react (System.start store todo) s) (hw : s.logger.worker = .exited) {t : Nat}
    (hp : (s.callers a).place = .awaiting t) : t ∈ s.logger.honoured := by
  obtain ⟨n, hn⟩ := hr.closing
  have hqueue : s.logger.queue = [] := (hn.drained (by rw [hw]; rfl)).2
  obtain ht | ht | ht := hr.awaited hp
  · exact ht
  · exact absurd hw ht.busy.2.1
  · rw [hqueue] at ht
    cases ht

/-- What a flush can be relied on for. -/
structure Flushed (o : Outlet τ σ) (react : κ → String → Reaction κ) (s : System τ κ σ) :
    Prop where
  /-- Tickets are honoured in the order of the queue; the one next to the honoured ones may be
  waiting for the report of its failure. -/
  order : s.logger.tickets = s.logger.docket
  once : s.logger.tickets.Nodup
  waiting : ∀ a t, (s.callers a).place = .awaiting t →
    t ∈ s.logger.honoured ∨ s.logger.Taken t ∨ .flush t ∈ s.logger.queue
  released : ∀ a t, (s.callers a).place = .awaiting t → t ∈ s.logger.honoured →
    ∃ s', s.step o react (.caller a) = some s' ∧ (s'.callers a).place = .idle
  ended : s.logger.worker = .exited → ∀ a t, (s.callers a).place = .awaiting t →
    t ∈ s.logger.honoured
  /-- A ticket that the worker has taken is honoured in so many of its steps, whatever the others do
  in between. -/
  taken : ∀ t, s.logger.Taken t → ∀ xs s', s.runs o react xs = some s' →
    s.logger.worker.toil ≤ xs.count .worker → t ∈ s'.logger.honoured
  unhindered : ∀ t, s.logger.Taken t → (s.runs o react [.worker]).isSome = true ∨
    (s.runs o react [.dispatcher, .worker]).isSome = true
  /-- When a flush returns and the queue is open, all that was queued before it is done, and so is
  every message of a call that had returned before it. -/
  barrier : ∀ a s₁ s₂, s.Begins o react a .flush s₁ → Reachable o react s₁ s₂ →
    (s₂.callers a).HasReturned ((s.callers a).serial + 1) → s₂.logger.requested = false →
    s₂.logger.Handled o s.logger.queued ∧ ∀ r ∈ s.logger.admitted, ∀ b, r.author = .agent b →
      (s.callers b).HasReturned r.serial → .write r ∈ s.logger.queued ∧ s₂.logger.Disposed o r

theorem Reachable.flushed {store : σ} {todo : τ → List (Call κ)}
    (hr : Reachable o react (System.start store todo) s) : s.Flushed o react where
  order := hr.docket
  once := hr.ticketed.once
  waiting _ _ hp := hr.awaited hp
  released a t hp ht := by
    refine ⟨_, congrArg (Option.map _) (Logger.callerStep_of_honoured hp ht), ?_⟩
    rw [setCaller_self]
  ended hw _ _ hp := hr.honoured_of_exited hw hp
  taken t ht xs s' hrun hcount := by
    refine (taken_runs ht hrun).resolve_right fun ⟨ht', hle⟩ => ?_
    have := ht'.busy.2.2
    omega
  unhindered _ ht := unhindered_of_taken ht
  barrier a s₁ s₂ hb hrun hret hopen := by
    have hhandled := hb.waits hr hrun hret hopen
    have hopen' : s.logger.requested = false := Bool.eq_false_iff.mpr fun hq =>
      Bool.eq_false_iff.mp hopen
        (((Reachable.start.step _ hb.step).trans hrun).extends.requested hq)
    refine ⟨hhandled, fun r hadm b hby hret' => ?_⟩
    have hmem := hr.queued_of_returned hopen' hadm hby hret'
    exact ⟨hmem, hhandled.disposed hmem⟩

/-- Files are written to but cannot be flushed. -/
def clogged : Outlet Bool Unit where
  openLog _ _ := .ok ()
  write _ _ _ := .ok ()
  flush _ sink := match sink with
    | .console => .ok ()
    | .file _ _ => .error "flush failed"

/-- One thread logs to a file and flushes, the other logs. -/
def errands : System Bool Unit Unit := System.start () fun t =>
  if t then [.log .info "2"] else [.logfile "a.log" false, .log .info "1", .flush]

/-- The flush fails, is reported, and returns when both messages are written. -/
theorem flushed_in_vain : ∃ s s₁ s₂, Reachable clogged (fun _ _ => ⟨[], none⟩) errands s ∧
    s.Begins clogged (fun _ _ => ⟨[], none⟩) (.thread false) .flush s₁ ∧
    Reachable clogged (fun _ _ => ⟨[], none⟩) s₁ s₂ ∧
    (s₂.callers (.thread false)).HasReturned 3 ∧
    s.logger.admitted = [⟨.agent (.thread false), 2, .info, "1"⟩,
      ⟨.agent (.thread true), 1, .info, "2"⟩] ∧
    (∀ r ∈ s.logger.admitted, s₂.logger.Disposed clogged r) ∧
    s₂.logger.told Event.line? = [.wrote (.file "a.log" false) (.switched .console),
      .wrote (.file "a.log" false) ⟨.agent (.thread false), 2, .info, "1"⟩,
      .wrote (.file "a.log" false) ⟨.agent (.thread true), 1, .info, "2"⟩,
      .printed "Logger worker error: flush failed"] := by
  let first : Actor Bool := .caller (.thread false)
  let second : Actor Bool := .caller (.thread true)
  have hruns : (errands.runs clogged (fun _ _ => ⟨[], none⟩)
      (List.replicate 8 first ++ List.replicate 4 second)).any (fun s =>
        decide (s.logger.admitted = [⟨.agent (.thread false), 2, .info, "1"⟩,
          ⟨.agent (.thread true), 1, .info, "2"⟩]) &&
        decide ((s.callers (.thread false)).serial = 2 ∧ (s.callers (.thread true)).serial = 1) &&
        decide ((s.callers (.thread false)).place = .idle) &&
        decide ((s.callers (.thread true)).place = .idle) &&
        decide ((s.callers (.thread false)).todo = [.flush]) &&
        (s.step clogged (fun _ _ => ⟨[], none⟩) first).any fun s₁ =>
          (s₁.runs clogged (fun _ _ => ⟨[], none⟩)
            (List.replicate 4 first ++ List.replicate 6 .worker ++ [first])).any fun s₂ =>
            decide ((s₂.callers (.thread false)).serial = 3 ∧
              (s₂.callers (.thread false)).place = .idle) &&
            !s₂.logger.requested &&
            decide (s₂.logger.told Event.line? = [
              .wrote (.file "a.log" false) (.switched .console),
              .wrote (.file "a.log" false) ⟨.agent (.thread false), 2, .info, "1"⟩,
              .wrote (.file "a.log" false) ⟨.agent (.thread true), 1, .info, "2"⟩,
              .printed "Logger worker error: flush failed"])) = true := by decide +kernel
  obtain ⟨s, hrun, hs⟩ := (Option.any_eq_true _ _).mp hruns
  simp only [Bool.and_eq_true, decide_eq_true_eq] at hs
  obtain ⟨⟨⟨⟨⟨hadm, hserial, hserial'⟩, hidle⟩, hidle'⟩, htodo⟩, hs⟩ := hs
  obtain ⟨s₁, hstep, hs⟩ := (Option.any_eq_true _ _).mp hs
  obtain ⟨s₂, hrest, hs⟩ := (Option.any_eq_true _ _).mp hs
  simp only [Bool.and_eq_true, decide_eq_true_eq, Bool.not_eq_true'] at hs
  obtain ⟨⟨⟨hk, hdone⟩, hopen⟩, hlines⟩ := hs
  have hreach : Reachable clogged _ errands s := Reachable.start.runs hrun
  have hbegins : s.Begins clogged (fun _ _ => ⟨[], none⟩) (.thread false) .flush s₁ :=
    ⟨hidle, ⟨[], htodo⟩, hstep⟩
  have hreach' : Reachable clogged (fun _ _ => ⟨[], none⟩) s₁ s₂ := Reachable.start.runs hrest
  have hret : (s₂.callers (.thread false)).HasReturned 3 := .inr ⟨hk.symm, hdone⟩
  have hbarrier := ((Reachable.flushed hreach).barrier _ s₁ s₂ hbegins hreach'
    (by rw [hserial]; exact hret) hopen).2
  refine ⟨s, s₁, s₂, hreach, hbegins, hreach', hret, hadm, ?_, hlines⟩
  intro r hr
  have hr' := hr
  rw [hadm] at hr'
  rcases List.mem_pair.mp hr' with rfl | rfl
  · exact (hbarrier _ hr _ rfl (.inr ⟨hserial.symm, hidle⟩)).2
  · exact (hbarrier _ hr _ rfl (.inr ⟨hserial'.symm, hidle'⟩)).2

end System
end Logging
end CheckedLock
