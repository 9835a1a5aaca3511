import CheckedLock.Proofs.Logging.Acceptance
import CheckedLock.Proofs.Logging.Account

/-! No message is lost. When the threads are through and the shutdown is complete, every message
that got past its level was given to a sink or printed by its author, once, and each thread's in the
order in which it logged them. -/
namespace CheckedLock
namespace Logging

variable {τ κ σ : Type} {o : Outlet τ σ}

namespace Outcome

theorem given?_report (d : Desk κ) (message : String) :
    (d.report message : Outcome τ κ).given? = none := by
  unfold Desk.report
  split <;> rfl

/-- Reports do not count; lines show all the messages. -/
theorem given_of_lines (xs : List (Outcome τ κ)) :
    (xs.filterMap line?).filterMap given? = xs.filterMap given? := by
  rw [List.filterMap_filterMap]
  refine List.filterMap_congr fun x _ => ?_
  cases x <;> rfl

end Outcome

theorem Logger.given_eq (g : Logger τ κ σ) :
    g.given = (g.told Event.line?).filterMap Outcome.given? := by
  rw [Logger.given, Logger.told, Logger.told, List.filterMap_reverse, List.filterMap_filterMap]
  refine congrArg List.reverse (List.filterMap_congr fun e _ => ?_)
  cases e <;> rfl

namespace Desk

/-- A command gives its own message to a sink, if it has one. -/
theorem Handles.given {d d' : Desk κ} {c : Command τ κ} {ys : List (Outcome τ κ)}
    (h : Handles o d c ys d') (hc : ∀ r ∈ c.record?, r.author.isAgent = true) :
    ys.filterMap Outcome.given? = c.record?.toList := by
  cases h with
  | @wrote r x x' hw => exact List.filterMap_cons_some (if_pos (hc r rfl))
  | @refused r x text hw =>
    have hr : (Outcome.refused d.sink r : Outcome τ κ).given? = some r := if_pos (hc r rfl)
    rw [List.filterMap_cons_some hr, List.filterMap_cons_none (Outcome.given?_report _ _)]
    rfl
  | switched | flushed | onError => rfl
  | unannounced =>
    rw [List.filterMap_cons_none rfl, List.filterMap_cons_none (Outcome.given?_report _ _)]
    rfl
  | kept | openFailed | unflushed => exact List.filterMap_cons_none (Outcome.given?_report _ _)

theorem HandlesAll.given {d d' : Desk κ} {cs : List (Command τ κ)} {xs : List (Outcome τ κ)}
    (h : HandlesAll o d cs xs d')
    (hc : ∀ r ∈ cs.filterMap Command.record?, r.author.isAgent = true) :
    xs.filterMap Outcome.given? = cs.filterMap Command.record? := by
  induction h with
  | none => rfl
  | @next cs xs d c ys d' hs h ih =>
    rw [List.filterMap_append] at hc
    have hfirst := ih fun r hr => hc r (List.mem_append_left _ hr)
    have hnext := h.given fun r hr => hc r (List.mem_append_right _ (by
      simpa using hr))
    rw [List.filterMap_append, List.filterMap_append, hfirst, hnext]
    cases hr : c.record? <;> simp [hr]

theorem Closes.given {d : Desk κ} {ys : List (Outcome τ κ)} (h : d.Closes o ys) :
    ys.filterMap Outcome.given? = [] := by
  cases h with
  | flushed => rfl
  | unflushed => exact List.filterMap_cons_none (Outcome.given?_report _ _)

end Desk

/-- Messages of agents that agree agent by agent are the same messages. -/
theorem Record.perm_of_filter_isBy [DecidableEq τ] {rs qs : List (Record τ)}
    (hrs : ∀ r ∈ rs, r.author.isAgent = true) (hqs : ∀ r ∈ qs, r.author.isAgent = true)
    (h : ∀ a, rs.filter (isBy a) = qs.filter (isBy a)) : rs.Perm qs := by
  refine List.perm_iff_count.mpr fun r => ?_
  cases ha : r.author with
  | worker =>
    have hnot : ∀ {l : List (Record τ)}, (∀ r ∈ l, r.author.isAgent = true) → r ∉ l := by
      intro l hl hr
      have := hl r hr
      rw [ha] at this
      cases this
    rw [List.count_eq_zero.mpr (hnot hrs), List.count_eq_zero.mpr (hnot hqs)]
  | agent a =>
    have hby : isBy a r = true := isBy_iff.mpr ha
    calc rs.count r = (rs.filter (isBy a)).count r := (List.count_filter hby).symm
      _ = (qs.filter (isBy a)).count r := by rw [h a]
      _ = qs.count r := List.count_filter hby

namespace System

variable [DecidableEq τ] {react : κ → String → Reaction κ} {s : System τ κ σ}

/-- How every message has ended. -/
structure Settled (o : Outlet τ σ) (s : System τ κ σ) : Prop where
  completed : s.logger.completed = true
  stopped : s.logger.worker = .exited ∧ s.logger.dispatcher = .exited
  drained : s.logger.queue = [] ∧ s.logger.posts = []
  distinct : s.logger.admitted.Nodup
  /-- Each message was given to a sink or printed, and not twice. -/
  handled : (s.logger.given ++ s.logger.fallen).Perm s.logger.admitted
  accepted : ∀ a, s.logger.accepted.filter (Record.isBy a) =
    s.logger.admitted.filter (Record.isBy a)
  /-- The sinks had a thread's messages in that order, up to the first that it printed. -/
  ordered : ∀ a, s.logger.given.filter (Record.isBy a) ++ s.logger.fallen.filter (Record.isBy a) =
    s.logger.admitted.filter (Record.isBy a)
  pushed : s.logger.given = s.logger.queued.filterMap Command.record?
  /-- Lines and reports are those of the commands; each failed write has its one report. -/
  reported : ∃ xs d last, Desk.HandlesAll o {} s.logger.queued xs d ∧ d.Closes o last ∧
    s.logger.told Event.line? = (xs ++ last).filterMap Outcome.line? ∧
    s.logger.invocations = (xs ++ last).filterMap Outcome.post?

/-- Any threads with any calls, among them a shutdown, in any order of steps: when all have
finished, everything is settled. -/
theorem Reachable.settled {store : σ} {todo : τ → List (Call κ)}
    (hr : Reachable o react (System.start store todo) s) (hask : ∃ t, .shutdown ∈ todo t)
    (hdone : ∀ a, (s.callers a).finished = true) : s.Settled o := by
  have hacc := hr.accepting
  obtain ⟨n, hn⟩ := hr.closing
  obtain ⟨done, xs, last, haccount⟩ := hr.account
  obtain rfl : n = 7 := hn.complete (hr.asked hask) hdone
  have hexited : s.logger.worker = .exited := hn.joined (by decide)
  have hdisp : s.logger.dispatcher = .exited := hn.dispatched (by decide)
  have hend := haccount.ended
  simp only [hexited, WorkerPlace.isGone, WorkerPlace.isLast, if_true] at hend
  have hdue : s.logger.due = [] := by simp [Logger.due, hexited]
  have hqueue : s.logger.queue = [] := (hn.drained (by rw [hexited]; rfl)).2
  have hposts : s.logger.posts = [] := (hn.delivered hdisp).2
  have hdone' : s.logger.queued = done := by rw [haccount.queued, hend.2, List.append_nil]
  have hlines : s.logger.told Event.line? = (xs ++ last).filterMap Outcome.line? := by
    simpa [Logger.worked, hdue] using haccount.worked
  have hcalls : s.logger.invocations = (xs ++ last).filterMap Outcome.post? := by
    simpa [Logger.posted, hdue, hposts] using haccount.posted
  have hagents : ∀ r ∈ done.filterMap Command.record?, r.author.isAgent = true := by
    intro r hr
    refine hacc.agents r ?_
    rw [hacc.split, hdone']
    exact List.mem_append_left _ hr
  have hgiven : s.logger.given = s.logger.queued.filterMap Command.record? := by
    rw [Logger.given_eq, hlines, Outcome.given_of_lines, List.filterMap_append,
      haccount.handled.given hagents, hend.1.given, List.append_nil, hdone']
  have hheld : ∀ a, (s.callers a).place.held = [] := by
    intro a
    rw [(Caller.idle_of_finished (hdone a)).2]
    rfl
  have horder : ∀ a, s.logger.accepted.filter (Record.isBy a) =
      s.logger.admitted.filter (Record.isBy a) := by
    intro a
    rw [← hacc.conserved a, hheld a, List.append_nil]
  have hsplit : s.logger.given ++ s.logger.fallen = s.logger.accepted := by
    rw [hgiven, hacc.split]
  exact {
    completed := hn.completed
    stopped := ⟨hexited, hdisp⟩
    drained := ⟨hqueue, hposts⟩
    distinct := hacc.distinct
    handled := by
      rw [hsplit]
      refine Record.perm_of_filter_isBy hacc.agents (fun r hr => ?_) horder
      obtain ⟨a, ha, -⟩ := hacc.authored r hr
      rw [ha]
      rfl
    accepted := horder
    ordered := fun a => by rw [← List.filter_append, hsplit, horder a]
    pushed := hgiven
    reported := ⟨xs, s.logger.desk, last, hdone' ▸ haccount.handled, hend.1, hlines, hcalls⟩ }

/-- A file with room for some messages. -/
def roomy : Outlet Bool Nat where
  openLog room _ := .ok room
  write room sink _ := match sink, room with
    | .console, _ => .ok room
    | .file _ _, 0 => .error sink.writeFailure
    | .file _ _, room + 1 => .ok room
  flush room _ := .ok room

/-- One thread logs to a file, the other shuts the logger down. -/
def latecomers : System Bool Unit Nat := System.start 2 fun t =>
  if t then [.shutdown]
  else [.logfile "a.log" false, .log .info "1", .log .info "2", .log .debug "-", .log .info "3"]

/-- The file has room for one of the first two messages; the third comes too late and is printed
before the worker has come to the first. -/
theorem settled_after_late_message : ∃ s,
    Reachable roomy (fun _ _ => ⟨[], none⟩) latecomers s ∧ s.Settled roomy ∧
    s.logger.given.map Record.body = ["1", "2"] ∧ s.logger.fallen.map Record.body = ["3"] ∧
    s.logger.told Event.line? = [.wrote (.file "a.log" false) (.switched .console),
      .wrote (.file "a.log" false) ⟨.agent (.thread false), 2, .info, "1"⟩,
      .refused (.file "a.log" false) ⟨.agent (.thread false), 3, .info, "2"⟩,
      .printed ("Logger worker error: " ++ Sink.writeFailure (.file "a.log" false))] := by
  let first : Actor Bool := .caller (.thread false)
  let second : Actor Bool := .caller (.thread true)
  have hruns : (latecomers.runs roomy (fun _ _ => ⟨[], none⟩)
      (List.replicate 15 first ++ [second, second, first, second] ++ List.replicate 8 .worker ++
        [second, second, second, .dispatcher, second, second])).any (fun s =>
      (s.callers (.thread false)).finished && (s.callers (.thread true)).finished &&
        (s.callers .dispatcher).finished &&
      decide (s.logger.given.map Record.body = ["1", "2"] ∧
        s.logger.fallen.map Record.body = ["3"] ∧
        s.logger.told Event.line? = [.wrote (.file "a.log" false) (.switched .console),
          .wrote (.file "a.log" false) ⟨.agent (.thread false), 2, .info, "1"⟩,
          .refused (.file "a.log" false) ⟨.agent (.thread false), 3, .info, "2"⟩,
          .printed ("Logger worker error: " ++ Sink.writeFailure (.file "a.log" false))])) =
      true := by decide +kernel
  obtain ⟨s, hrun, hs⟩ := (Option.any_eq_true _ _).mp hruns
  simp only [Bool.and_eq_true, decide_eq_true_eq] at hs
  obtain ⟨⟨⟨hfirst, hsecond⟩, hdisp⟩, hgiven, hfallen, hlines⟩ := hs
  have hreach : Reachable roomy _ latecomers s := Reachable.start.runs hrun
  have hdone : ∀ a, (s.callers a).finished = true := by
    rintro ((_ | _) | _)
    · exact hfirst
    · exact hsecond
    · exact hdisp
  have hsettled := Reachable.settled hreach ⟨true, List.mem_singleton.mpr rfl⟩ hdone
  exact ⟨s, hreach, hsettled, hgiven, hfallen, hlines⟩

end System
end Logging
end CheckedLock
