import CheckedLock.Proofs.Logging.Synchrony
import Mathlib.Data.List.Basic

/-! What a single caller gets from the logger: the files, the error stream and the calls of handlers
that it would get if each call had its effect at once. -/
namespace CheckedLock
namespace Logging

variable {κ σ : Type}

namespace Output

/-- `v'` is `v` with some outcomes more. -/
def Gains (v v' : Output κ σ) (ys : List (Outcome Unit κ)) : Prop :=
  v'.lines = v.lines ++ ys.filterMap Outcome.line? ∧
    v'.invoked = v.invoked ++ ys.filterMap Outcome.post?

/-- A message was given to a sink: it is there, or the failure was reported once. -/
def Puts (v v' : Output κ σ) (s : Sink) (r : Record Unit) : Prop :=
  v'.sink = s ∧ (v.Gains v' [.wrote s r] ∨
    ∃ text, v.Gains v' [.refused s r, v.toDesk.report (Logger.workerError text)])

theorem gains_report (v : Output κ σ) (message : String) :
    v.Gains (v.report message) [v.toDesk.report message] ∧ (v.report message).sink = v.sink := by
  unfold report Desk.report
  cases v.handler with
  | none => exact ⟨⟨rfl, (List.append_nil _).symm⟩, rfl⟩
  | some h => exact ⟨⟨(List.append_nil _).symm, rfl⟩, rfl⟩

theorem puts_write (o : Outlet Unit σ) (v : Output κ σ) (r : Record Unit) :
    v.Puts (v.write o r) v.sink r := by
  unfold write
  cases hw : o.write v.store v.sink r with
  | ok x => exact ⟨rfl, .inl ⟨rfl, (List.append_nil _).symm⟩⟩
  | error text =>
    obtain ⟨⟨hlines, hinvoked⟩, hsink⟩ :=
      gains_report (v.say (.refused v.sink r)) (Logger.workerError text)
    refine ⟨hsink, .inr ⟨text, ?_, hinvoked⟩⟩
    rw [hlines]
    exact List.append_assoc _ _ _

end Output

namespace Direct

/-- What calls do at once, before the shutdown. -/
structure AtOnce (o : Outlet Unit σ) (d : Direct κ σ) : Prop where
  /-- A message comes to the sink if it is neither below `trace` nor below the level of the moment,
  else nothing comes of it. -/
  log : ∀ l body, if Level.trace.rank ≤ l.rank ∧ d.threshold.rank ≤ l.rank
    then d.output.Puts (d.call o (.log l body)).output d.output.sink
      ⟨.agent (.thread ()), d.serial + 1, l, body⟩
    else (d.call o (.log l body)).output = d.output
  /-- A file that cannot be opened is reported once, and the sink stays. -/
  kept : ∀ path exclusive reason, o.openLog d.output.store path = .error reason →
    (d.call o (.logfile path exclusive)).output.sink = d.output.sink ∧
      d.output.Gains (d.call o (.logfile path exclusive)).output
        [d.output.toDesk.report (Sink.openFailure path reason)]
  /-- A new sink begins with a message that names the old one. -/
  file : ∀ path exclusive x, o.openLog d.output.store path = .ok x →
    d.output.Puts (d.call o (.logfile path exclusive)).output (.file path exclusive)
      (.switched d.output.sink)
  console : d.output.Puts (d.call o .console).output .console (.switched d.output.sink)

theorem atOnce {o : Outlet Unit σ} {Opened : σ → Sink → Prop} (hs : o.Steady Opened)
    {d : Direct κ σ} (hd : d.closed = false) : d.AtOnce o where
  log l body := by
    have hpass := Level.passes_iff l d.threshold
    split
    case isTrue hl =>
      have hcall : (d.call o (.log l body)).output =
          d.output.write o ⟨.agent (.thread ()), d.serial + 1, l, body⟩ := by
        simp [call, effect, hpass.mpr hl, submit, Output.submit, hd, Output.exec]
      rw [hcall]
      exact Output.puts_write o d.output _
    case isFalse hl =>
      have hdrop : l.passes d.threshold = false := Bool.eq_false_iff.mpr fun h => hl (hpass.mp h)
      simp [call, effect, hdrop]
  kept path exclusive reason h := by
    have hcall : (d.call o (.logfile path exclusive)).output =
        d.output.report (Sink.openFailure path reason) := by
      simp [call, effect, h, submit, Output.submit, hd, Output.exec]
    rw [hcall]
    exact (Output.gains_report d.output _).symm
  file path exclusive x h := by
    have hcall : (d.call o (.logfile path exclusive)).output =
        ({ d.output with store := x, sink := .file path exclusive } : Output κ σ).write o
          (.switched d.output.sink) := by
      simp [call, effect, h, submit, Output.submit, hd, Output.exec, Output.select_eq hs]
    rw [hcall]
    exact Output.puts_write o { d.output with store := x, sink := .file path exclusive } _
  console := by
    have hcall : (d.call o .console).output =
        ({ d.output with sink := .console } : Output κ σ).write o (.switched d.output.sink) := by
      simp [call, effect, submit, Output.submit, hd, Output.exec, Output.select_eq hs]
    rw [hcall]
    exact Output.puts_write o { d.output with sink := .console } _

end Direct

namespace System

variable {o : Outlet Unit σ} {Opened : σ → Sink → Prop} {store : σ} {calls : List (Call κ)}
  {s : System Unit κ σ}

/-- Any calls of the only caller, with a shutdown at the end, and any order of the threads' steps:
in the end the files, the error stream and the calls of handlers are those of the calls made at
once. -/
theorem Reachable.synchronous (hsteady : o.Steady Opened)
    (hr : Reachable o taciturn (System.start store fun _ => calls ++ [.shutdown]) s)
    (hdone : ∀ a, (s.callers a).finished = true) :
    s.logger.store = ((Direct.start store).calls o (calls ++ [.shutdown])).output.store ∧
    (∀ stamp, s.logger.told (Event.text? stamp) =
      ((Direct.start store).calls o (calls ++ [.shutdown])).errorLines stamp) ∧
    s.logger.invocations = ((Direct.start store).calls o (calls ++ [.shutdown])).output.invoked ∧
    ∀ d : Direct κ σ, d.closed = false → d.AtOnce o := by
  obtain ⟨begun, hbegun, hmirrors⟩ := hr.mirrors hsteady
  obtain ⟨n, hn⟩ := hr.closing
  obtain rfl : n = 7 := hn.complete (hr.asked ⟨(), by simp⟩) hdone
  have hidle : s.caller.todo = [] ∧ s.caller.place = .idle := Caller.idle_of_finished (hdone _)
  have hworker : s.logger.worker = .exited := hn.joined (by decide)
  have hqueue : s.logger.queue = [] := (hn.drained (by rw [hworker]; rfl)).2
  have hposts : s.logger.posts = [] := (hn.delivered (hn.dispatched (by decide))).2
  obtain rfl : begun = calls ++ [.shutdown] := by rw [hbegun, hidle.1, List.append_nil]
  have hout : s.logger.output =
      ((Direct.start store).calls o (calls ++ [.shutdown])).output := by
    rw [← hmirrors.output, Logger.outlook, hidle.2]
    simp [Place.command?, Logger.prospect, Logger.reportMade, Logger.pending, hworker, hqueue,
      WorkerPlace.batch, Output.execAll]
  refine ⟨congrArg (·.store) hout, fun stamp => ?_, ?_, fun d hd => Direct.atOnce hsteady hd⟩
  · have hlines : s.logger.told Event.output? = _ := congrArg (·.lines) hout
    rw [Direct.errorLines, ← hlines, Logger.told, Logger.told, List.filterMap_reverse,
      List.filterMap_filterMap]
    exact congrArg List.reverse
      (List.filterMap_congr fun e he => Event.text?_eq (hr.undisturbed.plain e he) stamp)
  · have hinvoked : s.logger.invocations ++ s.logger.posts = _ := congrArg (·.invoked) hout
    rwa [hposts, List.append_nil] at hinvoked

/-- A file, a path that cannot be opened, a device without room, and the console again. -/
def tour : List (Call Unit) :=
  [.logfile "a.log" false, .log .info "1", .onError (some ()), .logfile "no/x" false,
    .logfile "/dev/full" true, .log .warn "2", .log .debug "-", .console, .log .error "3"]

/-- The worker takes the first two commands early and the rest after the shutdown. -/
theorem synchronous_in_two_batches : ∃ s : System Unit Unit LogFiles,
    Reachable fileOutlet taciturn
      (System.start (FileStore.initial []) fun _ => tour ++ [.shutdown]) s ∧
    s.logger.store.own = [("a.log", ⟨"", [⟨.agent (.thread ()), 2, .info, "1"⟩,
      .switched .console]⟩)] ∧
    s.logger.told (Event.text? ⟨"T", fun _ => 7⟩) =
      ["[T] [SYSTEM] [    7] Log sink switched from: File: /dev/full\n",
        "[T] [ERROR ] [    7] 3\n"] ∧
    s.logger.invocations =
      [((), "Failed to create FileSink: Failed to open log file 'no/x': No such file or directory"),
        ((), "Logger worker error: Short write to log file '/dev/full'"),
        ((), "Logger worker error: Short write to log file '/dev/full'")] := by
  let me : Actor Unit := .caller (.thread ())
  have hruns : ((System.start (FileStore.initial []) fun _ => tour ++ [.shutdown] :
      System Unit Unit LogFiles).runs fileOutlet taciturn
      (List.replicate 8 me ++ List.replicate 3 .worker ++ List.replicate 28 me ++
        List.replicate 20 .worker ++ List.replicate 3 me ++ List.replicate 7 .dispatcher ++
        [me, me])).any (fun s => s.caller.finished && (s.callers .dispatcher).finished) = true := by
    decide +kernel
  obtain ⟨s, hrun, hs⟩ := (Option.any_eq_true _ _).mp hruns
  obtain ⟨hcaller, hdisp⟩ := (Bool.and_eq_true _ _).mp hs
  have hdone : ∀ a, (s.callers a).finished = true := by
    rintro (_ | _)
    · exact hcaller
    · exact hdisp
  have hreach := Reachable.start.runs hrun
  obtain ⟨hstore, htext, hinvoked, -⟩ := Reachable.synchronous steady_fileOutlet hreach hdone
  refine ⟨s, hreach, ?_, ?_, ?_⟩
  · rw [hstore]
    decide +kernel
  · rw [htext]
    decide +kernel
  · rw [hinvoked]
    decide +kernel

/-- A level below `trace` can be set, but a message of that level does not come out. -/
theorem message_below_trace_unwritten : ∃ s : System Unit Unit LogFiles,
    Reachable fileOutlet taciturn
      (System.start (FileStore.initial []) fun _ => [.setLevel ⟨-5⟩, .log ⟨-1⟩ "x", .shutdown]) s ∧
    (∀ a, (s.callers a).finished = true) ∧ (⟨-5⟩ : Level).rank ≤ (⟨-1⟩ : Level).rank ∧
    s.logger.threshold = ⟨-5⟩ ∧ s.logger.told Event.output? = [] := by
  let me : Actor Unit := .caller (.thread ())
  have hruns : ((System.start (FileStore.initial []) fun _ =>
      [.setLevel ⟨-5⟩, .log ⟨-1⟩ "x", .shutdown] : System Unit Unit LogFiles).runs fileOutlet
      taciturn
      (List.replicate 5 me ++ [.worker, .worker, me, me, me, .dispatcher, me, me])).any
        (fun s => s.caller.finished && (s.callers .dispatcher).finished &&
          decide (s.logger.threshold = ⟨-5⟩ ∧ s.logger.told Event.output? = [])) = true := by
    decide +kernel
  obtain ⟨s, hrun, hs⟩ := (Option.any_eq_true _ _).mp hruns
  simp only [Bool.and_eq_true, decide_eq_true_eq] at hs
  obtain ⟨⟨hcaller, hdisp⟩, hlevel, hnone⟩ := hs
  refine ⟨s, Reachable.start.runs hrun, ?_, by decide, hlevel, hnone⟩
  rintro (_ | _)
  · exact hcaller
  · exact hdisp

end System
end Logging
end CheckedLock
