import CheckedLock.Proofs.Logging.Completion

/-! Reports of errors. Each error that the worker meets is reported once: to the handler that was
installed by the commands before it, or by a line for want of one. Handlers are called in the order
of the errors, whatever they throw, and all have run when the shutdown returns. -/
namespace CheckedLock
namespace Logging

variable {τ κ σ : Type} {o : Outlet τ σ}

theorem filterMap_through {α β γ : Type} {f : α → Option β} {g : β → Option γ} {k : α → Option γ}
    (h : ∀ x, (f x).bind g = k x) (xs : List α) :
    (xs.filterMap f).filterMap g = xs.filterMap k := by
  rw [List.filterMap_filterMap]
  exact List.filterMap_congr fun x _ => h x

/-- What went wrong with a command, and the line that a sink refused, if it was that. -/
structure Trouble (τ : Type) where
  message : String
  line : Option (Sink × Record τ) := none

def Command.installs (c : Command τ κ) (h : Option κ) : Option κ :=
  match c with
  | .onError k => k
  | _ => h

def installed (h : Option κ) (cs : List (Command τ κ)) : Option κ :=
  cs.foldl (fun h c => c.installs h) h

open Logger (workerError) in
/-- How a command can end while messages go to `sink`, by the answers of the outlet. -/
inductive Command.Meets (o : Outlet τ σ) (sink : Sink) : Command τ κ → Option (Trouble τ) → Prop
  | wrote {r x x'} (h : o.write x sink r = .ok x') : Meets o sink (.write r) none
  | refused {r x text} (h : o.write x sink r = .error text) :
    Meets o sink (.write r) (some ⟨workerError text, some (sink, r)⟩)
  | switched {s x x'} (h : o.write x s (.switched sink) = .ok x') : Meets o sink (.select s) none
  | unannounced {s x text} (h : o.write x s (.switched sink) = .error text) :
    Meets o sink (.select s) (some ⟨workerError text, some (s, .switched sink)⟩)
  | kept {s x text} (h : o.flush x sink = .error text) :
    Meets o sink (.select s) (some ⟨workerError text, none⟩)
  | openFailed {message} : Meets o sink (.openFailed message) (some ⟨message, none⟩)
  | flushed {ticket x x'} (h : o.flush x sink = .ok x') : Meets o sink (.flush ticket) none
  | unflushed {ticket x text} (h : o.flush x sink = .error text) :
    Meets o sink (.flush ticket) (some ⟨workerError text, none⟩)
  | onError {h} : Meets o sink (.onError h) none

/-- One report for each trouble, with the handler that is installed at that point. -/
def reports (h : Option κ) : List (Command τ κ × Option (Trouble τ)) → List (Option κ × String)
  | [] => []
  | (c, none) :: ds => reports (c.installs h) ds
  | (c, some e) :: ds => (h, e.message) :: reports (c.installs h) ds

def forHandler : Option κ × String → Option (κ × String)
  | (some h, message) => some (h, message)
  | (none, _) => none

def forNobody : Option κ × String → Option String
  | (some _, _) => none
  | (none, message) => some message

namespace Outcome

def report? : Outcome τ κ → Option (Option κ × String)
  | .printed message => some (none, message)
  | .posted h message => some (some h, message)
  | _ => none

def printed? : Outcome τ κ → Option String
  | .printed message => some message
  | _ => none

def refused? : Outcome τ κ → Option (Sink × Record τ)
  | .refused s r => some (s, r)
  | _ => none

@[simp] theorem report?_refused (s : Sink) (r : Record τ) :
    (.refused s r : Outcome τ κ).report? = none := rfl

@[simp] theorem refused?_refused (s : Sink) (r : Record τ) :
    (.refused s r : Outcome τ κ).refused? = some (s, r) := rfl

@[simp] theorem refused?_posted (h : κ) (message : String) :
    (.posted h message : Outcome τ κ).refused? = none := rfl

@[simp] theorem report?_report (d : Desk κ) (message : String) :
    (d.report message : Outcome τ κ).report? = some (d.handler, message) := by
  cases h : d.handler <;> simp [Desk.report, report?, h]

@[simp] theorem refused?_report (d : Desk κ) (message : String) :
    (d.report message : Outcome τ κ).refused? = none := by
  cases h : d.handler <;> simp [Desk.report, refused?, h]

end Outcome

namespace Event

def printed? : Event τ κ → Option String
  | .printed message => some message
  | _ => none

def refused? : Event τ κ → Option (Sink × Record τ)
  | .refused s r => some (s, r)
  | _ => none

def threw? : Event τ κ → Option String
  | .threw text => some text
  | _ => none

end Event

theorem installed_append (h : Option κ) (cs cs' : List (Command τ κ)) :
    installed h (cs ++ cs') = installed (installed h cs) cs' := List.foldl_append

theorem reports_append (h : Option κ) (ds es : List (Command τ κ × Option (Trouble τ))) :
    reports h (ds ++ es) = reports h ds ++ reports (installed h (ds.map Prod.fst)) es := by
  induction ds generalizing h with
  | nil => rfl
  | cons d ds ih =>
    obtain ⟨c, e⟩ := d
    have hnext : installed h (c :: ds.map Prod.fst) =
        installed (c.installs h) (ds.map Prod.fst) := rfl
    cases e <;> simp [reports, ih, hnext]

namespace Desk

theorem Handles.meets {d d' : Desk κ} {c : Command τ κ} {ys : List (Outcome τ κ)}
    (h : Handles o d c ys d') : ∃ e, c.Meets o d.sink e ∧ d'.handler = c.installs d.handler ∧
      ys.filterMap Outcome.report? = (e.map fun x => (d.handler, x.message)).toList ∧
      ys.filterMap Outcome.refused? = (e.bind (·.line)).toList := by
  cases h with
  | wrote hw => exact ⟨_, .wrote hw, rfl, rfl, rfl⟩
  | refused hw => exact ⟨_, .refused hw, rfl, by simp [List.filterMap_cons], by simp⟩
  | switched hw => exact ⟨_, .switched hw, rfl, rfl, rfl⟩
  | unannounced hw =>
    exact ⟨_, .unannounced hw, rfl, by simp [List.filterMap_cons], by simp⟩
  | kept hf => exact ⟨_, .kept hf, rfl, by simp, by simp⟩
  | openFailed => exact ⟨_, .openFailed, rfl, by simp, by simp⟩
  | flushed hf => exact ⟨_, .flushed hf, rfl, rfl, rfl⟩
  | unflushed hf => exact ⟨_, .unflushed hf, rfl, by simp, by simp⟩
  | onError => exact ⟨_, .onError, rfl, rfl, rfl⟩

/-- The outcomes `xs` of some commands, told command by command. -/
structure Explains (o : Outlet τ σ) (h : Option κ) (cs : List (Command τ κ))
    (xs : List (Outcome τ κ)) (ds : List (Command τ κ × Option (Trouble τ))) : Prop where
  commands : ds.map Prod.fst = cs
  meets : ∀ e ∈ ds, ∃ sink, e.1.Meets o sink e.2
  reports : xs.filterMap Outcome.report? = reports h ds
  refused : xs.filterMap Outcome.refused? = ds.filterMap fun e => e.2.bind (·.line)

theorem HandlesAll.explained {d₀ d : Desk κ} {cs : List (Command τ κ)} {xs : List (Outcome τ κ)}
    (h : HandlesAll o d₀ cs xs d) :
    d.handler = installed d₀.handler cs ∧ ∃ ds, Explains o d₀.handler cs xs ds := by
  induction h with
  | none => exact ⟨rfl, [], rfl, nofun, rfl, rfl⟩
  | @next cs xs d c ys d' hs hc ih =>
    obtain ⟨hd, ds, hcs, hmeets, hrep, href⟩ := ih
    obtain ⟨e, he, hd', hrep', href'⟩ := hc.meets
    refine ⟨?_, ds ++ [(c, e)], ?_, ?_, ?_, ?_⟩
    · rw [hd', hd, installed_append]
      rfl
    · simp [hcs]
    · intro x hx
      obtain hx | hx := List.mem_append.mp hx
      · exact hmeets x hx
      · obtain rfl := List.mem_singleton.mp hx
        exact ⟨_, he⟩
    · rw [List.filterMap_append, hrep, hrep', reports_append, hcs, ← hd]
      cases e <;> rfl
    · rw [List.filterMap_append, List.filterMap_append, href, href']
      cases hl : e.bind (·.line) <;> simp [hl]

end Desk

namespace Logger

variable {g g' : Logger τ κ σ} {done : List (Command τ κ)} {xs last : List (Outcome τ κ)}

def thrownBy (react : κ → String → Reaction κ) (p : κ × String) : Option String :=
  (react p.1 p.2).thrown

def throwing (g : Logger τ κ σ) : Option String :=
  match g.dispatcher with
  | .running thrown => thrown
  | _ => none

/-- Every error has its report; `ds` are the commands that the worker has taken, each with what went
wrong, and `last` is about the flush before the worker's end. -/
structure Answers (o : Outlet τ σ) (react : κ → String → Reaction κ) (g : Logger τ κ σ)
    (ds : List (Command τ κ × Option (Trouble τ))) (last : List (Option κ × String)) : Prop where
  taken : g.queued = ds.map Prod.fst ++ g.pending
  meets : ∀ e ∈ ds, ∃ sink, e.1.Meets o sink e.2
  refused : g.told Event.refused? = ds.filterMap fun e => e.2.bind (·.line)
  /-- Handlers that were called, those that wait, and the one that the worker turns to. -/
  calls : g.posted = (reports none ds ++ last).filterMap forHandler
  prints : g.told Event.printed? ++ g.due.filterMap Outcome.printed? =
    (reports none ds ++ last).filterMap forNobody
  last : last = [] ∨ g.worker.isGone = true ∧ ∃ x text, o.flush x g.sink = .error text ∧
    last = [(installed none (ds.map Prod.fst), "Logger final flush failed: " ++ text)]
  threw : g.told Event.threw? ++ g.throwing.toList = g.invocations.filterMap (thrownBy react)

structure Answered (o : Outlet τ σ) (react : κ → String → Reaction κ) (g : Logger τ κ σ)
    (ds : List (Command τ κ × Option (Trouble τ))) (last : List (Option κ × String)) : Prop where
  answers : g.Answers o react ds last
  commands : g.queued = ds.map Prod.fst
  calls : g.invocations = (reports none ds ++ last).filterMap forHandler
  prints : g.told Event.printed? = (reports none ds ++ last).filterMap forNobody
  threw : g.told Event.threw? = g.invocations.filterMap (thrownBy react)

theorem told_through {α β : Type} {f : Event τ κ → Option α} {h : α → Option β}
    {k : Event τ κ → Option β} (hk : ∀ e, (f e).bind h = k e) (g : Logger τ κ σ) :
    (g.told f).filterMap h = g.told k := by
  rw [told, told, List.filterMap_reverse, filterMap_through hk]

theorem refused_due (g : Logger τ κ σ) : g.due.filterMap Outcome.refused? = [] := by
  unfold due
  split <;> simp

/-- The worker's lines are its messages, its refusals and its printed reports. -/
theorem worked_through {β : Type} {f : Outcome τ κ → Option β} {k : Event τ κ → Option β}
    (hf : ∀ x, x.line?.bind f = f x) (hk : ∀ e, e.line?.bind f = k e) (g : Logger τ κ σ) :
    g.worked.filterMap f = g.told k ++ g.due.filterMap f := by
  rw [worked, List.filterMap_append, told_through hk, filterMap_through hf]

theorem Account.refused (h : g.Account o done xs last) :
    g.told Event.refused? = xs.filterMap Outcome.refused? := by
  have hx : ∀ x : Outcome τ κ, x.line?.bind Outcome.refused? = x.refused? := fun x => by
    cases x <;> rfl
  have hlast : last.filterMap Outcome.refused? = [] := by
    have hend := h.ended
    split at hend
    · obtain ⟨hf | hf, -⟩ := hend <;> simp
    · rw [hend]
      rfl
  calc g.told Event.refused? = g.told Event.refused? ++ g.due.filterMap Outcome.refused? := by
        rw [refused_due, List.append_nil]
    _ = g.worked.filterMap Outcome.refused? :=
        (worked_through hx (fun e => by cases e <;> rfl) g).symm
    _ = (xs ++ last).filterMap Outcome.refused? := by rw [h.worked, filterMap_through hx]
    _ = xs.filterMap Outcome.refused? := by rw [List.filterMap_append, hlast, List.append_nil]

theorem Account.printed (h : g.Account o done xs last) :
    g.told Event.printed? ++ g.due.filterMap Outcome.printed? =
      ((xs ++ last).filterMap Outcome.report?).filterMap forNobody := by
  have hx : ∀ x : Outcome τ κ, x.line?.bind Outcome.printed? = x.printed? := fun x => by
    cases x <;> rfl
  rw [← worked_through hx (fun e => by cases e <;> rfl), h.worked, filterMap_through hx]
  exact (filterMap_through (fun x => by cases x <;> rfl) _).symm

theorem Account.final (h : g.Account o done xs last) : last.filterMap Outcome.report? = [] ∨
    g.worker.isGone = true ∧ ∃ x text, o.flush x g.sink = .error text ∧
      last.filterMap Outcome.report? =
        [(installed none done, "Logger final flush failed: " ++ text)] := by
  have hend := h.ended
  split at hend
  · next hgone =>
    obtain ⟨hf | ⟨hf⟩, -⟩ := hend
    · exact .inl rfl
    · have hdesk : g.desk.handler = installed none done := h.handled.explained.1
      exact .inr ⟨hgone, _, _, hf, by simp [hdesk]⟩
  · rw [hend]
    exact .inl rfl

variable {react : κ → String → Reaction κ}

def TellsThrown (react : κ → String → Reaction κ) (g : Logger τ κ σ) : Prop :=
  g.told Event.threw? ++ g.throwing.toList = g.invocations.filterMap (thrownBy react)

theorem Account.answers (h : g.Account o done xs last) (ht : g.TellsThrown react) :
    ∃ ds, g.Answers o react ds (last.filterMap Outcome.report?) ∧ ds.map Prod.fst = done := by
  obtain ⟨-, ds, hcs, hmeets, hrep, href⟩ := h.handled.explained
  have hreports : (xs ++ last).filterMap Outcome.report? =
      reports none ds ++ last.filterMap Outcome.report? := by
    rw [List.filterMap_append, hrep]
  refine ⟨ds, ⟨?_, hmeets, ?_, ?_, ?_, ?_, ht⟩, hcs⟩
  · rw [hcs, h.queued]
  · rw [h.refused, href]
  · have hx : ∀ x : Outcome τ κ, x.report?.bind forHandler = x.post? := fun x => by
      cases x <;> rfl
    rw [h.posted, ← hreports, filterMap_through hx]
  · rw [h.printed, hreports]
  · rw [hcs]
    exact h.final

theorem throwing_of_dispatcher (h : g'.dispatcher = g.dispatcher ∨
    (g.dispatcher = .asleep ∧ g'.dispatcher = .evaluating)) : g'.throwing = g.throwing := by
  obtain hd | ⟨hd, hd'⟩ := h
  · rw [throwing, throwing, hd]
  · rw [throwing, throwing, hd, hd']

theorem TellsThrown.of_adds {es : List (Event τ κ)} (h : g.TellsThrown react) (ha : Adds g g' es)
    (hes : ∀ e ∈ es, e.isDispatchers = false) (ht : g'.throwing = g.throwing) :
    g'.TellsThrown react := by
  have hthrew : g'.told Event.threw? = g.told Event.threw? := ha.told_eq fun e he => by
    have hn := hes e he
    cases e <;> first | rfl | cases hn
  have hinvoked : g'.invocations = g.invocations := ha.told_eq fun e he => by
    have hn := hes e he
    cases e <;> first | rfl | cases hn
  rw [TellsThrown, hthrew, hinvoked, ht]
  exact h

theorem TellsThrown.dispatcher {c c' : Caller τ κ} (h : g.TellsThrown react)
    (hm : DispatcherMoves react c g c' g') : g'.TellsThrown react := by
  cases hm with
  | exits hp | dozes hp | sleeps hp | ends hp =>
    have hadds : ∀ p, Adds g { g with dispatcher := p } [] := fun _ => rfl
    exact h.of_adds (hadds _) nofun (by simp [throwing, hp])
  | @invokes k message rest hp he =>
    have hnone : g.throwing = none := by simp [throwing, hp]
    rw [TellsThrown, hnone, Option.toList_none, List.append_nil] at h
    rw [TellsThrown, told_note, invocations, told_note]
    calc g.told Event.threw? ++ [] ++ (react k message).thrown.toList
        = g.invocations.filterMap (thrownBy react) ++ (react k message).thrown.toList := by
          rw [List.append_nil, h]
      _ = (g.invocations ++ [(k, message)]).filterMap (thrownBy react) := by
          cases hr : (react k message).thrown <;> simp [thrownBy, hr]
  | @throws text hp hc =>
    have hsome : g.throwing = some text := by simp [throwing, hp]
    rw [TellsThrown, hsome, Option.toList_some] at h
    have hold : g.told Event.threw? ++ [text] =
        (g.invocations ++ []).filterMap (thrownBy react) := by rw [List.append_nil, h]
    rw [TellsThrown, told_note, invocations, told_note]
    exact (List.append_nil _).trans hold

end Logger
namespace System

variable [DecidableEq τ] {react : κ → String → Reaction κ} {s s' : System τ κ σ}

/-- No error goes unreported. -/
structure Reporting (o : Outlet τ σ) (react : κ → String → Reaction κ) (s : System τ κ σ) :
    Prop where
  /-- What was reported so far, and what is on its way. -/
  sofar : ∃ ds last, s.logger.Answers o react ds last
  stays : ∀ {s'}, Reachable o react s s' →
    s.logger.invocations ++ s.logger.posts <+: s'.logger.invocations ++ s'.logger.posts
  /-- When the call that has requested the stop returns, all handlers have run. -/
  afterwards : ∀ {a k s'}, (s.callers a).serial = k → (s.callers a).place.stage ≠ 0 →
    Reachable o react s s' → (s'.callers a).HasReturned k →
    s'.logger.dispatcher = .exited ∧ ∃ ds last, s'.logger.Answered o react ds last

variable {store : σ} {todo : τ → List (Call κ)}

theorem Reachable.tellsThrown (hr : Reachable o react (System.start store todo) s) :
    s.logger.TellsThrown react := by
  induction hr with
  | start => rfl
  | step x hr hs ih =>
    obtain ⟨a, c, g, -, hm, rfl⟩ | ⟨g, -, hm, rfl⟩ | ⟨c, g, -, hm, rfl⟩ := step_cases hs
    · obtain ⟨es, hc⟩ := hm.carries
      refine ih.of_adds hc.adds (fun e he => ?_)
        (Logger.throwing_of_dispatcher hm.spares.dispatcher)
      have hcallers := hc.callers e he
      cases e <;> first | rfl | cases hcallers
    · obtain ⟨es, hadds, hes⟩ := hm.bystands.adds
      refine ih.of_adds hadds (fun e he => ?_)
        (Logger.throwing_of_dispatcher hm.works.1.dispatcher)
      have hworkers := hes e he
      cases e <;> first | rfl | cases hworkers
    · exact ih.dispatcher hm

theorem Reachable.answers (hr : Reachable o react (System.start store todo) s) :
    ∃ ds last, s.logger.Answers o react ds last := by
  obtain ⟨done, xs, last, h⟩ := hr.account
  obtain ⟨ds, hds, -⟩ := h.answers hr.tellsThrown
  exact ⟨ds, _, hds⟩

theorem Reachable.answered (hr : Reachable o react (System.start store todo) s)
    (hc : s.logger.completed = true) : ∃ ds last, s.logger.Answered o react ds last := by
  obtain ⟨-, ⟨hworker, hdisp⟩, ⟨hqueue, hposts⟩, -, -⟩ := hr.complete hc
  obtain ⟨ds, last, h⟩ := hr.answers
  have hpending : s.logger.pending = [] := by
    simp [Logger.pending, hworker, hqueue, WorkerPlace.batch]
  have hdue : s.logger.due = [] := by simp [Logger.due, hworker]
  have hthrowing : s.logger.throwing = none := by simp [Logger.throwing, hdisp]
  have hcalls := h.calls
  have hprints := h.prints
  have hthrew := h.threw
  rw [Logger.posted, hposts, hdue, List.filterMap_nil, List.append_nil, List.append_nil] at hcalls
  rw [hdue, List.filterMap_nil, List.append_nil] at hprints
  rw [hthrowing, Option.toList_none, List.append_nil] at hthrew
  exact ⟨ds, last, h, by rw [h.taken, hpending, List.append_nil], hcalls, hprints, hthrew⟩

theorem Reachable.reporting (hr : Reachable o react (System.start store todo) s) :
    s.Reporting o react where
  sofar := hr.answers
  stays h := h.extends.posted
  afterwards hk hc hrun hret := by
    have hdone := completed_of_leads hk hc hrun hret
    exact ⟨((hr.trans hrun).complete hdone).stopped.2, (hr.trans hrun).answered hdone⟩

/-- Room for some lines in one file, and another file that cannot be opened. -/
def cramped : Outlet Bool Nat where
  openLog room path := if path = "b.log" then .error "denied" else .ok room
  write := roomy.write
  flush := roomy.flush

def mishaps : System Bool Bool Nat := System.start 1 fun t =>
  if t then []
  else [.onError (some false), .logfile "b.log" true, .logfile "a.log" false, .log .info "1",
    .onError (some true), .log .info "2", .onError none, .log .info "3", .shutdown]

def touchy : Bool → String → Reaction Bool := fun h _ => ⟨[], if h then none else some "oops"⟩

/-- No handler has been called when the worker is through; each is called for its own errors. -/
theorem reporting_after_replacement : ∃ s s' : System Bool Bool Nat,
    Reachable cramped touchy mishaps s ∧ s.Reporting cramped touchy ∧
    s.logger.invocations = [] ∧ s.logger.handler = none ∧
    Reachable cramped touchy s s' ∧ s'.logger.dispatcher = .exited ∧
    (∃ ds last, s'.logger.Answered cramped touchy ds last) ∧
    s'.logger.invocations = [(false, Sink.openFailure "b.log" "denied"),
      (false, Logger.workerError (Sink.writeFailure (.file "a.log" false))),
      (true, Logger.workerError (Sink.writeFailure (.file "a.log" false)))] ∧
    s'.logger.told Event.printed? =
      [Logger.workerError (Sink.writeFailure (.file "a.log" false))] ∧
    s'.logger.told Event.threw? = ["oops", "oops"] := by
  let me : Actor Bool := .caller (.thread false)
  have hruns : (mishaps.runs cramped touchy (List.replicate 35 me ++ List.replicate 22 .worker)).any
      (fun s => decide (s.logger.invocations = [] ∧ s.logger.handler = none ∧
          (s.callers (.thread false)).serial = 9 ∧
          (s.callers (.thread false)).place.stage ≠ 0) &&
        (s.runs cramped touchy (List.replicate 3 me ++ List.replicate 7 .dispatcher ++
          [me, me])).any fun s' =>
          decide ((s'.callers (.thread false)).serial = 9 ∧
            (s'.callers (.thread false)).place = .idle ∧
            s'.logger.invocations = [(false, Sink.openFailure "b.log" "denied"),
              (false, Logger.workerError (Sink.writeFailure (.file "a.log" false))),
              (true, Logger.workerError (Sink.writeFailure (.file "a.log" false)))] ∧
            s'.logger.told Event.printed? =
              [Logger.workerError (Sink.writeFailure (.file "a.log" false))] ∧
            s'.logger.told Event.threw? = ["oops", "oops"])) = true := by decide +kernel
  obtain ⟨s, hrun, hs⟩ := (Option.any_eq_true _ _).mp hruns
  simp only [Bool.and_eq_true, decide_eq_true_eq] at hs
  obtain ⟨⟨hnone, hhandler, hserial, hstage⟩, hs⟩ := hs
  obtain ⟨s', hrest, hs⟩ := (Option.any_eq_true _ _).mp hs
  simp only [decide_eq_true_eq] at hs
  obtain ⟨hserial', hidle, hinvoked, hprinted, hthrew⟩ := hs
  have hreach : Reachable cramped touchy mishaps s := Reachable.start.runs hrun
  have hreach' : Reachable cramped touchy s s' := Reachable.start.runs hrest
  have hreporting := Reachable.reporting hreach
  obtain ⟨hexited, hanswered⟩ := hreporting.afterwards hserial hstage hreach'
    (.inr ⟨hserial'.symm, hidle⟩)
  exact ⟨s, s', hreach, hreporting, hnone, hhandler, hreach', hexited, hanswered, hinvoked,
    hprinted, hthrew⟩

end System
end Logging
end CheckedLock
