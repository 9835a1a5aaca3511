import CheckedLock.Proofs.Logging.Closing

/-! The worker's account. The commands that came into the queue are those it is through with, in
this order, and those before it; its lines and its reports are what the former come to, each command
at the sink and with the handler that the ones before it left. -/
namespace CheckedLock
namespace Logging

variable {τ κ σ : Type}

namespace WorkerPlace

/-- What is left of the batch. -/
def batch : WorkerPlace τ κ → List (Command τ κ)
  | .processing b => b
  | .reporting r | .posting _ r | .alerting r => r.rest.getD []
  | _ => []

/-- The worker is past its last flush. -/
def isGone : WorkerPlace τ κ → Bool
  | .flushing => false
  | w => w.isLast

theorem isLast_of_isGone {w : WorkerPlace τ κ} (h : w.isGone = true) : w.isLast = true := by
  cases w <;> first | exact h | rfl

end WorkerPlace

namespace Logger

/-- Sink and handler as the commands so far have left them. -/
def desk (g : Logger τ κ σ) : Desk κ := ⟨g.sink, g.handler⟩

/-- Commands that the worker has before it. -/
def pending (g : Logger τ κ σ) : List (Command τ κ) := g.worker.batch ++ g.queue

/-- The report that the worker is about to make. -/
def due (g : Logger τ κ σ) : List (Outcome τ κ) :=
  match g.worker with
  | .reporting r => [g.desk.report r.message]
  | .posting h r => [.posted h r.message]
  | _ => []

/-- The worker's lines, with the one it is about to print. -/
def worked (g : Logger τ κ σ) : List (Outcome τ κ) :=
  g.told Event.line? ++ g.due.filterMap Outcome.line?

/-- Reports for handlers: run, waiting, and about to be posted. -/
def posted (g : Logger τ κ σ) : List (κ × String) :=
  g.invocations ++ g.posts ++ g.due.filterMap Outcome.post?

/-- The commands of the queue so far: those in `done` came to `xs`, and `last` is of the worker's
end. -/
structure Account (o : Outlet τ σ) (g : Logger τ κ σ) (done : List (Command τ κ))
    (xs last : List (Outcome τ κ)) : Prop where
  queued : g.queued = done ++ g.pending
  handled : Desk.HandlesAll o {} done xs g.desk
  ended : if g.worker.isGone then g.desk.Closes o last ∧ g.pending = [] else last = []
  worked : g.worked = (xs ++ last).filterMap Outcome.line?
  posted : g.posted = (xs ++ last).filterMap Outcome.post?

theorem account_start (o : Outlet τ σ) (store : σ) :
    Account (τ := τ) (κ := κ) o { store := store } [] [] [] where
  queued := rfl
  handled := .none
  ended := rfl
  worked := rfl
  posted := rfl

variable {o : Outlet τ σ} {g g' : Logger τ κ σ} {done : List (Command τ κ)}
  {xs last : List (Outcome τ κ)}

/-- The worker's account is where it was. -/
structure Keeps (g g' : Logger τ κ σ) : Prop where
  pending : g'.pending = g.pending
  desk : g'.desk = g.desk
  gone : g'.worker.isGone = g.worker.isGone
  worked : g'.worked = g.worked
  posted : g'.posted = g.posted

theorem Account.keeps (h : Account o g done xs last) (hk : Keeps g g')
    (hq : g'.queued = g.queued) : Account o g' done xs last where
  queued := by rw [hq, hk.pending, h.queued]
  handled := by rw [hk.desk]; exact h.handled
  ended := by rw [hk.gone, hk.desk, hk.pending]; exact h.ended
  worked := hk.worked.trans h.worked
  posted := hk.posted.trans h.posted

/-- A command comes to `ys`, and the worker goes on with `rest`. -/
structure Yields (g : Logger τ κ σ) (rest : List (Command τ κ)) (ys : List (Outcome τ κ))
    (g' : Logger τ κ σ) : Prop where
  batch : g'.worker.batch = rest
  gone : g'.worker.isGone = false
  queue : g'.queue = g.queue
  worked : g'.worked = g.told Event.line? ++ ys.filterMap Outcome.line?
  posted : g'.posted = g.invocations ++ g.posts ++ ys.filterMap Outcome.post?

/-- An error makes one report. -/
theorem Yields.report {rest : List (Command τ κ)} (r : Report τ κ) (hr : r.rest = some rest) :
    Yields g rest [g.desk.report r.message] { g with worker := .reporting r } where
  batch := by simp [WorkerPlace.batch, hr]
  gone := by simp [WorkerPlace.isGone, WorkerPlace.isLast, hr]
  queue := rfl
  worked := rfl
  posted := rfl

theorem put_yields (r : Record τ) (rest : List (Command τ κ)) :
    (g.put o r rest).desk = g.desk ∧ ∃ ys, Yields g rest ys (g.put o r rest) ∧
      ((ys = [.wrote g.sink r] ∧ ∃ x', o.write g.store g.sink r = .ok x') ∨
        ∃ text, ys = [.refused g.sink r, g.desk.report (workerError text)] ∧
          o.write g.store g.sink r = .error text) := by
  obtain ⟨store, hw, h⟩ | ⟨text, hw, h⟩ := put_cases o g r rest
  · rw [h]
    refine ⟨rfl, [.wrote g.sink r], ⟨rfl, rfl, rfl, ?_, ?_⟩, .inl ⟨rfl, store, hw⟩⟩
    · simp [worked, told, note, due, Event.line?, Outcome.line?]
    · simp [posted, told, note, due, List.filterMap_cons, Event.invoked?, Outcome.post?]
  · rw [h]
    refine ⟨rfl, [.refused g.sink r, g.desk.report (workerError text)], ⟨rfl, rfl, rfl, ?_, ?_⟩,
      .inr ⟨text, rfl, hw⟩⟩
    · simp [worked, told, note, due, List.filterMap_cons, Event.line?, Outcome.line?, desk]
    · simp [posted, told, note, due, List.filterMap_cons, Event.invoked?, Outcome.post?, desk]

/-- The worker takes one command. -/
theorem handle_yields (cmd : Command τ κ) (rest : List (Command τ κ)) :
    ∃ ys, Yields g rest ys (g.handle o rest cmd) ∧
      g.desk.Handles o cmd ys (g.handle o rest cmd).desk := by
  cases cmd with
  | write r =>
    obtain ⟨hd, ys, hy, ⟨rfl, x', hx⟩ | ⟨text, rfl, hx⟩⟩ := put_yields (o := o) (g := g) r rest
    · exact ⟨_, hy, by rw [handle, hd]; exact .wrote hx⟩
    · exact ⟨_, hy, by rw [handle, hd]; exact .refused hx⟩
  | select s =>
    simp only [handle]
    cases hf : o.flush g.store g.sink with
    | error text => exact ⟨_, .report _ rfl, .kept hf⟩
    | ok store =>
      obtain ⟨hd, ys, ⟨h₁, h₂, h₃, h₄, h₅⟩, hx⟩ :=
        put_yields (o := o) (g := { g with store := store, sink := s }) (.switched g.sink) rest
      refine ⟨ys, ⟨h₁, h₂, h₃, h₄, h₅⟩, ?_⟩
      rw [hd]
      obtain ⟨rfl, x', hx⟩ | ⟨text, rfl, hx⟩ := hx
      · exact .switched (d := g.desk) hx
      · exact .unannounced (d := g.desk) hx
  | openFailed message => exact ⟨_, .report _ rfl, .openFailed⟩
  | flush ticket =>
    simp only [handle]
    cases hf : o.flush g.store g.sink with
    | error text => exact ⟨_, .report _ rfl, .unflushed hf⟩
    | ok store => exact ⟨[], ⟨rfl, rfl, rfl, rfl, rfl⟩, .flushed hf⟩
  | onError k => exact ⟨[], ⟨rfl, rfl, rfl, rfl, rfl⟩, .onError⟩

@[simp] theorem reported_desk (r : Report τ κ) : (g.reported r).desk = g.desk := by
  cases ht : r.ticket <;> simp [reported, proceed, honour, ht, desk]

@[simp] theorem reported_queue (r : Report τ κ) : (g.reported r).queue = g.queue := by
  cases ht : r.ticket <;> simp [reported, proceed, honour, ht]

@[simp] theorem reported_posts (r : Report τ κ) : (g.reported r).posts = g.posts := by
  cases ht : r.ticket <;> simp [reported, proceed, honour, ht]

theorem reported_worker (r : Report τ κ) : (g.reported r).worker.batch = r.rest.getD [] ∧
    (g.reported r).worker.isGone = r.rest.isNone ∧ (g.reported r).due = [] := by
  cases hr : r.rest <;>
    simp [reported, proceed, WorkerPlace.batch, WorkerPlace.isGone, WorkerPlace.isLast, due, hr]

/-- The report has been made, or dropped. -/
theorem keeps_reported {r : Report τ κ} (hq : g'.queue = g.queue) (hd : g'.desk = g.desk)
    (hb : g.worker.batch = r.rest.getD []) (hg : g.worker.isGone = r.rest.isNone)
    (hw : g'.told Event.line? = g.worked) (hp : g'.invocations ++ g'.posts = g.posted) :
    Keeps g (g'.reported r) := by
  obtain ⟨h₁, h₂, h₃⟩ := reported_worker (g := g') r
  exact {
    pending := by rw [pending, pending, h₁, reported_queue, hq, hb]
    desk := by rw [reported_desk, hd]
    gone := h₂.trans hg.symm
    worked := by
      rw [worked, h₃, told_of_journal _ (reported_journal r), hw]
      exact List.append_nil _
    posted := by
      rw [posted, h₃, invocations, told_of_journal _ (reported_journal r), reported_posts, hp]
      exact List.append_nil _ }

/-- A step of the worker: it takes a command, ends, or does nothing to its account. No report is
dropped while the dispatcher is at work. -/
theorem WorkerMoves.account (h : WorkerMoves o g g') (hd : g.dispatcherRequested = false) :
    Keeps g g' ∨
    (∃ cmd rest ys, g.worker = .processing (cmd :: rest) ∧ Yields g rest ys g' ∧
      g.desk.Handles o cmd ys g'.desk) ∨
    (∃ ys, g.worker = .flushing ∧ g'.worker.isGone = true ∧ g'.pending = g.pending ∧
      g'.desk = g.desk ∧ g.desk.Closes o ys ∧
      g'.worked = g.worked ++ ys.filterMap Outcome.line? ∧
      g'.posted = g.posted ++ ys.filterMap Outcome.post?) := by
  have hquiet : g.due = [] → ∀ w : WorkerPlace τ κ, w.batch = g.worker.batch →
      w.isGone = g.worker.isGone → ({ g with worker := w } : Logger τ κ σ).due = [] →
      Keeps g { g with worker := w } := by
    intro hdue w hb hg hw
    exact ⟨by rw [pending, pending, hb], rfl, hg, by rw [worked, worked, hdue, hw]; rfl,
      by rw [posted, posted, hdue, hw]; rfl⟩
  cases h with
  | closes hp | dozes hp | sleeps hp | ends hp =>
    exact .inl (hquiet (by simp [due, hp]) _ (by rw [hp]; rfl) (by rw [hp]; rfl) rfl)
  | takes hp he =>
    refine .inl ⟨?_, rfl, by rw [hp]; rfl, ?_, ?_⟩
    · simp [pending, hp, WorkerPlace.batch]
    · simp [worked, due, hp, told]
    · simp [posted, due, hp, told]
  | @handles cmd rest hp =>
    obtain ⟨ys, hy, hh⟩ := handle_yields (o := o) (g := g) cmd rest
    exact .inr (.inl ⟨cmd, rest, ys, hp, hy, hh⟩)
  | @prints r hp hh =>
    have hdue : g.due = [.printed r.message] := by simp [due, hp, desk, Desk.report, hh]
    have hnote : (g.note (.printed r.message)).told Event.line? = g.worked := by
      rw [told_note, worked, hdue]
      rfl
    have hposted : (g.note (.printed r.message)).invocations ++ g.posts = g.posted := by
      rw [invocations, told_note, posted, hdue]
      simp [List.filterMap_cons, Event.invoked?, Outcome.post?]
    refine .inl (keeps_reported rfl rfl ?_ ?_ hnote hposted)
    · rw [hp]; rfl
    · rw [hp]; rfl
  | drops hp hh hd' =>
    rw [hd] at hd'
    cases hd'
  | @addresses r k hp hh =>
    refine .inl ⟨by simp [pending, hp, WorkerPlace.batch], rfl, by rw [hp]; rfl, ?_, ?_⟩
    · simp [worked, due, hp, desk, Desk.report, hh, told]
    · simp [posted, due, hp, desk, Desk.report, hh, told]
  | @posts k r hp =>
    refine .inl ⟨by simp [pending, hp, WorkerPlace.batch], rfl, by rw [hp]; rfl, ?_, ?_⟩
    · simp [worked, due, hp, told, Outcome.line?]
    · simp [posted, due, hp, told, Outcome.post?]
  | @alerts r hp =>
    have hwake : g.wakeDispatcher.queue = g.queue ∧ g.wakeDispatcher.desk = g.desk ∧
        g.wakeDispatcher.posts = g.posts := by
      unfold wakeDispatcher
      split <;> exact ⟨rfl, rfl, rfl⟩
    refine .inl (keeps_reported hwake.1 hwake.2.1 ?_ ?_ ?_ ?_)
    · rw [hp]; rfl
    · rw [hp]; rfl
    · simp [worked, due, hp, told]
    · simp [posted, due, hp, told, hwake.2.2]
  | leaves hp hf =>
    refine .inr (.inr ⟨[], hp, rfl, by simp [pending, hp, WorkerPlace.batch], rfl,
      .flushed (d := g.desk) hf, ?_, ?_⟩)
    · simp [worked, due, hp, told]
    · simp [posted, due, hp, told]
  | @failsToFlush text hp hf =>
    refine .inr (.inr ⟨_, hp, rfl, by simp [pending, hp, WorkerPlace.batch], rfl,
      .unflushed (d := g.desk) hf, ?_, ?_⟩)
    · simp [worked, due, hp, told, desk]
    · simp [posted, due, hp, told, desk]

/-- The worker's step in the account. -/
theorem Account.worker (h : Account o g done xs last) (hm : WorkerMoves o g g')
    (hd : g.dispatcherRequested = false) (hl : g.worker.isLast = true → g.queue = []) :
    ∃ done' xs' last', Account o g' done' xs' last' := by
  obtain ⟨es, hadds, hes⟩ := hm.bystands.adds
  have hqueued : g'.queued = g.queued :=
    hadds.told_eq fun e he =>
      Event.queued?_of_not_isCallers (Event.not_isCallers_of_isWorkers (hes e he))
  obtain hk | ⟨cmd, rest, ys, hp, hy, hh⟩ | ⟨ys, hp, hgone, hpend, hdesk, hc, hw, hpost⟩ :=
    hm.account hd
  · exact ⟨done, xs, last, h.keeps hk hqueued⟩
  · have hend := h.ended
    simp only [hp, WorkerPlace.isGone, WorkerPlace.isLast, Bool.false_eq_true, if_false] at hend
    have hdue : g.due = [] := by simp [due, hp]
    refine ⟨done ++ [cmd], xs ++ ys, [], ?_, h.handled.next hh, by simp [hy.gone], ?_, ?_⟩
    · rw [hqueued, h.queued, pending, pending, hp, hy.batch, hy.queue]
      simp [WorkerPlace.batch]
    · have hold : g.told Event.line? = xs.filterMap Outcome.line? := by
        simpa [Logger.worked, hdue, hend] using h.worked
      rw [hy.worked, hold, List.append_nil, List.filterMap_append]
    · have hold : g.invocations ++ g.posts = xs.filterMap Outcome.post? := by
        simpa [Logger.posted, hdue, hend] using h.posted
      rw [hy.posted, hold, List.append_nil, List.filterMap_append]
  · have hend := h.ended
    simp only [hp, WorkerPlace.isGone, Bool.false_eq_true, if_false] at hend
    have hempty : g.pending = [] := by
      rw [pending, hl (by rw [hp]; rfl), hp]
      rfl
    refine ⟨done, xs, ys, ?_, by rw [hdesk]; exact h.handled, ?_, ?_, ?_⟩
    · rw [hqueued, h.queued, hpend]
    · rw [if_pos hgone, hdesk, hpend]
      exact ⟨hc, hempty⟩
    · rw [hw, h.worked, hend]
      simp
    · rw [hpost, h.posted, hend]
      simp

/-- What is the worker's and the dispatcher's, apart from the queue, is left to them; they may be
woken. -/
structure Spares (g g' : Logger τ κ σ) : Prop where
  sink : g'.sink = g.sink
  handler : g'.handler = g.handler
  posts : g'.posts = g.posts
  worker : g'.worker = g.worker ∨ (g.worker = .asleep ∧ g'.worker = .evaluating)
  dispatcher : g'.dispatcher = g.dispatcher ∨ (g.dispatcher = .asleep ∧ g'.dispatcher = .evaluating)

theorem Spares.refl (g : Logger τ κ σ) : Spares g g := ⟨rfl, rfl, rfl, .inl rfl, .inl rfl⟩

theorem Spares.note {e : Event τ κ} (h : Spares g g') : Spares g (g'.note e) :=
  ⟨h.sink, h.handler, h.posts, h.worker, h.dispatcher⟩

theorem spares_wake (g : Logger τ κ σ) : Spares g g.wake := by
  unfold wake
  split
  case h_1 hw => exact ⟨rfl, rfl, rfl, .inr ⟨hw, rfl⟩, .inl rfl⟩
  case h_2 => exact .refl g

theorem spares_begin {a : Agent τ} {c c' : Caller τ κ} {call : Call κ}
    (h : begin o a c (g.note (.called a call)) call = (c', g')) : Spares g g' := by
  have : Spares g (begin o a c (g.note (.called a call)) call).2 := by
    cases call <;> simp only [begin] <;> (try split) <;> exact ⟨rfl, rfl, rfl, .inl rfl, .inl rfl⟩
  rwa [h] at this

theorem CallerMoves.spares {a : Agent τ} {c c' : Caller τ κ} (h : CallerMoves o a c g c' g') :
    Spares g g' := by
  cases h with
  | calls hp ht hb => exact spares_begin hb
  | @refuses cmd hp hq _ _ he =>
    have hrefuse : Spares g (g.refuse cmd) := by
      cases cmd with
      | write r => exact (Spares.refl g).note
      | _ => exact .refl g
    obtain ⟨-, -, ⟨ticket, -, rfl⟩ | rfl⟩ := pushed_cases he
    · exact hrefuse
    · exact hrefuse.note
  | notifies hp he =>
    obtain ⟨-, -, ⟨ticket, -, rfl⟩ | rfl⟩ := pushed_cases he
    · exact spares_wake g
    · exact (spares_wake g).note
  | wakes hp => exact spares_wake g
  | wakesDispatcher hp =>
    unfold wakeDispatcher
    split
    case h_1 hd => exact ⟨rfl, rfl, rfl, .inl rfl, .inr ⟨hd, rfl⟩⟩
    case h_2 => exact .refl g
  | _ => exact ⟨rfl, rfl, rfl, .inl rfl, .inl rfl⟩

/-- A caller may add a command to those before the worker; nothing else of the account is its
business. -/
theorem Account.caller (h : Account o g done xs last) {a : Agent τ} {c c' : Caller τ κ}
    (hm : CallerMoves o a c g c' g') (hgone : g.worker.isGone = true → g.requested = true) :
    Account o g' done xs last := by
  obtain ⟨es, hc⟩ := hm.carries
  have hs := hm.spares
  have hbatch : g'.worker.batch = g.worker.batch ∧ g'.worker.isGone = g.worker.isGone := by
    rcases hs.worker with hw | ⟨hw, hw'⟩
    · rw [hw]
      exact ⟨rfl, rfl⟩
    · rw [hw, hw']
      exact ⟨rfl, rfl⟩
  have hdesk : g'.desk = g.desk := by rw [desk, desk, hs.sink, hs.handler]
  have hdue : g'.due = g.due := by
    rcases hs.worker with hw | ⟨hw, hw'⟩
    · rw [due, due, hw, hdesk]
    · rw [due, due, hw, hw']
  have hline : g'.told Event.line? = g.told Event.line? :=
    hc.adds.told_eq fun e he => Event.line?_of_isCallers (hc.callers e he)
  have hinvoked : g'.invocations = g.invocations :=
    hc.adds.told_eq fun e he => Event.invoked?_of_isCallers (hc.callers e he)
  have hqueued : g'.queued = g.queued ++ es.filterMap Event.queued? := hc.adds.told _
  exact {
    queued := by
      rw [hqueued, h.queued, pending, pending, hbatch.1, hc.queue]
      simp only [List.append_assoc]
    handled := by rw [hdesk]; exact h.handled
    ended := by
      have hend := h.ended
      rw [hbatch.2, hdesk]
      cases hg : g.worker.isGone with
      | false => simpa [hg] using hend
      | true =>
        -- the worker has gone, so the queue is closed
        have hnone : es.filterMap Event.queued? = [] := by
          obtain ⟨hopen, -⟩ | ⟨-, hq⟩ := hc.gate
          · rw [hgone hg] at hopen
            cases hopen
          · exact hq
        simp only [hg, if_true] at hend ⊢
        exact ⟨hend.1, by rw [pending, hbatch.1, hc.queue, hnone, List.append_nil]; exact hend.2⟩
    worked := by rw [Logger.worked, hline, hdue]; exact h.worked
    posted := by rw [Logger.posted, hinvoked, hs.posts, hdue]; exact h.posted }

/-- The dispatcher takes a report from those that wait. -/
theorem Account.dispatcher (h : Account o g done xs last) {react : κ → String → Reaction κ}
    {c c' : Caller τ κ} (hm : DispatcherMoves react c g c' g') : Account o g' done xs last := by
  have hk : Keeps g g' ∧ g'.queued = g.queued := by
    cases hm with
    | @invokes k message rest hp he =>
      refine ⟨⟨rfl, rfl, rfl, ?_, ?_⟩, ?_⟩
      · rw [Logger.worked, told_note]
        exact congrArg (· ++ _) (List.append_nil _)
      · rw [Logger.posted, Logger.posted, invocations, told_note, he]
        simp [Event.invoked?, told, due, note, desk]
      · rw [Logger.queued, told_note]
        exact List.append_nil _
    | @throws text hp hc =>
      refine ⟨⟨rfl, rfl, rfl, ?_, ?_⟩, ?_⟩
      · rw [Logger.worked, told_note]
        exact congrArg (· ++ _) (List.append_nil _)
      · rw [Logger.posted, invocations, told_note]
        exact congrArg (· ++ _ ++ _) (List.append_nil _)
      · rw [Logger.queued, told_note]
        exact List.append_nil _
    | _ => exact ⟨⟨rfl, rfl, rfl, rfl, rfl⟩, rfl⟩
  exact h.keeps hk.1 hk.2

end Logger

namespace System

variable [DecidableEq τ] {o : Outlet τ σ} {react : κ → String → Reaction κ} {s s' : System τ κ σ}

theorem account_step {n : Nat} (hn : s.Closing n) {done : List (Command τ κ)}
    {xs last : List (Outcome τ κ)} (h : s.logger.Account o done xs last) {x : Actor τ}
    (hs : s.step o react x = some s') : ∃ done' xs' last', s'.logger.Account o done' xs' last' := by
  obtain ⟨a, c, g, -, hm, rfl⟩ | ⟨g, -, hm, rfl⟩ | ⟨c, g, -, hm, rfl⟩ := step_cases hs
  · refine ⟨done, xs, last, h.caller hm fun hgone => ?_⟩
    rw [hn.requested]
    exact decide_eq_true (hn.drained (WorkerPlace.isLast_of_isGone hgone)).1
  · exact h.worker hm (hn.dispatcher_open hm.works.2) fun hl => (hn.drained hl).2
  · exact ⟨done, xs, last, h.dispatcher hm⟩

theorem Reachable.account {store : σ} {todo : τ → List (Call κ)}
    (hr : Reachable o react (System.start store todo) s) :
    ∃ done xs last, s.logger.Account o done xs last := by
  induction hr with
  | start => exact ⟨[], [], [], Logger.account_start o store⟩
  | step x hr hs ih =>
    obtain ⟨n, hn⟩ := hr.closing
    obtain ⟨done, xs, last, h⟩ := ih
    exact account_step hn h hs

end System
end Logging
end CheckedLock
