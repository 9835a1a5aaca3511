import CheckedLock.Proofs.Logging.Draining
import CheckedLock.Proofs.Logging.Flushing
import CheckedLock.Proofs.Logging.Reporting
import Mathlib.Logic.Relation

/-! Where a drain ends. A thread that waits for work has none, or somebody is about to notify it; so
when nobody can go on, both queues are empty. Then the shutdown is complete, unless one of its
notifications was lost and a thread waits in vain. -/
namespace CheckedLock
namespace Logging

variable {τ κ σ : Type} {o : Outlet τ σ} {react : κ → String → Reaction κ}

/-- No shutdown is to be called here, or under way. -/
structure Caller.Modest (c : Caller τ κ) : Prop where
  todo : .shutdown ∉ c.todo
  unclaimed : c.place ≠ .claiming
  outside : c.place.stage = 0

namespace Logger

variable {g g' : Logger τ κ σ} {a : Agent τ} {c c' : Caller τ κ} {x : Waiter}

theorem begin_modest {call : Call κ} (h : begin o a c g call = (c', g')) (hc : call ≠ .shutdown) :
    c'.place ≠ .claiming ∧ c'.place.stage = 0 := by
  have : (begin o a c g call).1.place ≠ .claiming ∧ (begin o a c g call).1.place.stage = 0 := by
    cases call with
    | shutdown => exact absurd rfl hc
    | _ =>
      simp only [begin]
      (try split) <;> exact ⟨by simp [finish], rfl⟩
  rwa [h] at this

theorem CallerMoves.modest (h : CallerMoves o a c g c' g') (hc : c.Modest) : c'.Modest := by
  have inside : ∀ {p : Place τ κ} {q : Prop}, c.place = p → p = .claiming ∨ p.stage ≠ 0 → q := by
    intro p q hp hs
    obtain rfl | hs := hs
    · exact absurd hp hc.unclaimed
    · exact absurd (hp ▸ hc.outside) hs
  cases h with
  | @calls call rest hp ht _ _ hb =>
    have htodo : c'.todo = rest := todo_begin hb
    have hmem := hc.todo
    rw [ht] at hmem
    obtain ⟨hclaim, hstage⟩ :=
      begin_modest hb fun he => hmem (he ▸ List.mem_cons_self)
    exact ⟨fun h => hmem (List.mem_cons_of_mem _ (htodo ▸ h)), hclaim, hstage⟩
  | @refuses cmd _ _ _ _ he | @notifies cmd _ _ _ he =>
    refine ⟨todo_pushed he ▸ hc.todo, fun hp => ?_, stage_pushed he⟩
    cases cmd <;> cases he <;> cases hp
  | looks | pushes | waits | returns => exact ⟨hc.todo, nofun, rfl⟩
  | claims hp => exact inside hp (.inl rfl)
  | wakes hp | joins hp | skipsDispatcher hp | claimsDispatcher hp | wakesDispatcher hp
    | joinsDispatcher hp | completes hp =>
    exact inside hp (.inr nofun)

/-! ### What a waiting thread has to do -/

def Laden (g : Logger τ κ σ) : Waiter → Prop
  | .worker => g.queue ≠ []
  | .dispatcher => g.posts ≠ []

def Ended (g : Logger τ κ σ) : Waiter → Prop
  | .worker => g.worker = .exited
  | .dispatcher => g.dispatcher = .exited

theorem begin_queue {call : Call κ} (h : begin o a c g call = (c', g')) : g'.queue = g.queue := by
  have : (begin o a c g call).2.queue = g.queue := by
    cases call <;> simp only [begin] <;> (try split) <;> rfl
  rwa [h] at this

theorem CallerMoves.feeds (h : CallerMoves o a c g c' g') : g'.queue = g.queue ∨
    (g.worker ≠ .dozing ∧ ∃ cmd, c'.place = .notifying cmd) := by
  cases h with
  | @calls call _ _ _ _ _ hb =>
    have hq : g'.queue = (g.note (.called a call)).queue := begin_queue hb
    exact .inl hq
  | @refuses cmd _ _ _ _ he => exact .inl (by cases cmd <;> cases he <;> rfl)
  | @notifies cmd _ _ _ he => exact .inl (by cases cmd <;> cases he <;> exact wake_queue)
  | pushes _ _ hw => exact .inr ⟨hw, _, rfl⟩
  | wakes => exact .inl wake_queue
  | wakesDispatcher => exact .inl wakeDispatcher_queue
  | _ => exact .inl rfl

theorem wake_worker_ne : g.wake.worker ≠ .asleep := by
  unfold wake
  split
  case h_1 => exact nofun
  case h_2 hw => exact hw

theorem CallerMoves.worker_of_notifying (h : CallerMoves o a c g c' g') {cmd : Command τ κ}
    (hc : c.place = .notifying cmd) : g'.worker ≠ .asleep := by
  cases h with
  | @notifies cmd' _ _ _ he => cases cmd' <;> cases he <;> exact wake_worker_ne
  | refuses hp | returns hp => simp [hc] at hp
  | calls hp | looks hp | pushes hp | waits hp | claims hp | wakes hp | joins hp
    | skipsDispatcher hp | claimsDispatcher hp | wakesDispatcher hp | joinsDispatcher hp
    | completes hp =>
    rw [hc] at hp
    cases hp

/-- What the worker's step means for a dispatcher that sleeps or is about to. -/
inductive Delivers (g g' : Logger τ κ σ) : Prop
  | apart (hp : g'.posts = g.posts) (hd : g'.dispatcher = g.dispatcher)
    (hw : ∀ r, g.worker ≠ .alerting r)
  | posts (hd : g.dispatcher ≠ .dozing) (hd' : g'.dispatcher = g.dispatcher) {r}
    (hw : g'.worker = .alerting r)
  | alerts (hp : g'.posts = g.posts) (hd : g'.dispatcher = g.wakeDispatcher.dispatcher)

theorem WorkerMoves.delivers (h : WorkerMoves o g g') : Delivers g g' := by
  cases h with
  | posts hp hd => exact .posts hd rfl rfl
  | alerts hp =>
    exact .alerts ((reported_posts _).trans (staysOpen_wakeDispatcher g).posts)
      (reported_waiters _).2
  | handles hp =>
    exact .apart (handle_ahead _ _).2.2 (handle_waiters _ _).2 (by rw [hp]; exact nofun)
  | prints hp | drops hp =>
    exact .apart (reported_posts _) (reported_waiters _).2 (by rw [hp]; exact nofun)
  | closes hp | dozes hp | sleeps hp | takes hp | ends hp | addresses hp | leaves hp
    | failsToFlush hp =>
    exact .apart rfl rfl (by rw [hp]; exact nofun)

/-! ### How often handlers are called -/

theorem reports_length (h : Option κ) (ds : List (Command τ κ × Option (Trouble τ))) :
    (reports h ds).length = ds.countP (·.2.isSome) := by
  induction ds generalizing h with
  | nil => rfl
  | cons d ds ih =>
    obtain ⟨c, e⟩ := d
    cases e <;> simp [reports, ih]

theorem Answers.invocations_length {ds : List (Command τ κ × Option (Trouble τ))}
    {last : List (Option κ × String)} (h : g.Answers o react ds last) :
    g.invocations.length ≤ ds.countP (·.2.isSome) + last.length :=
  calc g.invocations.length ≤ g.posted.length := by
        simp only [posted, List.length_append]
        omega
    _ ≤ (reports none ds ++ last).length := h.calls ▸ List.length_filterMap_le _ _
    _ = ds.countP (·.2.isSome) + last.length := by rw [List.length_append, reports_length]

end Logger

namespace System

variable [DecidableEq τ] {s s' : System τ κ σ} {a : Agent τ} {x : Waiter} {n : Nat}

/-- A thread that waits has nothing to do, or it is to be notified. -/
structure Heeds (s : System τ κ σ) (x : Waiter) : Prop where
  dozing : s.logger.stance x = .dozing → ¬ s.logger.Laden x
  asleep : s.logger.stance x = .asleep → s.logger.Laden x → s.Hailed x

omit [DecidableEq τ] in
theorem Heeds.of_awake (h : s.logger.stance x = .awake) : s.Heeds x := by
  constructor <;> rw [h] <;> exact nofun

omit [DecidableEq τ] in
theorem Heeds.of_same (h : s.Heeds x) (hst : s'.logger.stance x = s.logger.stance x)
    (hl : s'.logger.Laden x → s.logger.Laden x)
    (hh : s'.logger.stance x = .asleep → s.Hailed x → s'.Hailed x) : s'.Heeds x where
  dozing hd := fun hl' => h.dozing (hst ▸ hd) (hl hl')
  asleep ha hl' := hh ha (h.asleep (hst ▸ ha) (hl hl'))

theorem Heeds.caller (h : s.Heeds x) {c : Caller τ κ} {g : Logger τ κ σ}
    (hm : Logger.CallerMoves o a (s.callers a) s.logger c g) :
    ({ s.setCaller a c with logger := g } : System τ κ σ).Heeds x := by
  have hs := hm.spares
  cases x with
  | worker =>
    obtain hw | ⟨-, hnew⟩ := hs.worker
    · have hst : g.stance .worker = s.logger.stance .worker := congrArg WorkerPlace.stance hw
      obtain hq | ⟨hdozing, cmd, hcmd⟩ := hm.feeds
      · refine h.of_same hst (fun hl => by rwa [Logger.Laden, hq] at hl) ?_
        rintro hasleep ⟨b, cmd, hb⟩
        by_cases hba : b = a
        · -- its notification has just woken the worker
          subst hba
          exact absurd (WorkerPlace.stance_eq_asleep.mp hasleep) (hm.worker_of_notifying hb)
        · exact ⟨b, cmd, by simpa [setCaller_ne s c hba] using hb⟩
      · refine ⟨fun hd => ?_, fun _ _ => ⟨a, cmd, by simpa using hcmd⟩⟩
        exact absurd (hw.symm.trans (WorkerPlace.stance_eq_dozing.mp hd)) hdozing
    · exact .of_awake (congrArg WorkerPlace.stance hnew)
  | dispatcher =>
    obtain hd | ⟨-, hnew⟩ := hs.dispatcher
    · refine h.of_same (congrArg DispatcherPlace.stance hd)
        (fun hl => by rwa [Logger.Laden, hs.posts] at hl) ?_
      rintro - ⟨r, hr⟩
      obtain hw | ⟨hw, -⟩ := hs.worker
      · exact ⟨r, hw.trans hr⟩
      · rw [hr] at hw
        cases hw
    · exact .of_awake (congrArg DispatcherPlace.stance hnew)

omit [DecidableEq τ] in
theorem Heeds.worker (h : s.Heeds x) {g : Logger τ κ σ} (hm : Logger.WorkerMoves o s.logger g) :
    ({ s with logger := g } : System τ κ σ).Heeds x := by
  cases x with
  | worker =>
    cases hm with
    | dozes hp he => exact ⟨fun _ hl => hl he, nofun⟩
    | sleeps hp =>
      have hempty := h.dozing (congrArg WorkerPlace.stance hp)
      exact ⟨nofun, fun _ hl => absurd hl hempty⟩
    | handles => exact .of_awake (Logger.handle_waiters _ _).1
    | prints | drops | alerts => exact .of_awake (Logger.reported_waiters _).1
    | _ => exact .of_awake rfl
  | dispatcher =>
    cases hm.delivers with
    | apart hp hd hw =>
      refine h.of_same (congrArg DispatcherPlace.stance hd)
        (fun hl => by rwa [Logger.Laden, hp] at hl) ?_
      rintro - ⟨r, hr⟩
      exact absurd hr (hw r)
    | posts hd hd' hw =>
      refine ⟨fun hst => ?_, fun _ _ => ⟨_, hw⟩⟩
      exact absurd (hd'.symm.trans (DispatcherPlace.stance_eq_dozing.mp hst)) hd
    | alerts hp hd =>
      by_cases hold : s.logger.dispatcher = .asleep
      · have hnew : g.dispatcher = .evaluating := by simp [hd, Logger.wakeDispatcher, hold]
        exact .of_awake (congrArg DispatcherPlace.stance hnew)
      · have hsame : g.dispatcher = s.logger.dispatcher := by
          rw [hd, Logger.wakeDispatcher_of_ne hold]
        refine h.of_same (congrArg DispatcherPlace.stance hsame)
          (fun hl => by rwa [Logger.Laden, hp] at hl) fun hasleep => ?_
        exact absurd (hsame.symm.trans (DispatcherPlace.stance_eq_asleep.mp hasleep)) hold

theorem Heeds.dispatcher (h : s.Heeds x) {c : Caller τ κ} {g : Logger τ κ σ}
    (hm : Logger.DispatcherMoves react (s.callers .dispatcher) s.logger c g) :
    ({ s.setCaller .dispatcher c with logger := g } : System τ κ σ).Heeds x := by
  obtain ⟨hg, -⟩ := hm.serves
  cases x with
  | worker =>
    refine h.of_same (congrArg WorkerPlace.stance hg.worker)
      (fun hl => by rwa [Logger.Laden, hg.queue] at hl) ?_
    rintro - ⟨b, cmd, hb⟩
    refine ⟨b, cmd, ?_⟩
    by_cases hbd : b = .dispatcher
    · subst hbd
      simpa [hm.bystands.2.1] using hb
    · simpa [setCaller_ne s c hbd] using hb
  | dispatcher =>
    cases hm with
    | dozes hp he => exact ⟨fun _ hl => hl he, nofun⟩
    | sleeps hp =>
      have hempty := h.dozing (congrArg DispatcherPlace.stance hp)
      exact ⟨nofun, fun _ hl => absurd hl hempty⟩
    | _ => exact .of_awake rfl

variable {store : σ} {todo : τ → List (Call κ)}

theorem Reachable.heeds (hr : Reachable o react (System.start store todo) s) (x : Waiter) :
    s.Heeds x := by
  induction hr with
  | start => cases x <;> exact .of_awake rfl
  | step y _ hs ih =>
    obtain ⟨a, c, g, -, hm, rfl⟩ | ⟨g, -, hm, rfl⟩ | ⟨c, g, -, hm, rfl⟩ := step_cases hs
    · exact ih.caller hm
    · exact ih.worker hm
    · exact ih.dispatcher hm

theorem Reachable.modest (hr : Reachable o react (System.start store todo) s)
    (hcalls : ∀ h message, .shutdown ∉ (react h message).calls) :
    (s.callers .dispatcher).Modest := by
  induction hr with
  | start => exact ⟨List.not_mem_nil, nofun, rfl⟩
  | @step s s' y _ hs ih =>
    obtain ⟨a, c, g, -, hm, rfl⟩ | ⟨g, -, hm, rfl⟩ | ⟨c, g, -, hm, rfl⟩ := step_cases hs
    · by_cases ha : Agent.dispatcher = a
      · subst ha
        simpa using hm.modest ih
      · simpa [setCaller_ne s c ha] using ih
    · exact ih
    · rw [show (System.mk g (s.setCaller .dispatcher c).callers).callers .dispatcher = c from
        setCaller_self s .dispatcher c]
      cases hm with
      | invokes => exact ⟨hcalls _ _, ih.unclaimed, ih.outside⟩
      | _ => exact ih

/-! ### Where nobody can go on -/

/-- No step of a drain can be taken. -/
def AtRest (o : Outlet τ σ) (react : κ → String → Reaction κ) (s : System τ κ σ) : Prop :=
  ∀ x, s.Drains x → s.step o react x = none

theorem AtRest.callerWaits (h : s.AtRest o react) (ha : s.Drains (.caller a)) :
    Logger.CallerWaits (s.callers a) s.logger :=
  Logger.callerWaits (Option.map_eq_none_iff.mp (h _ ha))

theorem AtRest.not_dozing (h : s.AtRest o react) : s.logger.stance x ≠ .dozing := by
  intro hd
  obtain ⟨s', hs, -⟩ := step_of_dozing o react hd
  have hrest : s.step o react x.actor = none := h _ (by cases x <;> trivial)
  rw [hrest] at hs
  cases hs

theorem AtRest.worker (h : s.AtRest o react) :
    s.logger.worker = .asleep ∨ s.logger.worker = .exited := by
  by_contra hne
  obtain ⟨ha, he⟩ := not_or.mp hne
  have hd : s.logger.dispatcher ≠ .dozing := fun hd =>
    h.not_dozing (x := .dispatcher) (congrArg DispatcherPlace.stance hd)
  have hsome := Logger.workerStep_isSome (o := o) ha he hd
  rw [Option.map_eq_none_iff.mp (h .worker trivial)] at hsome
  cases hsome

theorem AtRest.unhailed (h : s.AtRest o react) : ¬ s.Hailed x := by
  cases x with
  | worker =>
    rintro ⟨b, cmd, hb⟩
    have hdrains : s.Drains (.caller b) := by
      cases b with
      | thread t => exact fun hidle => nomatch hb.symm.trans hidle
      | dispatcher => trivial
    cases h.callerWaits hdrains with
    | finished hp | locked hp | flushing hp | joining hp | joiningDispatcher hp =>
      rw [hb] at hp
      cases hp
  | dispatcher =>
    rintro ⟨r, hr⟩
    obtain hw | hw := h.worker <;> rw [hr] at hw <;> cases hw

theorem AtRest.queue (h : s.AtRest o react) (hr : Reachable o react (System.start store todo) s) :
    s.logger.queue = [] := by
  obtain hw | hw := h.worker
  · by_contra hq
    exact h.unhailed ((hr.heeds .worker).asleep (congrArg WorkerPlace.stance hw) hq)
  · obtain ⟨n, hn⟩ := hr.closing
    exact (hn.drained (by rw [hw]; rfl)).2

theorem AtRest.waits (h : s.AtRest o react) (hr : Reachable o react (System.start store todo) s)
    (ha : s.Drains (.caller a)) : (s.callers a).finished = true ∨
      ∃ x, (s.callers a).place = x.joining ∧ ¬ s.logger.Ended x := by
  cases h.callerWaits ha with
  | finished hp ht => exact .inl (by simp [Caller.finished, hp, ht])
  | locked _ hw =>
    exact absurd (congrArg WorkerPlace.stance hw) (h.not_dozing (x := .worker))
  | @flushing t hp ht =>
    -- the worker would have to be at work on the ticket
    exfalso
    obtain hdone | htaken | hmem := hr.awaited hp
    · exact ht hdone
    · exact h.worker.elim htaken.busy.1 htaken.busy.2.1
    · rw [h.queue hr] at hmem
      cases hmem
  | joining hp hw => exact .inr ⟨.worker, hp, hw⟩
  | joiningDispatcher hp hd => exact .inr ⟨.dispatcher, hp, hd⟩

theorem AtRest.dispatcher (h : s.AtRest o react)
    (hr : Reachable o react (System.start store todo) s) (hc : (s.callers .dispatcher).Modest) :
    s.logger.dispatcher = .asleep ∨ s.logger.dispatcher = .exited := by
  cases Logger.dispatcherWaits (Option.map_eq_none_iff.mp (h .dispatcher trivial)) with
  | asleep hp => exact .inl hp
  | exited hp => exact .inr hp
  | running _ hbusy =>
    obtain hdone | ⟨x, hx, -⟩ := h.waits hr (a := .dispatcher) trivial
    · rw [hbusy] at hdone
      cases hdone
    · have hstage := hc.outside
      rw [hx, x.joining_stage] at hstage
      cases hstage

theorem AtRest.stance (h : s.AtRest o react) (hr : Reachable o react (System.start store todo) s)
    (hc : (s.callers .dispatcher).Modest) (x : Waiter) :
    s.logger.stance x = .asleep ∨ s.logger.Ended x := by
  cases x with
  | worker => exact h.worker.imp_left (congrArg WorkerPlace.stance)
  | dispatcher => exact (h.dispatcher hr hc).imp_left (congrArg DispatcherPlace.stance)

theorem AtRest.posts (h : s.AtRest o react) (hr : Reachable o react (System.start store todo) s)
    (hc : (s.callers .dispatcher).Modest) : s.logger.posts = [] := by
  obtain hd | hd := h.dispatcher hr hc
  · by_contra hp
    exact h.unhailed ((hr.heeds .dispatcher).asleep (congrArg DispatcherPlace.stance hd) hp)
  · obtain ⟨n, hn⟩ := hr.closing
    exact (hn.delivered hd).2

/-- A shutdown notified the thread between its look and its sleep, and it sleeps for good. -/
def Missed (o : Outlet τ σ) (react : κ → String → Reaction κ) (s s₀ : System τ κ σ) : Prop :=
  ∃ a x u u₁, Reachable o react s₀ u ∧ u.Notifies o react a x u₁ ∧ u.logger.stance x = .dozing ∧
    Reachable o react u₁ s ∧ s.Stranded o react a x

theorem Stranded.missed (h : s.Stranded o react a x)
    (hr : Reachable o react (System.start store todo) s) :
    s.Missed o react (System.start store todo) := by
  obtain ⟨u, u₁, hu, hn, hrun⟩ := hr.waking_before h.joins
  obtain ⟨n, hclosing⟩ := hu.closing
  refine ⟨a, x, u, u₁, hu, hn, ?_, hrun, h⟩
  by_contra hw
  have hawake := hn.heard hclosing hw hrun
  rw [h.asleep] at hawake
  cases hawake

theorem AtRest.complete (h : s.AtRest o react) (hr : Reachable o react (System.start store todo) s)
    (hc : (s.callers .dispatcher).Modest) (hq : s.logger.requested = true) :
    s.Complete o ∨ s.Missed o react (System.start store todo) := by
  obtain ⟨n, hn⟩ := hr.closing
  have h₁ : 1 ≤ n := by simpa [hn.requested] using hq
  obtain h₇ | h₆ := Nat.lt_or_ge 6 n
  · exact .inl (hr.complete (by rw [hn.completed]; exact decide_eq_true h₇))
  obtain ⟨a, ha⟩ := hn.closer h₁ h₆
  have hstage : (s.callers a).place.stage ≠ 0 := by omega
  have hdrains : s.Drains (.caller a) := by
    cases a with
    | thread t =>
      intro hidle
      rw [hidle] at hstage
      exact hstage rfl
    | dispatcher => trivial
  obtain hdone | ⟨x, hx, hended⟩ := h.waits hr hdrains
  · rw [(Caller.idle_of_finished hdone).2] at hstage
    exact absurd rfl hstage
  · have hasleep := (h.stance hr hc x).resolve_right hended
    have hlost : s.Lost a x := ⟨hx, by rw [hasleep]; exact nofun, h.unhailed⟩
    exact .inr ((hlost.stranded hn hasleep).missed hr)

theorem exists_atRest (h : Acc (Follows o react Drains) s) :
    ∃ s', Relation.ReflTransGen (fun u u' => Follows o react Drains u' u) s s' ∧
      s'.AtRest o react := by
  induction h with
  | intro s _ ih =>
    by_cases hrest : s.AtRest o react
    · exact ⟨s, .refl, hrest⟩
    · simp only [AtRest, not_forall] at hrest
      obtain ⟨x, hx, hs⟩ := hrest
      obtain ⟨s₁, hs₁⟩ := Option.ne_none_iff_exists'.mp hs
      obtain ⟨s', hrun, hs'⟩ := ih s₁ ⟨x, hx, hs₁⟩
      exact ⟨s', .head ⟨x, hx, hs₁⟩ hrun, hs'⟩

theorem Reachable.queued_eq (h : Reachable o react s s') (hq : s.logger.requested = true) :
    s'.logger.queued = s.logger.queued := by
  refine (h.preserves (p := fun u => u.logger.requested = true ∧
    u.logger.queued = s.logger.queued) (fun {u u' y} ⟨hu, hsame⟩ hs => ?_) ⟨hq, rfl⟩).2
  refine ⟨(step_extends hs).requested hu, .trans ?_ hsame⟩
  obtain ⟨a, c, g, -, hm, rfl⟩ | ⟨g, -, hm, rfl⟩ | ⟨c, g, -, hm, rfl⟩ := step_cases hs
  · obtain ⟨es, hc⟩ := hm.carries
    obtain ⟨hopen, -⟩ | ⟨-, hnone⟩ := hc.gate
    · rw [hu] at hopen
      cases hopen
    · exact (hc.adds.told _).trans (by rw [hnone, List.append_nil])
  · obtain ⟨es, hadds, hes⟩ := hm.bystands.adds
    exact hadds.told_eq fun e he =>
      Event.queued?_of_not_isCallers (Event.not_isCallers_of_isWorkers (hes e he))
  · obtain ⟨es, hadds, hes⟩ := hm.bystands.1.adds
    exact hadds.told_eq fun e he =>
      Event.queued?_of_not_isCallers (Event.not_isCallers_of_isDispatchers (hes e he))

/-- What a request to stop comes to. No drain goes on for ever, in whatever order its steps are
taken, and each gets to where nobody can go on. -/
structure RunsDry (o : Outlet τ σ) (react : κ → String → Reaction κ) (s s₀ : System τ κ σ) :
    Prop where
  ends : ∀ (run : ℕ → System τ κ σ) (who : ℕ → Actor τ), run 0 = s →
    ¬ ∀ i, (run i).Drains (who i) ∧ (run i).step o react (who i) = some (run (i + 1))
  /-- Nor does a run in which finitely many threads take part, whatever calls these begin. -/
  within : ∀ (F : Finset (Agent τ)) (run : ℕ → System τ κ σ) (who : ℕ → Actor τ), run 0 = s →
    ¬ ∀ i, Within F (who i) ∧ (run i).step o react (who i) = some (run (i + 1))
  closed : ∀ s', Reachable o react s s' → s'.logger.queued = s.logger.queued
  /-- Each command that fails is reported once, so it causes one call of a handler at most. -/
  calls : ∀ s', Reachable o react s s' → ∃ ds last, s'.logger.Answers o react ds last ∧
    s'.logger.invocations.length ≤ ds.countP (·.2.isSome) + last.length
  rests : ∃ s', Relation.ReflTransGen (fun u u' => Follows o react Drains u' u) s s' ∧
    s'.AtRest o react
  empty : ∀ s', Reachable o react s s' → s'.AtRest o react →
    s'.logger.pending = [] ∧ s'.logger.posts = []
  /-- Both loops have ended and everything is done, unless a notification of the shutdown came before
  the thread that it was for fell asleep. -/
  exits : ∀ s', Reachable o react s s' → s'.AtRest o react →
    s'.Complete o ∨ s'.Missed o react s₀
  awake : ∀ x, s.logger.Asks x → s.logger.stance x = .awake → ∀ s', Reachable o react s s' →
    s'.AtRest o react → s'.logger.Ended x

theorem Reachable.runsDry (hr : Reachable o react (System.start store todo) s)
    (hq : s.logger.requested = true)
    (hcalls : ∀ h message, .shutdown ∉ (react h message).calls) :
    s.RunsDry o react (System.start store todo) where
  ends run who h₀ hrun :=
    (acc_iff_isEmpty_descending_chain.mp (hr.acc_drains hq)).false
      ⟨run, h₀, fun i => ⟨who i, hrun i⟩⟩
  within F run who h₀ hrun :=
    (acc_iff_isEmpty_descending_chain.mp (acc_within o react F hq)).false
      ⟨run, h₀, fun i => ⟨who i, hrun i⟩⟩
  closed s' h := h.queued_eq hq
  calls s' h := by
    obtain ⟨ds, last, ha⟩ := (hr.trans h).answers
    exact ⟨ds, last, ha, ha.invocations_length⟩
  rests := exists_atRest (hr.acc_drains hq)
  empty s' h hrest := by
    have hr' := hr.trans h
    have hbatch : s'.logger.worker.batch = [] := by
      obtain hw | hw := hrest.worker <;> rw [hw] <;> rfl
    exact ⟨by rw [Logger.pending, hbatch, hrest.queue hr', List.append_nil],
      hrest.posts hr' (hr'.modest hcalls)⟩
  exits s' h hrest :=
    hrest.complete (hr.trans h) ((hr.trans h).modest hcalls) (h.extends.requested hq)
  awake x ha hw s' h hrest := by
    have hr' := hr.trans h
    refine (hrest.stance hr' (hr'.modest hcalls) x).resolve_left fun hasleep => ?_
    have hawake := h.awake ha hw
    rw [hasleep] at hawake
    cases hawake

def grumble : Bool → String → Reaction Bool := fun h text =>
  ⟨[.log .error ("callback: " ++ text), .flush], if h then some "boom" else none⟩

/-- Lines for a file with no room, under one handler and under the other. -/
def hopeless : System Bool Bool Nat := System.start 0 fun t =>
  if t then [.log .info "3"]
  else [.onError (some true), .logfile "a.log" false, .log .info "1", .onError (some false),
    .log .info "2", .shutdown]

/-- Every line of the file fails, the switch to it included. The handlers' own lines, and one that
was past its first check at the request, are printed by those who log them. -/
theorem runsDry_with_grumbling_handlers : ∃ s s' : System Bool Bool Nat,
    Reachable cramped grumble hopeless s ∧ s.logger.requested = true ∧
    (∀ h message, Call.shutdown ∉ (grumble h message).calls) ∧
    s.RunsDry cramped grumble hopeless ∧ s.logger.queue.length = 5 ∧
    Reachable cramped grumble s s' ∧ s'.logger.completed = true ∧
    s'.logger.invocations.map Prod.fst = [true, true, false] ∧
    s'.logger.told Event.threw? = ["boom", "boom"] ∧
    s'.logger.fallen.map Record.body =
      List.replicate 3 ("callback: " ++ Logger.workerError (Sink.writeFailure (.file "a.log" false)))
        ++ ["3"] := by
  let me : Actor Bool := .caller (.thread false)
  let other : Actor Bool := .caller (.thread true)
  let called : List (Actor Bool) := .dispatcher :: List.replicate 3 (.caller .dispatcher) ++
    [.dispatcher]
  have hruns : (hopeless.runs cramped grumble ([other, other] ++ List.replicate 22 me)).any
      (fun s => decide (s.logger.requested = true ∧ s.logger.queue.length = 5) &&
        (s.runs cramped grumble (List.replicate 18 .worker ++ called ++ called ++ called ++
          [.dispatcher, .dispatcher, other] ++ List.replicate 4 me ++ [.dispatcher, me, me])).any
          fun s' => decide (s'.logger.completed = true ∧
            s'.logger.invocations.map Prod.fst = [true, true, false] ∧
            s'.logger.told Event.threw? = ["boom", "boom"] ∧
            s'.logger.fallen.map Record.body = List.replicate 3
              ("callback: " ++ Logger.workerError (Sink.writeFailure (.file "a.log" false)))
              ++ ["3"])) = true := by decide +kernel
  obtain ⟨s, hrun, hs⟩ := (Option.any_eq_true _ _).mp hruns
  simp only [Bool.and_eq_true, decide_eq_true_eq] at hs
  obtain ⟨⟨hq, hlength⟩, hs⟩ := hs
  obtain ⟨s', hrest, hs⟩ := (Option.any_eq_true _ _).mp hs
  simp only [decide_eq_true_eq] at hs
  obtain ⟨hcompleted, hinvoked, hthrew, hfallen⟩ := hs
  have hreach : Reachable cramped grumble hopeless s := Reachable.start.runs hrun
  have hcalls : ∀ h message, Call.shutdown ∉ (grumble h message).calls := by
    intro h message
    simp [grumble]
  exact ⟨s, s', hreach, hq, hcalls, Reachable.runsDry hreach hq hcalls, hlength,
    Reachable.start.runs hrest, hcompleted, hinvoked, hthrew, hfallen⟩

/-- No errors and no handlers: the notification falls between the worker's look and its sleep, and
nobody can go on, with neither loop at its end. -/
theorem drained_without_exit : ¬ ∀ s s' : System Bool Unit Nat,
    Reachable roomy (fun _ _ => ⟨[], none⟩) closer s → s.logger.requested = true →
    Reachable roomy (fun _ _ => ⟨[], none⟩) s s' → s'.AtRest roomy (fun _ _ => ⟨[], none⟩) →
    s'.logger.Ended .worker ∧ s'.logger.Ended .dispatcher := by
  intro hlaw
  let me : Actor Bool := .caller (.thread false)
  let quiet : Unit → String → Reaction Unit := fun _ _ => ⟨[], none⟩
  have hruns : (closer.runs roomy quiet [.worker, me, me]).any (fun s =>
      decide (s.logger.requested = true) &&
      (s.runs roomy quiet [me, .worker, .dispatcher, .dispatcher]).any fun s' =>
        [me, .worker, .dispatcher, .caller .dispatcher].all
          (fun x => (s'.step roomy quiet x).isNone) &&
        decide ((s'.callers (.thread true)).place = .idle ∧ s'.logger.worker = .asleep)) =
      true := by decide +kernel
  obtain ⟨s, hrun, hs⟩ := (Option.any_eq_true _ _).mp hruns
  obtain ⟨hq, hs⟩ := Bool.and_eq_true_iff.mp hs
  obtain ⟨s', hrest, hs⟩ := (Option.any_eq_true _ _).mp hs
  simp only [List.all_cons, List.all_nil, Bool.and_true, Bool.and_eq_true, Option.isNone_iff_eq_none,
    decide_eq_true_eq] at hs hq
  obtain ⟨⟨hme, hworker, hdispatcher, hhandler⟩, hidle, hasleep⟩ := hs
  have hatrest : s'.AtRest roomy quiet := by
    rintro ((t | _) | _ | _) hx
    · cases t
      · exact hme
      · exact absurd hidle hx
    · exact hhandler
    · exact hworker
    · exact hdispatcher
  have hended := (hlaw s s' (Reachable.start.runs hrun) hq (Reachable.start.runs hrest) hatrest).1
  cases hasleep.symm.trans hended

end System
end Logging
end CheckedLock
