import CheckedLock.Proofs.Logging.Completion

/-! Whether a request to stop reaches a thread that waits for work. The request is made without the
lock under which the thread looks for it, so the notification can come between the look and the
sleep. Then it is lost, and the shutdown waits for a thread that nobody wakes. -/
namespace CheckedLock
namespace Logging

variable {τ κ σ : Type} {o : Outlet τ σ}

/-- The threads that are asked to stop, notified, and waited for. -/
inductive Waiter
  | worker | dispatcher
  deriving DecidableEq, Repr

namespace Waiter

def waking : Waiter → Place τ κ
  | .worker => .waking
  | .dispatcher => .wakingDispatcher

def joining : Waiter → Place τ κ
  | .worker => .joining
  | .dispatcher => .joiningDispatcher

def actor : Waiter → Actor τ
  | .worker => .worker
  | .dispatcher => .dispatcher

def stage : Waiter → Nat
  | .worker => 1
  | .dispatcher => 4

theorem joining_stage (x : Waiter) : (x.joining : Place τ κ).stage = x.stage + 1 := by
  cases x <;> rfl

end Waiter

/-- How a thread stands to the notifications. -/
inductive Stance
  | awake
  /-- it has looked for something to do in vain and holds the lock still -/
  | dozing
  | asleep
  deriving DecidableEq, Repr

/-- What one step makes of the stance. -/
inductive Stance.Shifts (asked notified : Prop) : Stance → Stance → Prop
  | stays {p} : Shifts asked notified p p
  | dozes (h : ¬ asked) : Shifts asked notified .awake .dozing
  | sleeps : Shifts asked notified .dozing .asleep
  | wakes (h : notified) : Shifts asked notified .asleep .awake

namespace Stance.Shifts

variable {asked notified : Prop} {p q : Stance}

theorem awake (h : Shifts asked notified p q) (ha : asked) (hp : p = .awake) : q = .awake := by
  cases h with
  | stays => exact hp
  | dozes hd => exact absurd ha hd
  | sleeps => cases hp
  | wakes => rfl

theorem unnotified (h : Shifts asked notified p q) (hn : ¬ notified) (hp : p ≠ .awake) :
    q ≠ .awake ∧ (p = .asleep → q = .asleep) := by
  cases h with
  | stays => exact ⟨hp, id⟩
  | dozes => exact absurd rfl hp
  | sleeps => exact ⟨nofun, fun _ => rfl⟩
  | wakes hw => exact absurd hw hn

end Stance.Shifts

def WorkerPlace.stance : WorkerPlace τ κ → Stance
  | .dozing => .dozing
  | .asleep => .asleep
  | _ => .awake

def DispatcherPlace.stance : DispatcherPlace → Stance
  | .dozing => .dozing
  | .asleep => .asleep
  | _ => .awake

theorem WorkerPlace.stance_eq_dozing {p : WorkerPlace τ κ} : p.stance = .dozing ↔ p = .dozing := by
  cases p <;> simp [stance]

theorem DispatcherPlace.stance_eq_dozing {p : DispatcherPlace} :
    p.stance = .dozing ↔ p = .dozing := by
  cases p <;> simp [stance]

theorem WorkerPlace.stance_eq_asleep {p : WorkerPlace τ κ} : p.stance = .asleep ↔ p = .asleep := by
  cases p <;> simp [stance]

theorem DispatcherPlace.stance_eq_asleep {p : DispatcherPlace} :
    p.stance = .asleep ↔ p = .asleep := by
  cases p <;> simp [stance]

namespace Logger

variable {g g' : Logger τ κ σ} {a : Agent τ} {c c' : Caller τ κ} {x : Waiter}

def stance (g : Logger τ κ σ) : Waiter → Stance
  | .worker => g.worker.stance
  | .dispatcher => g.dispatcher.stance

def Asks (g : Logger τ κ σ) : Waiter → Prop
  | .worker => g.requested = true
  | .dispatcher => g.dispatcherRequested = true

@[simp] theorem wake_dispatcher : g.wake.dispatcher = g.dispatcher := by
  unfold wake
  split <;> rfl

@[simp] theorem wakeDispatcher_worker : g.wakeDispatcher.worker = g.worker := by
  unfold wakeDispatcher
  split <;> rfl

theorem wake_of_ne (h : g.worker ≠ .asleep) : g.wake = g := by
  unfold wake
  split
  case h_1 hw => exact absurd hw h
  case h_2 => rfl

theorem wakeDispatcher_of_ne (h : g.dispatcher ≠ .asleep) : g.wakeDispatcher = g := by
  unfold wakeDispatcher
  split
  case h_1 hd => exact absurd hd h
  case h_2 => rfl

def notify (g : Logger τ κ σ) : Waiter → Logger τ κ σ
  | .worker => g.wake
  | .dispatcher => g.wakeDispatcher

/-- A notification comes in vain to a thread that has not fallen asleep yet. -/
theorem notify_of_dozing (h : g.stance x = .dozing) : g.notify x = g := by
  cases x with
  | worker =>
    have hw : g.worker = .dozing := WorkerPlace.stance_eq_dozing.mp h
    exact wake_of_ne (by simp [hw])
  | dispatcher =>
    have hd : g.dispatcher = .dozing := DispatcherPlace.stance_eq_dozing.mp h
    exact wakeDispatcher_of_ne (by simp [hd])

theorem notify_stance (h : g.stance x ≠ .dozing) : (g.notify x).stance x = .awake := by
  cases x with
  | worker =>
    simp only [stance, notify] at h ⊢
    cases hw : g.worker <;> simp [wake, hw, WorkerPlace.stance] at h ⊢
  | dispatcher =>
    simp only [stance, notify] at h ⊢
    cases hd : g.dispatcher <;> simp [wakeDispatcher, hd, DispatcherPlace.stance] at h ⊢

theorem begin_waiters {call : Call κ} (h : begin o a c g call = (c', g')) :
    g'.worker = g.worker ∧ g'.dispatcher = g.dispatcher ∧
      g'.dispatcherRequested = g.dispatcherRequested ∧ ∀ cmd, c'.place ≠ .notifying cmd := by
  have : (begin o a c g call).2.worker = g.worker ∧
      (begin o a c g call).2.dispatcher = g.dispatcher ∧
      (begin o a c g call).2.dispatcherRequested = g.dispatcherRequested ∧
      ∀ cmd, (begin o a c g call).1.place ≠ .notifying cmd := by
    refine ⟨?_, ?_, ?_, fun cmd => ?_⟩ <;> cases call <;> simp only [begin] <;> (try split) <;>
      first | rfl | simp [finish]
  rwa [h] at this

theorem pushed_waiters {cmd : Command τ κ} (h : pushed a cmd c g = (c', g')) :
    g'.worker = g.worker ∧ g'.dispatcher = g.dispatcher ∧
      g'.dispatcherRequested = g.dispatcherRequested ∧ ∀ cmd', c'.place ≠ .notifying cmd' := by
  cases cmd <;> cases h <;> exact ⟨rfl, rfl, rfl, nofun⟩

/-- What a caller's step does to the threads that may sleep: it notifies them, if anything. -/
structure Rouses (c : Caller τ κ) (g : Logger τ κ σ) (c' : Caller τ κ) (g' : Logger τ κ σ) :
    Prop where
  worker : g'.worker = g.worker ∨ (∃ cmd, c.place = .notifying cmd) ∨ c.place = .waking
  dispatcher : g'.dispatcher = g.dispatcher ∨ c.place = .wakingDispatcher
  dispatcherRequested : g.dispatcherRequested = true → g'.dispatcherRequested = true
  pushed : ∀ cmd, c'.place = .notifying cmd → g.requested = false

theorem CallerMoves.rouses (h : CallerMoves o a c g c' g') : Rouses c g c' g' := by
  cases h with
  | calls hp ht hb =>
    obtain ⟨hw, hd, hq, hc⟩ := begin_waiters hb
    exact ⟨.inl hw, .inl hd, hq.trans, fun cmd hcmd => absurd hcmd (hc cmd)⟩
  | @refuses cmd hp hq _ _ he =>
    have hrefuse : (g.refuse cmd).worker = g.worker ∧ (g.refuse cmd).dispatcher = g.dispatcher ∧
        (g.refuse cmd).dispatcherRequested = g.dispatcherRequested := by
      cases cmd <;> exact ⟨rfl, rfl, rfl⟩
    obtain ⟨hw, hd, hr, hc⟩ := pushed_waiters he
    exact ⟨.inl (hw.trans hrefuse.1), .inl (hd.trans hrefuse.2.1), (hr.trans hrefuse.2.2).trans,
      fun cmd hcmd => absurd hcmd (hc cmd)⟩
  | @notifies cmd hp _ _ he =>
    obtain ⟨-, hd, hr, hc⟩ := pushed_waiters he
    exact ⟨.inr (.inl ⟨cmd, hp⟩), .inl (hd.trans wake_dispatcher),
      (hr.trans (staysOpen_wake g).dispatcherRequested).trans,
      fun cmd hcmd => absurd hcmd (hc cmd)⟩
  | pushes hp hq => exact ⟨.inl rfl, .inl rfl, id, fun _ _ => hq⟩
  | wakes hp =>
    exact ⟨.inr (.inr hp), .inl wake_dispatcher,
      (staysOpen_wake g).dispatcherRequested.trans, nofun⟩
  | claimsDispatcher => exact ⟨.inl rfl, .inl rfl, fun _ => rfl, nofun⟩
  | wakesDispatcher hp =>
    exact ⟨.inl wakeDispatcher_worker, .inr hp,
      (staysOpen_wakeDispatcher g).dispatcherRequested.trans, nofun⟩
  | _ => exact ⟨.inl rfl, .inl rfl, id, nofun⟩

theorem CallerMoves.waking_of_joining (h : CallerMoves o a c g c' g') (hp : c'.place = x.joining) :
    c.place = x.waking := by
  have hstage : c'.place.stage ≠ 0 := by
    rw [hp, x.joining_stage]
    exact Nat.succ_ne_zero _
  cases h with
  | calls _ _ hb => exact absurd (staysOpen_begin hb).2 hstage
  | refuses _ _ he | notifies _ he => exact absurd (stage_pushed he) hstage
  | wakes hp' =>
    cases x with
    | worker => exact hp'
    | dispatcher => cases hp
  | wakesDispatcher hp' =>
    cases x with
    | worker => cases hp
    | dispatcher => exact hp'
  | _ => cases x <;> cases hp

theorem CallerMoves.awake_of_joining (h : CallerMoves o a c g c' g') (hp : c.place = x.joining) :
    g.stance x = .awake := by
  have hstage : c.place.stage ≠ 0 := by
    rw [hp, x.joining_stage]
    exact Nat.succ_ne_zero _
  cases h with
  | joins hp' hw =>
    cases x with
    | worker => simp only [stance, hw, WorkerPlace.stance]
    | dispatcher => simp [hp', Waiter.joining] at hp
  | joinsDispatcher hp' hd =>
    cases x with
    | worker => simp [hp', Waiter.joining] at hp
    | dispatcher => simp only [stance, hd, DispatcherPlace.stance]
  | refuses hp' => rcases hp' with hp' | hp' <;> exact absurd (by rw [hp']; rfl) hstage
  | returns hp' =>
    rcases hp' with ⟨_, hp', -⟩ | ⟨_, hp', -⟩ | ⟨hp', -⟩ <;> exact absurd (by rw [hp']; rfl) hstage
  | calls hp' | looks hp' | pushes hp' | notifies hp' | waits hp' | claims hp' | wakes hp'
    | skipsDispatcher hp' | claimsDispatcher hp' | wakesDispatcher hp' | completes hp' =>
    cases x <;> simp [hp', Waiter.joining] at hp

variable {notified : Prop}

theorem CallerMoves.shifts (h : CallerMoves o a c g c' g')
    (hn : c.place = x.waking → notified)
    (hc : x = .worker → ∀ cmd, c.place = .notifying cmd → notified) :
    Stance.Shifts (g.Asks x) notified (g.stance x) (g'.stance x) := by
  cases x with
  | worker =>
    obtain hw | ⟨hold, hnew⟩ := h.spares.worker
    · simp only [stance, hw]
      exact .stays
    · have hnotified : notified := by
        obtain hw | ⟨cmd, hp⟩ | hp := h.rouses.worker
        · rw [hold, hnew] at hw
          cases hw
        · exact hc rfl cmd hp
        · exact hn hp
      simp only [stance, hold, hnew, WorkerPlace.stance]
      exact .wakes hnotified
  | dispatcher =>
    obtain hd | ⟨hold, hnew⟩ := h.spares.dispatcher
    · simp only [stance, hd]
      exact .stays
    · have hnotified : notified := by
        obtain hd | hp := h.rouses.dispatcher
        · rw [hold, hnew] at hd
          cases hd
        · exact hn hp
      simp only [stance, hold, hnew, DispatcherPlace.stance]
      exact .wakes hnotified

theorem reported_waiters (r : Report τ κ) :
    (g.reported r).worker.stance = .awake ∧ (g.reported r).dispatcher = g.dispatcher := by
  cases hr : r.rest <;> cases ht : r.ticket <;>
    simp [reported, proceed, honour, WorkerPlace.stance, hr, ht]

theorem put_waiters (r : Record τ) (rest : List (Command τ κ)) :
    (g.put o r rest).worker.stance = .awake ∧ (g.put o r rest).dispatcher = g.dispatcher := by
  obtain ⟨store, -, h⟩ | ⟨text, -, h⟩ := put_cases o g r rest <;> rw [h] <;> exact ⟨rfl, rfl⟩

theorem handle_waiters (cmd : Command τ κ) (rest : List (Command τ κ)) :
    (g.handle o rest cmd).worker.stance = .awake ∧
      (g.handle o rest cmd).dispatcher = g.dispatcher := by
  cases cmd with
  | write r => exact put_waiters r rest
  | select s =>
    simp only [handle]
    split
    case h_1 => exact ⟨rfl, rfl⟩
    case h_2 store _ =>
      exact put_waiters (o := o) (g := { g with store := store, sink := s }) (.switched g.sink) rest
  | flush ticket =>
    simp only [handle]
    split <;> exact ⟨rfl, rfl⟩
  | openFailed _ | onError _ => exact ⟨rfl, rfl⟩

theorem WorkerMoves.shifts (h : WorkerMoves o g g')
    (hn : x = .dispatcher → ∀ r, g.worker = .alerting r → notified) :
    Stance.Shifts (g.Asks x) notified (g.stance x) (g'.stance x) := by
  cases x with
  | worker =>
    have hbusy : g.worker.stance = .awake → g'.worker.stance = .awake →
        Stance.Shifts (g.Asks .worker) notified g.worker.stance g'.worker.stance := by
      intro hold hnew
      rw [hold, hnew]
      exact .stays
    cases h with
    | dozes hp he hq =>
      simp only [stance, hp, WorkerPlace.stance]
      exact .dozes (by simp [Asks, hq])
    | sleeps hp =>
      simp only [stance, hp, WorkerPlace.stance]
      exact .sleeps
    | handles hp => exact hbusy (by rw [hp]; rfl) (handle_waiters _ _).1
    | prints hp | drops hp | alerts hp => exact hbusy (by rw [hp]; rfl) (reported_waiters _).1
    | closes hp | takes hp | ends hp | addresses hp | posts hp | leaves hp | failsToFlush hp =>
      exact hbusy (by rw [hp]; rfl) rfl
  | dispatcher =>
    have hsame : g'.dispatcher = g.dispatcher →
        Stance.Shifts (g.Asks .dispatcher) notified g.dispatcher.stance g'.dispatcher.stance := by
      intro hd
      rw [hd]
      exact .stays
    cases h with
    | handles => exact hsame (handle_waiters _ _).2
    | prints | drops => exact hsame (reported_waiters _).2
    | @alerts r hp =>
      have hd : (g.wakeDispatcher.reported r).dispatcher = g.wakeDispatcher.dispatcher :=
        (reported_waiters r).2
      by_cases hold : g.dispatcher = .asleep
      · have hnew : g.wakeDispatcher.dispatcher = .evaluating := by simp [wakeDispatcher, hold]
        simp only [stance, hold, hd, hnew, DispatcherPlace.stance]
        exact .wakes (hn rfl r hp)
      · exact hsame (hd.trans (by rw [wakeDispatcher_of_ne hold]))
    | _ => exact hsame rfl

theorem DispatcherMoves.shifts {react : κ → String → Reaction κ}
    (h : DispatcherMoves react c g c' g') :
    Stance.Shifts (g.Asks x) notified (g.stance x) (g'.stance x) := by
  cases x with
  | worker =>
    simp only [stance, h.serves.1.worker]
    exact .stays
  | dispatcher =>
    cases h with
    | dozes hp he hq =>
      simp only [stance, hp, DispatcherPlace.stance]
      exact .dozes (by simp [Asks, hq])
    | sleeps hp =>
      simp only [stance, hp, DispatcherPlace.stance]
      exact .sleeps
    | exits hp | invokes hp | ends hp =>
      simp only [stance, hp, DispatcherPlace.stance]
      exact .stays
    | throws hp =>
      simp only [stance, note, hp, DispatcherPlace.stance]
      exact .stays

end Logger

namespace System

variable [DecidableEq τ] {react : κ → String → Reaction κ} {s s' s₁ s₂ : System τ κ σ}
  {a : Agent τ} {x : Waiter} {n : Nat}

/-- A notification of something to do is on its way to the thread. -/
def Hailed (s : System τ κ σ) : Waiter → Prop
  | .worker => ∃ b cmd, (s.callers b).place = .notifying cmd
  | .dispatcher => ∃ r, s.logger.worker = .alerting r

theorem step_shifts {y : Actor τ} (h : s.step o react y = some s') (x : Waiter) :
    Stance.Shifts (s.logger.Asks x) (s.Hailed x ∨ ∃ b, (s.callers b).place = x.waking)
      (s.logger.stance x) (s'.logger.stance x) := by
  obtain ⟨b, c, g, -, hm, rfl⟩ | ⟨g, -, hm, rfl⟩ | ⟨c, g, -, hm, rfl⟩ := step_cases h
  · refine hm.shifts (fun hp => .inr ⟨b, hp⟩) ?_
    rintro rfl cmd hp
    exact .inl ⟨b, cmd, hp⟩
  · refine hm.shifts ?_
    rintro rfl r hp
    exact .inl ⟨r, hp⟩
  · exact hm.shifts

theorem step_asks {y : Actor τ} (h : s.step o react y = some s') (hx : s.logger.Asks x) :
    s'.logger.Asks x := by
  cases x with
  | worker => exact (step_extends h).requested hx
  | dispatcher =>
    obtain ⟨b, c, g, -, hm, rfl⟩ | ⟨g, -, hm, rfl⟩ | ⟨c, g, -, hm, rfl⟩ := step_cases h
    · exact hm.rouses.dispatcherRequested hx
    · exact hm.works.1.dispatcherRequested.trans hx
    · exact hm.serves.1.dispatcherRequested.trans hx

omit [DecidableEq τ] in
theorem Closing.of_waking (h : s.Closing n) (hp : (s.callers a).place = x.waking) :
    n = x.stage := by
  cases x <;> exact h.stage_eq (by rw [hp]; rfl)

omit [DecidableEq τ] in
theorem Closing.of_joining (h : s.Closing n) (hp : (s.callers a).place = x.joining) :
    n = x.stage + 1 :=
  h.stage_eq (by rw [hp, x.joining_stage])

omit [DecidableEq τ] in
theorem Closing.asks (h : s.Closing n) (hn : x.stage ≤ n) : s.logger.Asks x := by
  cases x with
  | worker => exact h.requested.trans (decide_eq_true hn)
  | dispatcher => exact h.dispatcherRequested.trans (decide_eq_true hn)

omit [DecidableEq τ] in
theorem Closing.asks_of_joining (h : s.Closing n) (hp : (s.callers a).place = x.joining) :
    s.logger.Asks x :=
  h.asks (by rw [h.of_joining hp]; exact Nat.le_succ _)

omit [DecidableEq τ] in
/-- The worker ends before the dispatcher is asked, so that it has nothing more to post. -/
theorem Closing.unhailed (h : s.Closing n) (h₃ : 3 ≤ n) : ¬ s.Hailed .dispatcher := by
  rintro ⟨r, hr⟩
  rw [h.joined h₃] at hr
  cases hr

omit [DecidableEq τ] in
theorem Closing.no_waking (h : s.Closing n) (ha : (s.callers a).place = x.joining) :
    ¬ ∃ b, (s.callers b).place = x.waking := by
  rintro ⟨b, hb⟩
  have hsame : x.stage + 1 = x.stage := (h.of_joining ha).symm.trans (h.of_waking hb)
  omega

/-! An answered request: the thread is awake and will not sleep again. -/

theorem Reachable.awake (h : Reachable o react s s') (ha : s.logger.Asks x)
    (hw : s.logger.stance x = .awake) : s'.logger.stance x = .awake :=
  (h.preserves (p := fun u => u.logger.Asks x ∧ u.logger.stance x = .awake)
    (fun ⟨ha, hw⟩ hs => ⟨step_asks hs ha, (step_shifts hs x).awake ha hw⟩) ⟨ha, hw⟩).2

/-! A lost one: nobody is left to wake the thread. -/

/-- `a` waits for the end of a thread that sleeps, or is about to, and no notification is on its
way. -/
structure Lost (s : System τ κ σ) (a : Agent τ) (x : Waiter) : Prop where
  joins : (s.callers a).place = x.joining
  idles : s.logger.stance x ≠ .awake
  unhailed : ¬ s.Hailed x

theorem Lost.step (h : s.Lost a x) (hn : s.Closing n) {y : Actor τ}
    (hs : s.step o react y = some s') :
    s'.Lost a x ∧ (s.logger.stance x = .asleep → s'.logger.stance x = .asleep) := by
  obtain ⟨m, hm⟩ := hn.step hs
  have hjoins : (s'.callers a).place = x.joining := by
    obtain hmoves | ⟨hp, -⟩ := step_view hs a
    · exact absurd (hmoves.awake_of_joining h.joins) h.idles
    · exact hp.trans h.joins
  obtain ⟨hidles, hasleep⟩ :=
    (step_shifts hs x).unnotified (not_or.mpr ⟨h.unhailed, hn.no_waking h.joins⟩) h.idles
  refine ⟨⟨hjoins, hidles, ?_⟩, hasleep⟩
  cases x with
  | worker =>
    -- the queue is closed, so nothing has been pushed in this step
    rintro ⟨b, cmd, hb⟩
    obtain hmoves | ⟨hp, -⟩ := step_view hs b
    · have hopen : s.logger.requested = false := hmoves.rouses.pushed cmd hb
      have hasked : s.logger.requested = true := hn.asks_of_joining (x := .worker) h.joins
      rw [hopen] at hasked
      cases hasked
    · exact h.unhailed ⟨b, cmd, hp.symm.trans hb⟩
  | dispatcher => exact hm.unhailed (by rw [hm.of_joining hjoins]; decide)

theorem Closing.afterwards (h : s.Closing n) (hrun : Reachable o react s s') :
    ∃ m, s'.Closing m :=
  hrun.preserves (p := fun u => ∃ m, u.Closing m) (fun ⟨_, hu⟩ hs => hu.step hs) ⟨n, h⟩

theorem Lost.stays (h : s.Lost a x) (hn : s.Closing n) (hrun : Reachable o react s s') :
    s'.Lost a x ∧ (s.logger.stance x = .asleep → s'.logger.stance x = .asleep) := by
  induction hrun with
  | start => exact ⟨h, id⟩
  | step y hrun hs ih =>
    obtain ⟨m, hm⟩ := hn.afterwards hrun
    obtain ⟨hlost, hasleep⟩ := ih.1.step hm hs
    exact ⟨hlost, hasleep ∘ ih.2⟩

/-- A thread that has been asked to stop sleeps, and no step of any run wakes it or brings back the
call that waits for it. -/
structure Stranded (o : Outlet τ σ) (react : κ → String → Reaction κ) (s : System τ κ σ)
    (a : Agent τ) (x : Waiter) : Prop where
  asked : s.logger.Asks x
  joins : (s.callers a).place = x.joining
  asleep : s.logger.stance x = .asleep
  unhailed : ¬ s.Hailed x
  forever : ∀ s', Reachable o react s s' →
    s'.logger.stance x = .asleep ∧ (s'.callers a).place = x.joining ∧ s'.logger.completed = false

omit [DecidableEq τ] in
theorem Lost.unfinished (h : s.Lost a x) (hn : s.Closing n) : s.logger.completed = false := by
  rw [hn.completed, hn.of_joining h.joins]
  cases x <;> rfl

theorem Lost.stranded (h : s.Lost a x) (hn : s.Closing n) (hw : s.logger.stance x = .asleep) :
    s.Stranded o react a x where
  asked := hn.asks_of_joining h.joins
  joins := h.joins
  asleep := hw
  unhailed := h.unhailed
  forever s' hrun := by
    obtain ⟨hlost, hasleep⟩ := h.stays hn hrun
    obtain ⟨m, hm⟩ := hn.afterwards hrun
    exact ⟨hasleep hw, hlost.joins, hlost.unfinished hm⟩

/-- `a`, which has made the request, notifies the thread. -/
structure Notifies (o : Outlet τ σ) (react : κ → String → Reaction κ) (s : System τ κ σ)
    (a : Agent τ) (x : Waiter) (s₁ : System τ κ σ) : Prop where
  place : (s.callers a).place = x.waking
  step : s.step o react (.caller a) = some s₁

theorem step_waking (hp : (s.callers a).place = x.waking) : s.step o react (.caller a) =
    some { s.setCaller a { s.callers a with place := x.joining } with
      logger := s.logger.notify x } := by
  cases x <;> simp [step, Logger.callerStep, hp, Waiter.waking, Waiter.joining, Logger.notify]

theorem Notifies.eq (h : s.Notifies o react a x s₁) : s₁ =
    { s.setCaller a { s.callers a with place := x.joining } with logger := s.logger.notify x } :=
  Option.some.inj (h.step.symm.trans (step_waking h.place))

theorem Notifies.joins (h : s.Notifies o react a x s₁) : (s₁.callers a).place = x.joining := by
  simp [h.eq]

theorem Notifies.dozing (h : s.Notifies o react a x s₁) (hw : s.logger.stance x = .dozing) :
    s₁.logger = s.logger := by
  rw [h.eq]
  exact Logger.notify_of_dozing hw

theorem Notifies.hailed (h : s.Notifies o react a x s₁) (hw : s.logger.stance x = .dozing)
    (hx : s₁.Hailed x) : s.Hailed x := by
  cases x with
  | worker =>
    obtain ⟨b, cmd, hb⟩ := hx
    by_cases hba : b = a
    · subst hba
      rw [h.joins] at hb
      cases hb
    · rw [h.eq] at hb
      exact ⟨b, cmd, by simpa [setCaller_ne s _ hba] using hb⟩
  | dispatcher =>
    obtain ⟨r, hr⟩ := hx
    exact ⟨r, by rwa [h.dozing hw] at hr⟩

theorem Notifies.lost (h : s.Notifies o react a x s₁) (hw : s.logger.stance x = .dozing)
    (hx : ¬ s.Hailed x) : s₁.Lost a x where
  joins := h.joins
  idles := by
    rw [h.dozing hw, hw]
    exact nofun
  unhailed := fun hx' => hx (h.hailed hw hx')

/-- All that have pushed something and not yet notified the worker of it are among these. -/
def HailedBy (s : System τ κ σ) (l : List (Agent τ)) : Prop :=
  ∀ b cmd, (s.callers b).place = .notifying cmd → b ∈ l

theorem HailedBy.setCaller {l : List (Agent τ)} (h : s.HailedBy l) (b : Agent τ)
    (c : Caller τ κ) : (s.setCaller b c).HailedBy (b :: l) := by
  intro b' cmd hb'
  by_cases hbb : b' = b
  · exact hbb ▸ List.mem_cons_self
  · rw [setCaller_ne s c hbb] at hb'
    exact List.mem_cons_of_mem b (h b' cmd hb')

theorem Reachable.hailedBy {store : σ} {todo : τ → List (Call κ)}
    (hr : Reachable o react (System.start store todo) s) : ∃ l, s.HailedBy l := by
  induction hr with
  | start => exact ⟨[], fun b cmd hb => by cases b <;> cases hb⟩
  | step y _ hs ih =>
    obtain ⟨l, hl⟩ := ih
    obtain ⟨b, c, g, -, -, rfl⟩ | ⟨g, -, -, rfl⟩ | ⟨c, g, -, -, rfl⟩ := step_cases hs
    · exact ⟨b :: l, hl.setCaller b c⟩
    · exact ⟨l, hl⟩
    · exact ⟨.dispatcher :: l, hl.setCaller .dispatcher c⟩

/-- While the worker is about to sleep, all these notifications can come, in vain. -/
theorem quieten (o : Outlet τ σ) (react : κ → String → Reaction κ) {l : List (Agent τ)}
    (hl : s.HailedBy l) (hw : s.logger.worker = .dozing)
    (ha : (s.callers a).place = .joining) : ∃ s', Reachable o react s s' ∧
      s'.logger.worker = .dozing ∧ (s'.callers a).place = .joining ∧ ¬ s'.Hailed .worker := by
  induction l generalizing s with
  | nil =>
    refine ⟨s, .start, hw, ha, ?_⟩
    rintro ⟨b, cmd, hb⟩
    exact absurd (hl b cmd hb) List.not_mem_nil
  | cons b l ih =>
    by_cases hb : ∃ cmd, (s.callers b).place = .notifying cmd
    · obtain ⟨cmd, hb⟩ := hb
      obtain ⟨c, g, hpushed⟩ : ∃ c g, Logger.pushed b cmd (s.callers b) s.logger.wake = (c, g) :=
        ⟨_, _, rfl⟩
      obtain ⟨hg, -, -, hc⟩ := Logger.pushed_waiters hpushed
      have hstep : s.step o react (.caller b) = some { s.setCaller b c with logger := g } := by
        simp [step, Logger.callerStep, hb, hpushed]
      have hab : a ≠ b := by
        rintro rfl
        rw [ha] at hb
        cases hb
      have hasleep : s.logger.worker ≠ .asleep := by simp [hw]
      have hl' : ({ s.setCaller b c with logger := g } : System τ κ σ).HailedBy l := by
        intro b' cmd' hb'
        by_cases hbb : b' = b
        · subst hbb
          exact absurd (by simpa using hb') (hc cmd')
        · have hmem := hl b' cmd' (by simpa [setCaller_ne s c hbb] using hb')
          exact (List.mem_cons.mp hmem).resolve_left hbb
      obtain ⟨s', hrun, h⟩ := ih hl' (by rw [hg, Logger.wake_of_ne hasleep, hw])
        (by simpa [setCaller_ne s c hab] using ha)
      exact ⟨s', (Reachable.start.step _ hstep).trans hrun, h⟩
    · refine ih (fun b' cmd hb' => ?_) hw ha
      refine (List.mem_cons.mp (hl b' cmd hb')).resolve_left ?_
      rintro rfl
      exact hb ⟨cmd, hb'⟩

theorem step_of_dozing (o : Outlet τ σ) (react : κ → String → Reaction κ)
    (hw : s.logger.stance x = .dozing) :
    ∃ s', s.step o react x.actor = some s' ∧ s'.logger.stance x = .asleep := by
  cases x with
  | worker =>
    have hw : s.logger.worker = .dozing := WorkerPlace.stance_eq_dozing.mp hw
    have hs : s.logger.workerStep o = some { s.logger with worker := .asleep } := by
      simp [Logger.workerStep, hw]
    exact ⟨_, congrArg (Option.map _) hs, rfl⟩
  | dispatcher =>
    have hd : s.logger.dispatcher = .dozing := DispatcherPlace.stance_eq_dozing.mp hw
    exact ⟨_, congrArg (Option.map _) (Logger.dispatcherStep_of_dozing hd), rfl⟩

theorem Lost.ends_stranded (h : s.Lost a x) (hn : s.Closing n) :
    ∃ s', Reachable o react s s' ∧ s'.Stranded o react a x := by
  cases hw : s.logger.stance x with
  | awake => exact absurd hw h.idles
  | asleep => exact ⟨s, .start, h.stranded hn hw⟩
  | dozing =>
    obtain ⟨s', hs, hw'⟩ := step_of_dozing o react hw
    obtain ⟨m, hm⟩ := hn.step hs
    exact ⟨s', .step _ .start hs, (h.step hn hs).1.stranded hm hw'⟩

variable {store : σ} {todo : τ → List (Call κ)}

/-- A notification that comes before the sleep can strand the thread, whoever else is to notify
it. -/
theorem Reachable.stranding (hr : Reachable o react (System.start store todo) s)
    (hs : s.Notifies o react a x s₁) (hw : s.logger.stance x = .dozing) :
    ∃ s₂, Reachable o react s₁ s₂ ∧ s₂.Stranded o react a x := by
  have hr₁ : Reachable o react (System.start store todo) s₁ := hr.step _ hs.step
  have hw₁ : s₁.logger.stance x = .dozing := by rw [hs.dozing hw, hw]
  obtain ⟨u, hu, hlost⟩ : ∃ u, Reachable o react s₁ u ∧ u.Lost a x := by
    cases x with
    | worker =>
      obtain ⟨l, hl⟩ := hr₁.hailedBy
      obtain ⟨u, hu, hwu, hau, hhailed⟩ := quieten o react hl
        (WorkerPlace.stance_eq_dozing.mp hw₁) hs.joins
      exact ⟨u, hu, hau, by simp [Logger.stance, hwu, WorkerPlace.stance], hhailed⟩
    | dispatcher =>
      obtain ⟨n, hn⟩ := hr.closing
      exact ⟨s₁, .start, hs.lost hw (hn.unhailed (by rw [hn.of_waking hs.place]; decide))⟩
  obtain ⟨m, hm⟩ := (hr₁.trans hu).closing
  obtain ⟨s₂, hrun, hstranded⟩ := hlost.ends_stranded hm
  exact ⟨s₂, hu.trans hrun, hstranded⟩

theorem Notifies.heard (h : s.Notifies o react a x s₁) (hn : s.Closing n)
    (hw : s.logger.stance x ≠ .dozing) (hrun : Reachable o react s₁ s₂) :
    s₂.logger.stance x = .awake := by
  have hasks : s.logger.Asks x := hn.asks (Nat.le_of_eq (hn.of_waking h.place).symm)
  refine hrun.awake (step_asks h.step hasks) ?_
  rw [h.eq]
  exact Logger.notify_stance hw

theorem Reachable.waking_before (hr : Reachable o react (System.start store todo) s)
    (ha : (s.callers a).place = x.joining) : ∃ u u₁, Reachable o react (System.start store todo) u ∧
      u.Notifies o react a x u₁ ∧ Reachable o react u₁ s := by
  induction hr with
  | start => cases a <;> cases x <;> cases ha
  | @step v s y hr hs ih =>
    by_cases hp : (v.callers a).place = x.joining
    · obtain ⟨u, u₁, hu, hn, hrun⟩ := ih hp
      exact ⟨u, u₁, hu, hn, hrun.step y hs⟩
    · obtain ⟨hy, hplace⟩ : y = .caller a ∧ (v.callers a).place = x.waking := by
        obtain ⟨b, c, g, rfl, hm, rfl⟩ | ⟨g, -, hm, rfl⟩ | ⟨c, g, -, hm, rfl⟩ := step_cases hs
        · by_cases hba : a = b
          · subst hba
            exact ⟨rfl, hm.waking_of_joining (by simpa using ha)⟩
          · exact absurd (by simpa [setCaller_ne v c hba] using ha) hp
        · exact absurd ha hp
        · by_cases had : a = .dispatcher
          · subst had
            exact absurd (hm.bystands.2.1.symm.trans (by simpa using ha)) hp
          · exact absurd (by simpa [setCaller_ne v c had] using ha) hp
      subst hy
      exact ⟨v, s, hr, ⟨hplace, hs⟩, .start⟩

/-- How the requests to stop come to the threads that they are for. -/
structure WakeUps (o : Outlet τ σ) (react : κ → String → Reaction κ) (s s₀ : System τ κ σ) :
    Prop where
  given : ∀ a x, (s.callers a).place = x.waking → ∃ s₁, s.Notifies o react a x s₁
  /-- A thread that is waited for has been asked and notified, and it is awake unless that was
  between its look and its sleep. -/
  notified : ∀ a x, (s.callers a).place = x.joining → s.logger.Asks x ∧
    ∃ u u₁, Reachable o react s₀ u ∧ u.Notifies o react a x u₁ ∧ Reachable o react u₁ s ∧
      (u.logger.stance x ≠ .dozing → s.logger.stance x = .awake)
  heard : ∀ a x s₁ s₂, s.Notifies o react a x s₁ → s.logger.stance x ≠ .dozing →
    Reachable o react s₁ s₂ → s₂.logger.stance x = .awake
  /-- One that is between its look and its sleep can be left asleep for good. -/
  missed : ∀ a x s₁, s.Notifies o react a x s₁ → s.logger.stance x = .dozing →
    ∃ s₂, Reachable o react s₁ s₂ ∧ s₂.Stranded o react a x
  /-- It never gets up in any run, and the shutdown never returns, when no notification of something
  to do is on its way to it. -/
  lost : ∀ a x s₁ s₂, s.Notifies o react a x s₁ → s.logger.stance x = .dozing → ¬ s.Hailed x →
    Reachable o react s₁ s₂ → s₂.logger.stance x ≠ .awake ∧ (s₂.callers a).place = x.joining ∧
      s₂.logger.completed = false
  alone : ∀ a, (s.callers a).place = .wakingDispatcher → ¬ s.Hailed .dispatcher
  stranded : ∀ a x, (s.callers a).place = x.joining → s.logger.stance x = .asleep → ¬ s.Hailed x →
    s.Stranded o react a x

theorem Reachable.wakeUps (hr : Reachable o react (System.start store todo) s) :
    s.WakeUps o react (System.start store todo) := by
  obtain ⟨n, hn⟩ := hr.closing
  exact {
    given := fun a x ha => ⟨_, ha, step_waking ha⟩
    notified := fun a x ha => by
      obtain ⟨u, u₁, hu, hnotifies, hrun⟩ := hr.waking_before ha
      obtain ⟨m, hm⟩ := hu.closing
      exact ⟨hn.asks_of_joining ha, u, u₁, hu, hnotifies, hrun,
        fun hw => hnotifies.heard hm hw hrun⟩
    heard := fun a x s₁ s₂ hs hw hrun => hs.heard hn hw hrun
    missed := fun a x s₁ hs hw => hr.stranding hs hw
    lost := fun a x s₁ s₂ hs hw hx hrun => by
      obtain ⟨n₁, hn₁⟩ := hn.step hs.step
      obtain ⟨n₂, hn₂⟩ := hn₁.afterwards hrun
      obtain ⟨hlost, -⟩ := (hs.lost hw hx).stays hn₁ hrun
      exact ⟨hlost.idles, hlost.joins, hlost.unfinished hn₂⟩
    alone := fun a ha => hn.unhailed (by rw [hn.of_waking (x := .dispatcher) ha]; decide)
    stranded := fun a x ha hw hx => (Lost.mk ha (by rw [hw]; exact nofun) hx).stranded hn hw }

/-- One thread shuts down a logger that nobody has used. -/
def closer : System Bool Unit Nat := System.start 0 fun t => if t then [] else [.shutdown]

theorem wakeUps_of_sleeper : ∃ s s₁ : System Bool Unit Nat,
    Reachable roomy (fun _ _ => ⟨[], none⟩) closer s ∧ s.logger.stance .worker = .asleep ∧
    s.Notifies roomy (fun _ _ => ⟨[], none⟩) (.thread false) .worker s₁ ∧
    ∀ s₂, Reachable roomy (fun _ _ => ⟨[], none⟩) s₁ s₂ → s₂.logger.stance .worker = .awake := by
  let me : Actor Bool := .caller (.thread false)
  have hruns : (closer.runs roomy (fun _ _ => ⟨[], none⟩) [.worker, .worker, me, me]).any
      (fun s => decide (s.logger.stance .worker = .asleep ∧
        (s.callers (.thread false)).place = .waking)) = true := by
    decide +kernel
  obtain ⟨s, hrun, hs⟩ := (Option.any_eq_true _ _).mp hruns
  simp only [decide_eq_true_eq] at hs
  obtain ⟨hasleep, hplace⟩ := hs
  have hreach : Reachable roomy (fun _ _ => ⟨[], none⟩) closer s := Reachable.start.runs hrun
  have hwake := Reachable.wakeUps hreach
  obtain ⟨s₁, hnotifies⟩ := hwake.given (.thread false) .worker hplace
  exact ⟨s, s₁, hreach, hasleep, hnotifies, fun s₂ =>
    hwake.heard _ _ s₁ s₂ hnotifies (by rw [hasleep]; exact nofun)⟩

/-- Both threads can be left asleep: the worker, when it has looked before the request and falls
asleep after the notification, and in the same way the dispatcher. -/
theorem stranded_by_shutdown :
    (∃ s, Reachable roomy (fun _ _ => ⟨[], none⟩) closer s ∧
      s.Stranded roomy (fun _ _ => ⟨[], none⟩) (.thread false) .worker) ∧
    ∃ s, Reachable roomy (fun _ _ => ⟨[], none⟩) closer s ∧
      s.Stranded roomy (fun _ _ => ⟨[], none⟩) (.thread false) .dispatcher := by
  let me : Actor Bool := .caller (.thread false)
  constructor
  · have hruns : (closer.runs roomy (fun _ _ => ⟨[], none⟩)
        [.worker, me, me, me, .worker]).any (fun s => decide (s.logger.stance .worker = .asleep ∧
          (s.callers (.thread false)).place = .joining ∧
          (s.callers (.thread true)).place = .idle ∧ (s.callers .dispatcher).place = .idle)) =
        true := by
      decide +kernel
    obtain ⟨s, hrun, hs⟩ := (Option.any_eq_true _ _).mp hruns
    simp only [decide_eq_true_eq] at hs
    obtain ⟨hasleep, hjoins, hother, hdisp⟩ := hs
    have hreach : Reachable roomy (fun _ _ => ⟨[], none⟩) closer s := Reachable.start.runs hrun
    obtain ⟨n, hn⟩ := hreach.closing
    have hunhailed : ¬ s.Hailed .worker := by
      rintro ⟨(t | _), cmd, hb⟩
      · cases t <;> simp [hjoins, hother] at hb
      · simp [hdisp] at hb
    have hlost : s.Lost (.thread false) .worker :=
      ⟨hjoins, by rw [hasleep]; exact nofun, hunhailed⟩
    exact ⟨s, hreach, hlost.stranded hn hasleep⟩
  · have hruns : (closer.runs roomy (fun _ _ => ⟨[], none⟩)
        [me, me, me, .worker, .worker, .dispatcher, me, me, me, .dispatcher]).any (fun s =>
          decide (s.logger.stance .dispatcher = .asleep ∧
            (s.callers (.thread false)).place = .joiningDispatcher)) = true := by
      decide +kernel
    obtain ⟨s, hrun, hs⟩ := (Option.any_eq_true _ _).mp hruns
    simp only [decide_eq_true_eq] at hs
    obtain ⟨hasleep, hjoins⟩ := hs
    have hreach : Reachable roomy (fun _ _ => ⟨[], none⟩) closer s := Reachable.start.runs hrun
    obtain ⟨n, hn⟩ := hreach.closing
    have hunhailed : ¬ s.Hailed .dispatcher :=
      hn.unhailed (by rw [hn.of_joining (x := .dispatcher) hjoins]; decide)
    have hlost : s.Lost (.thread false) .dispatcher :=
      ⟨hjoins, by rw [hasleep]; exact nofun, hunhailed⟩
    exact ⟨s, hreach, hlost.stranded hn hasleep⟩

end System
end Logging
end CheckedLock
