import CheckedLock.Proofs.Logging.Ticket
import CheckedLock.Proofs.Logging.Waking
import Mathlib.Algebra.BigOperators.Group.Finset.Basic
import Mathlib.Algebra.GroupWithZero.Nat
import Mathlib.Algebra.Order.BigOperators.Group.Finset
import Mathlib.Data.Prod.Lex
import Mathlib.Order.WellFounded

/-! After the request to stop, work runs out. What the worker still has to do goes down with each of
its steps and up with nobody's: commands are refused from then on, also those of error handlers. The
steps of callers and of the dispatcher leave it and bring themselves to an end; only the worker gives
them more to do, when it posts a report or wakes the dispatcher. -/
namespace CheckedLock
namespace Logging

variable {τ κ σ : Type} {o : Outlet τ σ} {react : κ → String → Reaction κ}

/-! ### What is left to do -/

/-- Steps that a call may still take, the queue being closed. The call that wakes the dispatcher
counts the steps that this may bring. -/
def Place.left : Place τ κ → Nat
  | .idle => 0
  | .rechecking _ | .awaiting _ | .claiming | .completing => 1
  | .checking _ | .pushing _ | .notifying _ | .joiningDispatcher => 2
  | .wakingDispatcher => 5
  | .claimingDispatcher => 6
  | .joining => 7
  | .waking => 8

/-- Steps that a thread may still take, if nobody gives it new calls. -/
def Caller.left (c : Caller τ κ) : Nat := 3 * c.todo.length + c.place.left

def DispatcherPlace.left : DispatcherPlace → Nat
  | .exited => 0
  | .asleep => 1
  | .dozing => 2
  | .evaluating => 3
  | .running _ => 4

/-- Steps that a posted report may cause: the calls of its handler, its beginning and its end. -/
def postLeft (react : κ → String → Reaction κ) (p : κ × String) : Nat :=
  3 * (react p.1 p.2).calls.length + 2

/-- Steps to the worker's end, its batch (`WorkerPlace.toil`) and the queue apart. -/
def WorkerPlace.ahead : WorkerPlace τ κ → Nat
  | .exited => 0
  | .flushing => 4
  | .evaluating => 5
  | .asleep | .processing _ => 6
  | .dozing => 7
  | .reporting r | .posting _ r | .alerting r => if r.rest.isSome then 6 else 0

namespace Logger

variable {g g' : Logger τ κ σ} {a : Agent τ} {c c' : Caller τ κ}

/-- Steps that the worker may still take, the queue being closed. -/
def work (g : Logger τ κ σ) : Nat := g.worker.toil + g.worker.ahead + 6 * g.queue.length

/-- Steps that the dispatcher may still take, the calls of the handler that runs apart. -/
def calling (react : κ → String → Reaction κ) (g : Logger τ κ σ) : Nat :=
  g.dispatcher.left + (g.posts.map (postLeft react)).sum

theorem calling_of_eq (hd : g'.dispatcher = g.dispatcher) (hp : g'.posts = g.posts) :
    g'.calling react = g.calling react := by
  rw [calling, calling, hd, hp]

theorem calling_wakeDispatcher : g.wakeDispatcher.calling react ≤ g.calling react + 2 := by
  unfold wakeDispatcher calling
  split
  case h_1 hd => simp only [hd, DispatcherPlace.left]; omega
  case h_2 => omega

/-! ### The worker -/

/-- A command leaves a batch or a report before one; nothing else is the worker's to change. -/
theorem handle_ahead (cmd : Command τ κ) (rest : List (Command τ κ)) :
    (g.handle o rest cmd).worker.ahead = 6 ∧ (g.handle o rest cmd).queue = g.queue ∧
      (g.handle o rest cmd).posts = g.posts := by
  have hput : ∀ (y : Logger τ κ σ) r, (y.put o r rest).worker.ahead = 6 ∧
      (y.put o r rest).queue = y.queue ∧ (y.put o r rest).posts = y.posts := by
    intro y r
    obtain ⟨store, -, h⟩ | ⟨text, -, h⟩ := put_cases o y r rest <;> rw [h] <;>
      exact ⟨rfl, rfl, rfl⟩
  cases cmd with
  | write r => exact hput g r
  | select s =>
    simp only [handle]
    split
    case h_1 => exact ⟨rfl, rfl, rfl⟩
    case h_2 store _ => exact hput { g with store := store, sink := s } (.switched g.sink)
  | flush ticket =>
    simp only [handle]
    split <;> exact ⟨rfl, rfl, rfl⟩
  | openFailed _ | onError _ => exact ⟨rfl, rfl, rfl⟩

theorem reported_ahead (r : Report τ κ) :
    (g.reported r).worker.ahead = if r.rest.isSome then 6 else 0 := by
  cases hr : r.rest <;> simp [reported, proceed, WorkerPlace.ahead, hr]

theorem reported_work (r : Report τ κ) : (g.reported r).work =
    4 * (r.rest.getD []).length + (if r.rest.isSome then 6 else 0) + 6 * g.queue.length := by
  rw [work, (reported_toil r).2, reported_ahead, reported_queue]

/-- Each step of the worker leaves it less to do, unless it lies down to wait. -/
theorem WorkerMoves.eases (h : WorkerMoves o g g') (hq : g.requested = true) :
    g'.work < g.work := by
  cases h with
  | dozes _ _ hopen =>
    rw [hq] at hopen
    cases hopen
  | closes hp he => simp [work, hp, he, WorkerPlace.toil, WorkerPlace.ahead]
  | sleeps hp | ends hp => simp [work, hp, WorkerPlace.toil, WorkerPlace.ahead]
  | takes hp he =>
    have hpos : 0 < g.queue.length := List.length_pos_iff.mpr he
    simp only [work, hp, WorkerPlace.toil, WorkerPlace.ahead, List.length_nil]
    omega
  | @handles cmd rest hp =>
    obtain ⟨hahead, hqueue, -⟩ := handle_ahead (o := o) (g := g) cmd rest
    have htoil := (handle_toil (o := o) (g := g) cmd rest).2
    have hold : g.work = 4 * (rest.length + 1) + 6 + 6 * g.queue.length := by rw [work, hp]; rfl
    rw [work, hahead, hqueue, hold]
    omega
  | prints hp | drops hp =>
    rw [reported_work]
    simp only [work, hp, WorkerPlace.toil, WorkerPlace.ahead, note]
    omega
  | alerts hp =>
    rw [reported_work, wakeDispatcher_queue]
    simp only [work, hp, WorkerPlace.toil, WorkerPlace.ahead]
    omega
  | addresses hp | posts hp =>
    simp only [work, hp, WorkerPlace.toil, WorkerPlace.ahead]
    omega
  | leaves hp | failsToFlush hp => simp [work, hp, WorkerPlace.toil, WorkerPlace.ahead]

/-! ### Callers -/

/-- A caller's step, the queue being closed, lets nobody have more to do than itself had. -/
structure Eases (react : κ → String → Reaction κ) (c : Caller τ κ) (g : Logger τ κ σ)
    (c' : Caller τ κ) (g' : Logger τ κ σ) : Prop where
  work : g'.work ≤ g.work
  less : c'.left + g'.calling react < c.left + g.calling react

theorem work_wake : g.wake.work ≤ g.work := by
  unfold wake
  split
  case h_1 hw => simp [work, hw, WorkerPlace.toil, WorkerPlace.ahead]
  case h_2 => exact Nat.le_refl _

theorem wake_calling : g.wake.calling react = g.calling react :=
  calling_of_eq wake_dispatcher (staysOpen_wake g).posts

theorem Eases.of_place (hc : c'.todo = c.todo) (hp : c'.place.left < c.place.left)
    (hw : g'.work ≤ g.work) (hd : g'.calling react = g.calling react) : Eases react c g c' g' where
  work := hw
  less := by
    simp only [Caller.left, hc, hd]
    omega

theorem begin_left {call : Call κ} (h : begin o a c g call = (c', g')) :
    c'.place.left ≤ 2 := by
  have : (begin o a c g call).1.place.left ≤ 2 := by
    cases call <;> simp only [begin] <;> (try split) <;> simp [finish, Place.left]
  rwa [h] at this

theorem pushed_left {cmd : Command τ κ} (h : pushed a cmd c g = (c', g')) :
    c'.place.left ≤ 1 := by
  cases cmd <;> cases h <;> simp [Place.left]

theorem CallerMoves.eases (h : CallerMoves o a c g c' g') (hq : g.requested = true) :
    Eases react c g c' g' := by
  have closed : ∀ {p : Prop}, g.requested = false → p := fun hopen => by
    rw [hq] at hopen
    cases hopen
  cases h with
  | @calls call rest hp ht _ _ hb =>
    obtain ⟨hg, -⟩ := staysOpen_begin hb
    obtain ⟨hworker, hdisp, -, -⟩ := begin_waiters hb
    have hplace := begin_left hb
    refine ⟨?_, ?_⟩
    · rw [work, work, show g'.worker = g.worker from hworker, hg.queue hq]
    · rw [calling_of_eq (g := g) hdisp hg.posts]
      have htodo : c'.todo = rest := todo_begin hb
      simp only [Caller.left, htodo, ht, List.length_cons]
      omega
  | @refuses cmd hp _ _ _ he =>
    have hrefuse : (g.refuse cmd).work = g.work ∧
        (g.refuse cmd).calling react = g.calling react := by
      cases cmd <;> exact ⟨rfl, rfl⟩
    have hpushed : g'.work = (g.refuse cmd).work ∧
        g'.calling react = (g.refuse cmd).calling react := by
      cases cmd <;> cases he <;> exact ⟨rfl, rfl⟩
    refine .of_place (todo_pushed he) ?_ (hpushed.1.trans hrefuse.1).le
      (hpushed.2.trans hrefuse.2)
    have hplace : c.place.left = 2 := by rcases hp with hp | hp <;> rw [hp] <;> rfl
    have := pushed_left he
    omega
  | @notifies cmd hp _ _ he =>
    have hpushed : g'.work = g.wake.work ∧ g'.calling react = g.wake.calling react := by
      cases cmd <;> cases he <;> exact ⟨rfl, rfl⟩
    refine .of_place (todo_pushed he) ?_ (hpushed.1.le.trans work_wake)
      (hpushed.2.trans wake_calling)
    have hplace : c.place.left = 2 := by rw [hp]; rfl
    have := pushed_left he
    omega
  | looks _ hopen | pushes _ hopen | waits _ hopen | claims _ hopen => exact closed hopen
  | returns hp =>
    refine .of_place rfl ?_ (Nat.le_refl _) rfl
    rcases hp with ⟨_, hp, -⟩ | ⟨_, hp, -⟩ | ⟨hp, -⟩ <;> simp [hp, Place.left]
  | wakes hp => exact .of_place rfl (by simp [hp, Place.left]) work_wake wake_calling
  | joins hp | skipsDispatcher hp | claimsDispatcher hp | joinsDispatcher hp | completes hp =>
    exact .of_place rfl (by simp [hp, Place.left]) (Nat.le_refl _) rfl
  | wakesDispatcher hp =>
    refine ⟨?_, ?_⟩
    · rw [work, wakeDispatcher_worker, wakeDispatcher_queue, work]
    · have hg : g.wakeDispatcher.calling react ≤ g.calling react + 2 := calling_wakeDispatcher
      simp only [Caller.left, hp, Place.left]
      omega

/-! ### The dispatcher -/

/-- When a handler is called, its report is paid for. -/
theorem DispatcherMoves.eases (h : DispatcherMoves react c g c' g') : Eases react c g c' g' := by
  refine ⟨?_, ?_⟩
  · rw [work, work, h.serves.1.worker, h.serves.1.queue]
  cases h with
  | exits hp he hq => simp [calling, hp, DispatcherPlace.left]
  | dozes hp | sleeps hp => simp [calling, hp, DispatcherPlace.left]
  | invokes hp he =>
    simp only [calling, Caller.left, hp, he, note, DispatcherPlace.left, List.map_cons,
      List.sum_cons, postLeft]
    omega
  | ends hp hc => simp [calling, hp, DispatcherPlace.left]
  | throws hp hc => simp [calling, hp, note, DispatcherPlace.left]

end Logger

/-! ### Runs -/

namespace System

variable [DecidableEq τ] {s s' : System τ κ σ} {F : Finset (Agent τ)}

/-- The step is one of the worker, of the dispatcher, or of a caller among these. -/
def Within (F : Finset (Agent τ)) : Actor τ → Prop
  | .caller a => a ∈ F
  | .worker | .dispatcher => True

/-- The steps of a drain: those of the worker, of the dispatcher, of the handler that it runs, and of
calls that are in progress. -/
def Drains (s : System τ κ σ) : Actor τ → Prop
  | .caller (.thread t) => (s.callers (.thread t)).place ≠ .idle
  | .caller .dispatcher | .worker | .dispatcher => True

/-- `s'` comes after `s`, by a step that `may` be taken. -/
def Follows (o : Outlet τ σ) (react : κ → String → Reaction κ)
    (may : System τ κ σ → Actor τ → Prop) (s' s : System τ κ σ) : Prop :=
  ∃ x, may s x ∧ s.step o react x = some s'

/-- What these callers and the dispatcher still have to do. -/
def chores (react : κ → String → Reaction κ) (F : Finset (Agent τ)) (s : System τ κ σ) : Nat :=
  ∑ a ∈ F, (s.callers a).left + s.logger.calling react

theorem chores_setCaller {a : Agent τ} {c : Caller τ κ} {g : Logger τ κ σ} (ha : a ∈ F)
    (h : c.left + g.calling react < (s.callers a).left + s.logger.calling react) :
    ({ s.setCaller a c with logger := g } : System τ κ σ).chores react F < s.chores react F := by
  have hrest : ∑ b ∈ F.erase a, ((s.setCaller a c).callers b).left =
      ∑ b ∈ F.erase a, (s.callers b).left :=
    Finset.sum_congr rfl fun b hb => by rw [setCaller_ne s c (Finset.ne_of_mem_erase hb)]
  have hnew := Finset.add_sum_erase F (fun b => ((s.setCaller a c).callers b).left) ha
  have hold := Finset.add_sum_erase F (fun b => (s.callers b).left) ha
  simp only [setCaller_self, hrest] at hnew
  simp only [chores, ← hnew, ← hold]
  omega

/-- What is left to do, the worker's part first. -/
def toDo (react : κ → String → Reaction κ) (F : Finset (Agent τ)) (s : System τ κ σ) : ℕ ×ₗ ℕ :=
  toLex (s.logger.work, s.chores react F)

/-- Once the queue is closed, each step leaves less to do. -/
theorem toDo_step {x : Actor τ} (hs : s.step o react x = some s')
    (hq : s.logger.requested = true) (hd : .dispatcher ∈ F) (hx : Within F x) :
    s'.toDo react F < s.toDo react F := by
  rw [toDo, toDo, Prod.Lex.toLex_lt_toLex]
  obtain ⟨a, c, g, rfl, hm, rfl⟩ | ⟨g, rfl, hm, rfl⟩ | ⟨c, g, rfl, hm, rfl⟩ := step_cases hs
  · have he : Logger.Eases react (s.callers a) s.logger c g := hm.eases hq
    exact he.work.lt_or_eq.imp_right fun hw => ⟨hw, chores_setCaller hx he.less⟩
  · exact .inl (hm.eases hq)
  · have he := hm.eases
    exact he.work.lt_or_eq.imp_right fun hw => ⟨hw, chores_setCaller hd he.less⟩

/-- Runs whose steps are all within a finite set of callers come to an end. -/
theorem acc_of_within {may : System τ κ σ → Actor τ → Prop} {p : System τ κ σ → Prop}
    (hd : .dispatcher ∈ F)
    (hp : ∀ {u u' x}, p u → may u x → u.step o react x = some u' → Within F x ∧ p u') :
    ∀ s : System τ κ σ, s.logger.requested = true → p s → Acc (Follows o react may) s := by
  intro s
  induction s using (InvImage.wf (toDo react F) wellFounded_lt).induction with
  | _ s ih =>
    intro hq hs
    constructor
    rintro s' ⟨x, hx, hstep⟩
    obtain ⟨hwithin, hs'⟩ := hp hs hx hstep
    exact ih s' (toDo_step hstep hq hd hwithin) ((step_extends hstep).requested hq) hs'

/-- All threads that are in a call are among these. -/
structure EngagedIn (s : System τ κ σ) (F : Finset (Agent τ)) : Prop where
  dispatcher : .dispatcher ∈ F
  thread : ∀ t, (s.callers (.thread t)).place ≠ .idle → .thread t ∈ F

theorem EngagedIn.drains (h : s.EngagedIn F) {x : Actor τ} (hx : s.Drains x)
    (hs : s.step o react x = some s') : Within F x ∧ s'.EngagedIn F := by
  obtain ⟨a, c, g, rfl, hm, rfl⟩ | ⟨g, rfl, hm, rfl⟩ | ⟨c, g, rfl, hm, rfl⟩ := step_cases hs
  · have ha : a ∈ F := by
      cases a with
      | thread t => exact h.thread t hx
      | dispatcher => exact h.dispatcher
    refine ⟨ha, h.dispatcher, fun t ht => ?_⟩
    by_cases hta : .thread t = a
    · exact hta ▸ ha
    · exact h.thread t (by simpa [setCaller_ne s c hta] using ht)
  · exact ⟨trivial, h.dispatcher, h.thread⟩
  · exact ⟨trivial, h.dispatcher, fun t ht => h.thread t (by simpa [setCaller] using ht)⟩

variable {store : σ} {todo : τ → List (Call κ)}

/-- At any time they are finitely many, however many threads there are. -/
theorem Reachable.engagedIn (hr : Reachable o react (System.start store todo) s) :
    ∃ F, s.EngagedIn F := by
  induction hr with
  | start => exact ⟨{.dispatcher}, Finset.mem_singleton_self _, fun t ht => absurd rfl ht⟩
  | step x _ hs ih =>
    obtain ⟨F, hF⟩ := ih
    obtain ⟨a, c, g, -, -, rfl⟩ | ⟨g, -, -, rfl⟩ | ⟨c, g, -, -, rfl⟩ := step_cases hs
    · refine ⟨insert a F, Finset.mem_insert_of_mem hF.dispatcher, fun t ht => ?_⟩
      by_cases hta : .thread t = a
      · exact hta ▸ Finset.mem_insert_self _ _
      · exact Finset.mem_insert_of_mem
          (hF.thread t (by simpa [setCaller_ne _ c hta] using ht))
    · exact ⟨F, hF.dispatcher, hF.thread⟩
    · exact ⟨F, hF.dispatcher, fun t ht => hF.thread t (by simpa [setCaller] using ht)⟩

/-- Every drain comes to an end. -/
theorem Reachable.acc_drains (hr : Reachable o react (System.start store todo) s)
    (hq : s.logger.requested = true) : Acc (Follows o react Drains) s := by
  obtain ⟨F, hF⟩ := hr.engagedIn
  exact acc_of_within hF.dispatcher (p := fun u => u.EngagedIn F)
    (fun h hx hs => h.drains hx hs) s hq hF

/-- So does every run in which only finitely many threads take part, also when they begin calls. -/
theorem acc_within (o : Outlet τ σ) (react : κ → String → Reaction κ) (F : Finset (Agent τ))
    (hq : s.logger.requested = true) : Acc (Follows o react fun _ => Within F) s := by
  refine acc_of_within (F := insert .dispatcher F) (Finset.mem_insert_self _ _)
    (p := fun _ => True) (fun {u u' x} _ hx _ => ⟨?_, trivial⟩) s hq trivial
  cases x with
  | caller a => exact Finset.mem_insert_of_mem hx
  | worker | dispatcher => trivial

end System
end Logging
end CheckedLock
