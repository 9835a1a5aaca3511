import CheckedLock.Proofs.Logging.Traffic
import Mathlib.Tactic.ByContra

/-! Shutting down. One call of shutdown gets past the claim and goes through its stages in order,
however many there are; the worker and the dispatcher end in between. -/
namespace CheckedLock
namespace Logging

variable {τ κ σ : Type}

/-- How far a call of shutdown has come after its claim. -/
def Place.stage : Place τ κ → Nat
  | .waking => 1
  | .joining => 2
  | .claimingDispatcher => 3
  | .wakingDispatcher => 4
  | .joiningDispatcher => 5
  | .completing => 6
  | _ => 0

theorem Caller.idle_of_finished {c : Caller τ κ} (h : c.finished = true) :
    c.todo = [] ∧ c.place = .idle := by
  unfold finished at h
  split at h
  case h_1 ht hp => exact ⟨ht, hp⟩
  case h_2 => cases h

namespace WorkerPlace

/-- The worker has found the queue closed and empty. -/
def isLast : WorkerPlace τ κ → Bool
  | .flushing | .exited => true
  | .reporting r | .posting _ r | .alerting r => r.rest.isNone
  | _ => false

end WorkerPlace

namespace System

/-- The shutdown has come to stage `n`: 0 before any claim, 7 when it is complete. -/
structure Closing (s : System τ κ σ) (n : Nat) : Prop where
  requested : s.logger.requested = decide (1 ≤ n)
  dispatcherRequested : s.logger.dispatcherRequested = decide (4 ≤ n)
  completed : s.logger.completed = decide (7 ≤ n)
  le : n ≤ 7
  stage : ∀ a, (s.callers a).place.stage = 0 ∨ (s.callers a).place.stage = n
  closer : 1 ≤ n → n ≤ 6 → ∃ a, (s.callers a).place.stage = n
  single : ∀ a b, (s.callers a).place.stage ≠ 0 → (s.callers b).place.stage ≠ 0 → a = b
  joined : 3 ≤ n → s.logger.worker = .exited
  drained : s.logger.worker.isLast = true → 1 ≤ n ∧ s.logger.queue = []
  dispatched : 6 ≤ n → s.logger.dispatcher = .exited
  delivered : s.logger.dispatcher = .exited → 4 ≤ n ∧ s.logger.posts = []

theorem closing_start (store : σ) (todo : τ → List (Call κ)) : (start store todo).Closing 0 where
  requested := rfl
  dispatcherRequested := rfl
  completed := rfl
  le := Nat.zero_le 7
  stage := by
    rintro (t | _) <;> exact .inl rfl
  closer := nofun
  single := by
    rintro (t | _) <;> exact fun b h => absurd rfl h
  joined := nofun
  drained := nofun
  dispatched := nofun
  delivered := nofun

end System

namespace Logger

variable {o : Outlet τ σ} {g g' : Logger τ κ σ} {a : Agent τ} {c c' : Caller τ κ}

/-- Nothing happens to the shutdown. -/
structure StaysOpen (g g' : Logger τ κ σ) : Prop where
  requested : g'.requested = g.requested
  dispatcherRequested : g'.dispatcherRequested = g.dispatcherRequested
  completed : g'.completed = g.completed
  exited : g'.worker = .exited ↔ g.worker = .exited
  drained : g'.worker.isLast = true → g.worker.isLast = true
  queue : g.requested = true → g'.queue = g.queue
  dispatched : g'.dispatcher = .exited ↔ g.dispatcher = .exited
  posts : g'.posts = g.posts

theorem StaysOpen.refl (g : Logger τ κ σ) : StaysOpen g g :=
  ⟨rfl, rfl, rfl, .rfl, id, fun _ => rfl, .rfl, rfl⟩

theorem staysOpen_wake (g : Logger τ κ σ) : StaysOpen g g.wake := by
  unfold wake
  split
  case h_1 hw => exact ⟨rfl, rfl, rfl, by simp [hw], nofun, fun _ => rfl, .rfl, rfl⟩
  case h_2 => exact .refl g

theorem staysOpen_wakeDispatcher (g : Logger τ κ σ) : StaysOpen g g.wakeDispatcher := by
  unfold wakeDispatcher
  split
  case h_1 hw => exact ⟨rfl, rfl, rfl, .rfl, id, fun _ => rfl, by simp [hw], rfl⟩
  case h_2 => exact .refl g

theorem StaysOpen.note {e : Event τ κ} (h : StaysOpen g g') : StaysOpen g (g'.note e) :=
  ⟨h.requested, h.dispatcherRequested, h.completed, h.exited, h.drained, h.queue, h.dispatched,
    h.posts⟩

theorem staysOpen_begin {call : Call κ} {c₁ : Caller τ κ}
    (hb : begin o a c₁ (g.note (.called a call)) call = (c', g')) :
    StaysOpen g g' ∧ c'.place.stage = 0 := by
  have hg : StaysOpen g (g.note (.called a call)) := (StaysOpen.refl g).note
  cases call with
  | setLevel l =>
    cases hb
    exact ⟨⟨rfl, rfl, rfl, .rfl, id, fun _ => rfl, .rfl, rfl⟩, rfl⟩
  | log l body =>
    simp only [begin] at hb
    split at hb <;> cases hb <;> exact ⟨hg.note, rfl⟩
  | logfile path exclusive =>
    simp only [begin] at hb
    split at hb <;> cases hb <;>
      exact ⟨⟨rfl, rfl, rfl, .rfl, id, fun _ => rfl, .rfl, rfl⟩, rfl⟩
  | console =>
    cases hb
    exact ⟨hg, rfl⟩
  | onError k =>
    cases hb
    exact ⟨hg, rfl⟩
  | flush =>
    simp only [begin] at hb
    split at hb <;> cases hb
    · exact ⟨hg.note, rfl⟩
    · exact ⟨⟨rfl, rfl, rfl, .rfl, id, fun _ => rfl, .rfl, rfl⟩, rfl⟩
  | shutdown =>
    simp only [begin] at hb
    split at hb <;> cases hb
    · exact ⟨hg.note, rfl⟩
    · exact ⟨hg, rfl⟩

theorem stage_pushed {cmd : Command τ κ} (h : pushed a cmd c g = (c', g')) :
    c'.place.stage = 0 := by
  cases cmd <;> cases h <;> rfl

end Logger

namespace Logger

variable {o : Outlet τ σ} {g g' : Logger τ κ σ}

/-- A thread that is to call shutdown does so, or finds that it is complete. -/
theorem CallerMoves.shutdown_todo {a : Agent τ} {c c' : Caller τ κ}
    (h : CallerMoves o a c g c' g') (ht : .shutdown ∈ c.todo) :
    .shutdown ∈ c'.todo ∨ c'.place = .claiming ∨ g.completed = true := by
  cases h with
  | @calls call rest hp htodo _ _ hb =>
    rw [htodo] at ht
    cases call with
    | shutdown =>
      simp only [begin] at hb
      split at hb
      case isTrue hc => exact .inr (.inr hc)
      case isFalse =>
        cases hb
        exact .inr (.inl rfl)
    | _ =>
      refine .inl ?_
      rw [todo_begin hb]
      simpa using ht
  | refuses hp hq he | notifies hp he => exact .inl (todo_pushed he ▸ ht)
  | _ => exact .inl ht

/-- Whoever is at the claim finds the request made, or makes it. -/
theorem CallerMoves.requested_of_claiming {a : Agent τ} {c c' : Caller τ κ}
    (h : CallerMoves o a c g c' g') (hp : c.place = .claiming) : g'.requested = true := by
  cases h with
  | claims => rfl
  | returns hr =>
    obtain ⟨ticket, hp', -⟩ | ⟨ticket, hp', -⟩ | ⟨-, hr⟩ := hr
    · simp [hp] at hp'
    · simp [hp] at hp'
    · exact hr
  | refuses hp' => simp [hp] at hp'
  | calls hp' | looks hp' | pushes hp' | notifies hp' | waits hp' | wakes hp' | joins hp'
    | skipsDispatcher hp' | claimsDispatcher hp' | wakesDispatcher hp' | joinsDispatcher hp'
    | completes hp' =>
    rw [hp] at hp'
    cases hp'

/-- The worker's part: it has its last things to do only after it found the queue closed and empty.
-/
structure Works (g g' : Logger τ κ σ) : Prop where
  dispatcherRequested : g'.dispatcherRequested = g.dispatcherRequested
  completed : g'.completed = g.completed
  last : g'.worker.isLast = true → g.worker.isLast = true ∨ (g.requested = true ∧ g.queue = [])
  queue : g'.queue = g.queue ∨ g'.queue = []
  dispatcher : g'.dispatcher = g.dispatcher ∨ (g.dispatcher = .asleep ∧ g'.dispatcher = .evaluating)

/-- Back to the batch, or to what is to be reported before. -/
theorem Works.of_batch (hd : g'.dispatcherRequested = g.dispatcherRequested)
    (hc : g'.completed = g.completed) (hlast : g'.worker.isLast = false)
    (hq : g'.queue = g.queue) (hp : g'.dispatcher = g.dispatcher) : Works g g' where
  dispatcherRequested := hd
  completed := hc
  last := fun hl => by simp [hlast] at hl
  queue := .inl hq
  dispatcher := .inl hp

theorem works_put (r : Record τ) (rest : List (Command τ κ)) : Works g (g.put o r rest) := by
  obtain ⟨store, -, h⟩ | ⟨text, -, h⟩ := put_cases o g r rest <;> rw [h] <;>
    exact .of_batch rfl rfl rfl rfl rfl

theorem works_handle (cmd : Command τ κ) (rest : List (Command τ κ)) :
    Works g (g.handle o rest cmd) := by
  cases cmd with
  | write r => exact works_put r rest
  | select s =>
    simp only [handle]
    split
    case h_1 => exact .of_batch rfl rfl rfl rfl rfl
    case h_2 store _ =>
      obtain ⟨h₁, h₂, h₃, h₄, h₅⟩ :=
        works_put (o := o) (g := { g with store := store, sink := s }) (.switched g.sink) rest
      exact ⟨h₁, h₂, h₃, h₄, h₅⟩
  | flush ticket =>
    simp only [handle]
    split <;> exact .of_batch rfl rfl rfl rfl rfl
  | openFailed _ | onError _ => exact .of_batch rfl rfl rfl rfl rfl

theorem works_reported {r : Report τ κ} (hw : g.worker.isLast = r.rest.isNone) :
    Works g (g.reported r) where
  dispatcherRequested := by cases ht : r.ticket <;> simp [reported, proceed, honour, ht]
  completed := by cases ht : r.ticket <;> simp [reported, proceed, honour, ht]
  last := fun hl => by
    cases hr : r.rest with
    | none => exact .inl (by rw [hw, hr]; rfl)
    | some batch => simp [reported, proceed, WorkerPlace.isLast, hr] at hl
  queue := by cases ht : r.ticket <;> simp [reported, proceed, honour, ht]
  dispatcher := by cases ht : r.ticket <;> simp [reported, proceed, honour, ht]

theorem WorkerMoves.works (h : WorkerMoves o g g') : Works g g' ∧ g.worker ≠ .exited := by
  cases h with
  | closes hp he hq => exact ⟨⟨rfl, rfl, fun _ => .inr ⟨hq, he⟩, .inl rfl, .inl rfl⟩, by simp [hp]⟩
  | dozes hp | sleeps hp | ends hp => exact ⟨.of_batch rfl rfl rfl rfl rfl, by simp [hp]⟩
  | takes hp he =>
    refine ⟨⟨rfl, rfl, fun hl => ?_, .inr rfl, .inl rfl⟩, by simp [hp]⟩
    simp [WorkerPlace.isLast] at hl
  | handles hp => exact ⟨works_handle _ _, by simp [hp]⟩
  | @prints r hp hh =>
    obtain ⟨h₁, h₂, h₃, h₄, h₅⟩ :=
      works_reported (g := g.note (.printed r.message)) (r := r)
        (show g.worker.isLast = _ by rw [hp]; rfl)
    exact ⟨⟨h₁, h₂, h₃, h₄, h₅⟩, by simp [hp]⟩
  | drops hp => exact ⟨works_reported (by rw [hp]; rfl), by simp [hp]⟩
  | addresses hp => exact ⟨⟨rfl, rfl, fun hl => .inl (by rw [hp]; exact hl), .inl rfl, .inl rfl⟩,
      by simp [hp]⟩
  | posts hp => exact ⟨⟨rfl, rfl, fun hl => .inl (by rw [hp]; exact hl), .inl rfl, .inl rfl⟩,
      by simp [hp]⟩
  | @alerts r hp =>
    have hg := staysOpen_wakeDispatcher g
    have hworker : g.wakeDispatcher.worker = g.worker := by
      unfold wakeDispatcher
      split <;> rfl
    have hwoken : g.wakeDispatcher.dispatcher = g.dispatcher ∨
        (g.dispatcher = .asleep ∧ g.wakeDispatcher.dispatcher = .evaluating) := by
      unfold wakeDispatcher
      split
      case h_1 hd => exact .inr ⟨hd, rfl⟩
      case h_2 => exact .inl rfl
    have hlast : g.wakeDispatcher.worker.isLast = r.rest.isNone := by rw [hworker, hp]; rfl
    obtain ⟨h₁, h₂, h₃, h₄, h₅⟩ := works_reported hlast
    refine ⟨⟨h₁.trans hg.dispatcherRequested, h₂.trans hg.completed, fun hl => ?_, ?_, ?_⟩,
      by simp [hp]⟩
    · rw [wakeDispatcher_queue, hg.requested] at h₃
      exact (h₃ hl).imp_left hg.drained
    · rwa [wakeDispatcher_queue] at h₄
    · obtain hd | ⟨hd, hd'⟩ := h₅
      · rwa [hd]
      · obtain hw | ⟨hw, hw'⟩ := hwoken
        · exact .inr ⟨hw ▸ hd, hd'⟩
        · rw [hw'] at hd
          cases hd
  | leaves hp | failsToFlush hp =>
    exact ⟨⟨rfl, rfl, fun _ => .inl (by rw [hp]; rfl), .inl rfl, .inl rfl⟩, by simp [hp]⟩

/-- The dispatcher's part. -/
structure Serves (g g' : Logger τ κ σ) : Prop where
  dispatcherRequested : g'.dispatcherRequested = g.dispatcherRequested
  completed : g'.completed = g.completed
  worker : g'.worker = g.worker
  queue : g'.queue = g.queue
  awake : g.dispatcher ≠ .exited

/-- The dispatcher ends when it is asked to and has nothing left to do. -/
theorem DispatcherMoves.serves {react : κ → String → Reaction κ} {c c' : Caller τ κ}
    (h : DispatcherMoves react c g c' g') : Serves g g' ∧
      (g'.dispatcher = .exited → g.dispatcherRequested = true ∧ g'.posts = []) := by
  cases h with
  | exits hp he hq => exact ⟨⟨rfl, rfl, rfl, rfl, by simp [hp]⟩, fun _ => ⟨hq, he⟩⟩
  | dozes hp | sleeps hp | invokes hp | ends hp | throws hp =>
    exact ⟨⟨rfl, rfl, rfl, rfl, by simp [hp]⟩, nofun⟩

end Logger

theorem System.Closing.stage_eq {s : System τ κ σ} {a : Agent τ} {n i : Nat} (h : s.Closing n)
    (ha : (s.callers a).place.stage = i + 1) : n = i + 1 := by
  have := h.stage a
  omega

/-- As long as the worker is at work, nobody has turned to the dispatcher. -/
theorem System.Closing.dispatcher_open {s : System τ κ σ} {n : Nat} (h : s.Closing n)
    (hw : s.logger.worker ≠ .exited) : s.logger.dispatcherRequested = false := by
  rw [h.dispatcherRequested]
  exact decide_eq_false fun h₄ => hw (h.joined (Nat.le_of_succ_le h₄))

/-- A step of the worker, which has not been joined yet. -/
theorem System.Closing.worker {o : Outlet τ σ} {s : System τ κ σ} {g : Logger τ κ σ} {n : Nat}
    (h : s.Closing n) (hm : Logger.WorkerMoves o s.logger g) :
    ({ s with logger := g } : System τ κ σ).Closing n := by
  obtain ⟨hg, hw⟩ := hm.works
  have hn : ¬ 3 ≤ n := fun h₃ => hw (h.joined h₃)
  exact {
    requested := hm.bystands.requested.trans h.requested
    dispatcherRequested := hg.dispatcherRequested.trans h.dispatcherRequested
    completed := hg.completed.trans h.completed
    le := h.le
    stage := h.stage
    closer := h.closer
    single := h.single
    joined := fun h₃ => absurd h₃ hn
    drained := fun hl => by
      have hold : 1 ≤ n ∧ s.logger.queue = [] := by
        obtain hl | ⟨hr, hq⟩ := hg.last hl
        · exact h.drained hl
        · exact ⟨by simpa [h.requested] using hr, hq⟩
      exact ⟨hold.1, hg.queue.elim (·.trans hold.2) id⟩
    dispatched := fun h₆ => absurd (Nat.le_trans (by decide) h₆) hn
    delivered := fun hd => by
      obtain hsame | ⟨-, hwoken⟩ := hg.dispatcher
      · exact absurd (Nat.le_trans (by decide) (h.delivered (hsame ▸ hd)).1) hn
      · rw [hwoken] at hd
        cases hd }

namespace System

variable [DecidableEq τ] {o : Outlet τ σ} {react : κ → String → Reaction κ} {s s' : System τ κ σ}
  {a : Agent τ} {c : Caller τ κ} {g : Logger τ κ σ} {n : Nat}

/-- A shutdown is to be called, has been called, or has been requested. -/
def Asked (s : System τ κ σ) : Prop :=
  (∃ t, .shutdown ∈ (s.callers (.thread t)).todo) ∨ (∃ a, (s.callers a).place = .claiming) ∨
    s.logger.requested = true

namespace Closing

/-- A step outside the shutdown. -/
theorem stays (h : s.Closing n) (hg : Logger.StaysOpen s.logger g)
    (hc : c.place.stage = (s.callers a).place.stage) :
    ({ s.setCaller a c with logger := g } : System τ κ σ).Closing n := by
  have hstage : ∀ b, ((s.setCaller a c).callers b).place.stage = (s.callers b).place.stage := by
    intro b
    by_cases hb : b = a
    · subst hb
      simpa using hc
    · rw [setCaller_ne s c hb]
  exact {
    requested := hg.requested.trans h.requested
    dispatcherRequested := hg.dispatcherRequested.trans h.dispatcherRequested
    completed := hg.completed.trans h.completed
    le := h.le
    stage := fun b => by simpa only [hstage] using h.stage b
    closer := fun h₁ h₆ => by simpa only [hstage] using h.closer h₁ h₆
    single := fun b b' => by simpa only [hstage] using h.single b b'
    joined := fun h₃ => hg.exited.mpr (h.joined h₃)
    drained := fun hl => by
      obtain ⟨h₁, hq⟩ := h.drained (hg.drained hl)
      exact ⟨h₁, (hg.queue (by simpa [h.requested] using h₁)).trans hq⟩
    dispatched := fun h₆ => hg.dispatched.mpr (h.dispatched h₆)
    delivered := fun hd => by simpa only [hg.posts] using h.delivered (hg.dispatched.mp hd) }

/-- The call that has claimed the shutdown goes on to the next stage. -/
theorem advance (h : s.Closing n) (hn : n ≤ 6) (ha : (s.callers a).place.stage = n)
    (hc : c.place.stage = if n = 6 then 0 else n + 1) (hr : g.requested = true)
    (hd : g.dispatcherRequested = decide (4 ≤ n + 1)) (hm : g.completed = decide (7 ≤ n + 1))
    (hlast : g.worker.isLast = true → s.logger.worker.isLast = true)
    (hjoin : 3 ≤ n + 1 → g.worker = .exited) (hq : g.queue = s.logger.queue)
    (hdisp : 6 ≤ n + 1 → g.dispatcher = .exited)
    (hdel : g.dispatcher = .exited → s.logger.dispatcher = .exited)
    (hp : g.posts = s.logger.posts) :
    ({ s.setCaller a c with logger := g } : System τ κ σ).Closing (n + 1) := by
  have hother : ∀ b, b ≠ a → ((s.setCaller a c).callers b).place.stage = 0 := by
    intro b hb
    rw [setCaller_ne s c hb]
    by_contra hne
    have hbn := (h.stage b).resolve_left hne
    exact hb (h.single b a hne (by rw [ha, ← hbn]; exact hne))
  have hself : ((s.setCaller a c).callers a).place.stage = if n = 6 then 0 else n + 1 := by
    rw [setCaller_self]
    exact hc
  exact {
    requested := by simpa using hr
    dispatcherRequested := hd
    completed := hm
    le := Nat.succ_le_succ hn
    stage := fun b => by
      by_cases hb : b = a
      · subst hb
        rw [hself]
        split
        · exact .inl rfl
        · exact .inr rfl
      · exact .inl (hother b hb)
    closer := fun _ h₆ => ⟨a, by rw [hself, if_neg (by omega)]⟩
    single := fun b b' hb hb' => by
      have hba : b = a := by
        by_contra hne
        exact hb (hother b hne)
      have hba' : b' = a := by
        by_contra hne
        exact hb' (hother b' hne)
      exact hba.trans hba'.symm
    joined := hjoin
    drained := fun hl => ⟨Nat.succ_le_succ (Nat.zero_le n), hq.trans (h.drained (hlast hl)).2⟩
    dispatched := hdisp
    delivered := fun hx => by
      obtain ⟨h₄, hposts⟩ := h.delivered (hdel hx)
      exact ⟨Nat.le_succ_of_le h₄, hp.trans hposts⟩ }

/-- A step of a caller. One case for each stage of the shutdown. -/
theorem caller (h : s.Closing n) (hm : Logger.CallerMoves o a (s.callers a) s.logger c g) :
    ∃ m, ({ s.setCaller a c with logger := g } : System τ κ σ).Closing m := by
  have hstage : ∀ {p : Place τ κ} {i : Nat}, (s.callers a).place = p → p.stage = i →
      (s.callers a).place.stage = i := fun hp hi => by rw [hp, hi]
  cases hm with
  | calls hp ht hb =>
    obtain ⟨hg, hc⟩ := Logger.staysOpen_begin hb
    exact ⟨n, h.stays hg (hc.trans (hstage hp rfl).symm)⟩
  | looks hp hq => exact ⟨n, h.stays (.refl _) (hstage hp rfl).symm⟩
  | @refuses cmd hp hq _ _ he =>
    have hc : (s.callers a).place.stage = 0 := hp.elim (hstage · rfl) (hstage · rfl)
    have hrefuse : Logger.StaysOpen s.logger (s.logger.refuse cmd) := by
      cases cmd with
      | write r => exact (Logger.StaysOpen.refl _).note
      | _ => exact .refl _
    obtain ⟨-, -, ⟨ticket, -, rfl⟩ | rfl⟩ := Logger.pushed_cases he
    · exact ⟨n, h.stays hrefuse ((Logger.stage_pushed he).trans hc.symm)⟩
    · exact ⟨n, h.stays hrefuse.note ((Logger.stage_pushed he).trans hc.symm)⟩
  | pushes hp hq hw =>
    refine ⟨n, h.stays ⟨rfl, rfl, rfl, .rfl, id, fun hr => ?_, .rfl, rfl⟩ (hstage hp rfl).symm⟩
    rw [hq] at hr
    cases hr
  | notifies hp he =>
    have hc := hstage hp rfl
    obtain ⟨-, -, ⟨ticket, -, rfl⟩ | rfl⟩ := Logger.pushed_cases he
    · exact ⟨n, h.stays (Logger.staysOpen_wake _) ((Logger.stage_pushed he).trans hc.symm)⟩
    · exact ⟨n, h.stays (Logger.staysOpen_wake _).note ((Logger.stage_pushed he).trans hc.symm)⟩
  | waits hp hq => exact ⟨n, h.stays (.refl _) (hstage hp rfl).symm⟩
  | returns hp =>
    have hc : (s.callers a).place.stage = 0 := by
      rcases hp with ⟨_, hp, -⟩ | ⟨_, hp, -⟩ | ⟨hp, -⟩ <;> exact hstage hp rfl
    exact ⟨n, h.stays (Logger.StaysOpen.refl _).note hc.symm⟩
  | claims hp hq =>
    have hn : n = 0 := by
      have := h.requested
      rw [hq] at this
      simpa using this.symm
    subst hn
    exact ⟨1, h.advance (Nat.zero_le 6) (hstage hp rfl) rfl rfl h.dispatcherRequested h.completed id
      nofun rfl nofun id rfl⟩
  | wakes hp =>
    obtain rfl := h.stage_eq (hstage hp rfl)
    have hg := Logger.staysOpen_wake s.logger
    exact ⟨2, h.advance (by decide) (hstage hp rfl) rfl (hg.requested.trans h.requested)
      (hg.dispatcherRequested.trans h.dispatcherRequested) (hg.completed.trans h.completed)
      hg.drained nofun (Logger.wake_queue) nofun hg.dispatched.mp hg.posts⟩
  | joins hp hw =>
    obtain rfl := h.stage_eq (hstage hp rfl)
    exact ⟨3, h.advance (by decide) (hstage hp rfl) rfl h.requested h.dispatcherRequested
      h.completed id (fun _ => hw) rfl nofun id rfl⟩
  | skipsDispatcher hp hd =>
    obtain rfl := h.stage_eq (hstage hp rfl)
    rw [h.dispatcherRequested] at hd
    cases hd
  | claimsDispatcher hp hd =>
    obtain rfl := h.stage_eq (hstage hp rfl)
    exact ⟨4, h.advance (by decide) (hstage hp rfl) rfl h.requested rfl h.completed id
      (fun _ => h.joined (by decide)) rfl nofun id rfl⟩
  | wakesDispatcher hp =>
    obtain rfl := h.stage_eq (hstage hp rfl)
    have hg := Logger.staysOpen_wakeDispatcher s.logger
    have hw := h.joined (by decide)
    exact ⟨5, h.advance (by decide) (hstage hp rfl) rfl (hg.requested.trans h.requested)
      (hg.dispatcherRequested.trans h.dispatcherRequested) (hg.completed.trans h.completed)
      hg.drained (fun _ => hg.exited.mpr hw) Logger.wakeDispatcher_queue nofun hg.dispatched.mp
      hg.posts⟩
  | joinsDispatcher hp hd =>
    obtain rfl := h.stage_eq (hstage hp rfl)
    exact ⟨6, h.advance (by decide) (hstage hp rfl) rfl h.requested h.dispatcherRequested
      h.completed id (fun _ => h.joined (by decide)) rfl (fun _ => hd) id rfl⟩
  | completes hp =>
    obtain rfl := h.stage_eq (hstage hp rfl)
    exact ⟨7, h.advance (by decide) (hstage hp rfl) rfl h.requested h.dispatcherRequested rfl
      id (fun _ => h.joined (by decide)) rfl (fun _ => h.dispatched (by decide)) id rfl⟩

/-- A step of the dispatcher. -/
theorem dispatcher (h : s.Closing n)
    (hm : Logger.DispatcherMoves react (s.callers .dispatcher) s.logger c g) :
    ({ s.setCaller .dispatcher c with logger := g } : System τ κ σ).Closing n := by
  obtain ⟨hg, hlast⟩ := hm.serves
  have hstage : ∀ b, ((s.setCaller .dispatcher c).callers b).place.stage =
      (s.callers b).place.stage := by
    intro b
    by_cases hb : b = .dispatcher
    · simp [setCaller, hb, hm.bystands.2.1]
    · rw [setCaller_ne s c hb]
  exact {
    requested := hm.bystands.1.requested.trans h.requested
    dispatcherRequested := hg.dispatcherRequested.trans h.dispatcherRequested
    completed := hg.completed.trans h.completed
    le := h.le
    stage := fun b => by simpa only [hstage] using h.stage b
    closer := fun h₁ h₆ => by simpa only [hstage] using h.closer h₁ h₆
    single := fun b b' => by simpa only [hstage] using h.single b b'
    joined := fun h₃ => hg.worker.trans (h.joined h₃)
    drained := fun hl => by simpa only [hg.worker, hg.queue] using h.drained (hg.worker ▸ hl)
    dispatched := fun h₆ => absurd (h.dispatched h₆) hg.awake
    delivered := fun hd => by
      obtain ⟨hr, hp⟩ := hlast hd
      exact ⟨by simpa [h.dispatcherRequested] using hr, hp⟩ }

theorem step (h : s.Closing n) {x : Actor τ} (hs : s.step o react x = some s') :
    ∃ m, s'.Closing m := by
  obtain ⟨a, c, g, -, hm, rfl⟩ | ⟨g, -, hm, rfl⟩ | ⟨c, g, -, hm, rfl⟩ := step_cases hs
  · exact h.caller hm
  · exact ⟨n, h.worker hm⟩
  · exact ⟨n, h.dispatcher hm⟩

theorem asked (h : s.Closing n) (hask : s.Asked) {x : Actor τ} (hs : s.step o react x = some s') :
    s'.Asked := by
  obtain ⟨a, c, g, -, hm, rfl⟩ | ⟨g, -, hm, rfl⟩ | ⟨c, g, -, hm, rfl⟩ := step_cases hs
  · obtain ⟨es, hc⟩ := hm.carries
    obtain ⟨t, ht⟩ | ⟨b, hb⟩ | hr := hask
    · by_cases hta : .thread t = a
      · subst hta
        obtain ht | hp | hcm := hm.shutdown_todo ht
        · exact .inl ⟨t, by simpa using ht⟩
        · exact .inr (.inl ⟨.thread t, by simpa using hp⟩)
        · have h₇ : 7 ≤ n := by simpa [h.completed] using hcm
          have hle : 1 ≤ n := Nat.le_trans (by decide) h₇
          exact .inr (.inr (hc.requested (by simpa [h.requested] using hle)))
      · exact .inl ⟨t, by simpa [setCaller_ne s c hta] using ht⟩
    · by_cases hba : b = a
      · subst hba
        exact .inr (.inr (hm.requested_of_claiming hb))
      · exact .inr (.inl ⟨b, by simpa [setCaller_ne s c hba] using hb⟩)
    · exact .inr (.inr (hc.requested hr))
  · simpa only [Asked, hm.bystands.requested] using hask
  · obtain ⟨hb, hp, -⟩ := hm.bystands
    obtain ⟨t, ht⟩ | ⟨b, hb'⟩ | hr := hask
    · exact .inl ⟨t, by simpa [setCaller] using ht⟩
    · refine .inr (.inl ⟨b, ?_⟩)
      by_cases hbd : b = .dispatcher
      · subst hbd
        simpa [hp] using hb'
      · simpa [setCaller_ne s c hbd] using hb'
    · exact .inr (.inr (hb.requested.trans hr))

omit [DecidableEq τ] in
/-- When no thread has anything left to do, the shutdown that was asked for is complete. -/
theorem complete (h : s.Closing n) (hask : s.Asked) (hdone : ∀ a, (s.callers a).finished = true) :
    n = 7 := by
  have hidle := fun a => Caller.idle_of_finished (hdone a)
  have h₁ : 1 ≤ n := by
    obtain ⟨t, ht⟩ | ⟨a, ha⟩ | hr := hask
    · simp [hidle] at ht
    · simp [hidle] at ha
    · simpa [h.requested] using hr
  by_contra hne
  obtain ⟨a, ha⟩ := h.closer h₁ (by have := h.le; omega)
  rw [(hidle a).2] at ha
  have h₀ : 0 = n := ha
  omega

end Closing

theorem Reachable.closing {store : σ} {todo : τ → List (Call κ)}
    (hr : Reachable o react (System.start store todo) s) : ∃ n, s.Closing n := by
  induction hr with
  | start => exact ⟨0, closing_start store todo⟩
  | step x _ hs ih =>
    obtain ⟨n, hn⟩ := ih
    exact hn.step hs

theorem Reachable.asked {store : σ} {todo : τ → List (Call κ)}
    (hr : Reachable o react (System.start store todo) s) (h : ∃ t, .shutdown ∈ todo t) :
    s.Asked := by
  induction hr with
  | start => exact .inl h
  | step x hr hs ih =>
    obtain ⟨n, hn⟩ := hr.closing
    exact hn.asked ih hs

end System
end Logging
end CheckedLock
