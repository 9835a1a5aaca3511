import CheckedLock.Logging.Run

/-! The steps of the three kinds of threads, each step function as the list of what it can do.
Nothing after this module opens a step function. -/
namespace CheckedLock
namespace Logging

variable {τ κ σ : Type}

namespace Logger

variable {g : Logger τ κ σ}

@[simp] theorem told_note {α : Type} (f : Event τ κ → Option α) (e : Event τ κ) :
    (g.note e).told f = g.told f ++ (f e).toList := by
  cases h : f e <;> simp [told, note, h]

/-- Other events leave an account as it is. -/
theorem told_of_journal {α : Type} {g' : Logger τ κ σ} (f : Event τ κ → Option α)
    (h : g'.journal = g.journal) : g'.told f = g.told f := by rw [told, told, h]

/-- What a thread does in one step of a call. -/
inductive CallerMoves (o : Outlet τ σ) (a : Agent τ) (c : Caller τ κ) (g : Logger τ κ σ) :
    Caller τ κ → Logger τ κ σ → Prop
  | calls {call rest} (hp : c.place = .idle) (ht : c.todo = call :: rest) {c' g'}
    (hb : begin o a { c with todo := rest, serial := c.serial + 1 } (g.note (.called a call)) call
      = (c', g')) : CallerMoves o a c g c' g'
  | looks {cmd} (hp : c.place = .checking cmd) (hq : g.requested = false) :
    CallerMoves o a c g { c with place := .pushing cmd } g
  | refuses {cmd} (hp : c.place = .checking cmd ∨ c.place = .pushing cmd)
    (hq : g.requested = true) {c' g'} (he : pushed a cmd c (g.refuse cmd) = (c', g')) :
    CallerMoves o a c g c' g'
  | pushes {cmd} (hp : c.place = .pushing cmd) (hq : g.requested = false)
    (hw : g.worker ≠ .dozing) :
    CallerMoves o a c g { c with place := .notifying cmd }
      (({ g with queue := g.queue ++ [cmd] }).note (.queued cmd))
  | notifies {cmd} (hp : c.place = .notifying cmd) {c' g'} (he : pushed a cmd c g.wake = (c', g')) :
    CallerMoves o a c g c' g'
  | waits {ticket} (hp : c.place = .rechecking ticket) (hq : g.requested = false) :
    CallerMoves o a c g { c with place := .awaiting ticket } g
  | returns (hp : (∃ ticket, c.place = .rechecking ticket ∧ g.requested = true) ∨
      (∃ ticket, c.place = .awaiting ticket ∧ ticket ∈ g.honoured) ∨
      (c.place = .claiming ∧ g.requested = true)) :
    CallerMoves o a c g { c with place := .idle } (g.note (.returned a))
  | claims (hp : c.place = .claiming) (hq : g.requested = false) :
    CallerMoves o a c g { c with place := .waking } { g with requested := true }
  | wakes (hp : c.place = .waking) : CallerMoves o a c g { c with place := .joining } g.wake
  | joins (hp : c.place = .joining) (hw : g.worker = .exited) :
    CallerMoves o a c g { c with place := .claimingDispatcher } g
  | skipsDispatcher (hp : c.place = .claimingDispatcher) (hd : g.dispatcherRequested = true) :
    CallerMoves o a c g { c with place := .completing } g
  | claimsDispatcher (hp : c.place = .claimingDispatcher) (hd : g.dispatcherRequested = false) :
    CallerMoves o a c g { c with place := .wakingDispatcher } { g with dispatcherRequested := true }
  | wakesDispatcher (hp : c.place = .wakingDispatcher) :
    CallerMoves o a c g { c with place := .joiningDispatcher } g.wakeDispatcher
  | joinsDispatcher (hp : c.place = .joiningDispatcher) (hd : g.dispatcher = .exited) :
    CallerMoves o a c g { c with place := .completing } g
  | completes (hp : c.place = .completing) :
    CallerMoves o a c g { c with place := .idle }
      (({ g with completed := true }).note (.returned a))

/-- What the worker does in one step. -/
inductive WorkerMoves (o : Outlet τ σ) (g : Logger τ κ σ) : Logger τ κ σ → Prop
  | closes (hp : g.worker = .evaluating) (he : g.queue = []) (hq : g.requested = true) :
    WorkerMoves o g { g with worker := .flushing }
  | dozes (hp : g.worker = .evaluating) (he : g.queue = []) (hq : g.requested = false) :
    WorkerMoves o g { g with worker := .dozing }
  | sleeps (hp : g.worker = .dozing) : WorkerMoves o g { g with worker := .asleep }
  | takes (hp : g.worker = .evaluating) (he : g.queue ≠ []) :
    WorkerMoves o g { g with worker := .processing g.queue, queue := [] }
  | ends (hp : g.worker = .processing []) : WorkerMoves o g { g with worker := .evaluating }
  | handles {cmd rest} (hp : g.worker = .processing (cmd :: rest)) :
    WorkerMoves o g (g.handle o rest cmd)
  | prints {r} (hp : g.worker = .reporting r) (hh : g.handler = none) :
    WorkerMoves o g ((g.note (.printed r.message)).reported r)
  | drops {r h} (hp : g.worker = .reporting r) (hh : g.handler = some h)
    (hd : g.dispatcherRequested = true) : WorkerMoves o g (g.reported r)
  | addresses {r h} (hp : g.worker = .reporting r) (hh : g.handler = some h)
    (hd : g.dispatcherRequested = false) : WorkerMoves o g { g with worker := .posting h r }
  | posts {h r} (hp : g.worker = .posting h r) (hd : g.dispatcher ≠ .dozing) :
    WorkerMoves o g { g with posts := g.posts ++ [(h, r.message)], worker := .alerting r }
  | alerts {r} (hp : g.worker = .alerting r) : WorkerMoves o g (g.wakeDispatcher.reported r)
  | leaves {store} (hp : g.worker = .flushing) (hf : o.flush g.store g.sink = .ok store) :
    WorkerMoves o g { g with store := store, worker := .exited }
  | failsToFlush {text} (hp : g.worker = .flushing) (hf : o.flush g.store g.sink = .error text) :
    WorkerMoves o g { g with
      worker := .reporting ⟨"Logger final flush failed: " ++ text, none, none⟩ }

/-- What the dispatcher does in one step, apart from the calls of a handler. -/
inductive DispatcherMoves (react : κ → String → Reaction κ) (c : Caller τ κ) (g : Logger τ κ σ) :
    Caller τ κ → Logger τ κ σ → Prop
  | exits (hp : g.dispatcher = .evaluating) (he : g.posts = [])
    (hq : g.dispatcherRequested = true) :
    DispatcherMoves react c g c { g with dispatcher := .exited }
  | dozes (hp : g.dispatcher = .evaluating) (he : g.posts = [])
    (hq : g.dispatcherRequested = false) :
    DispatcherMoves react c g c { g with dispatcher := .dozing }
  | sleeps (hp : g.dispatcher = .dozing) :
    DispatcherMoves react c g c { g with dispatcher := .asleep }
  | invokes {h message rest} (hp : g.dispatcher = .evaluating)
    (he : g.posts = (h, message) :: rest) :
    DispatcherMoves react c g { c with todo := (react h message).calls }
      (({ g with posts := rest, dispatcher := .running (react h message).thrown }).note
        (.invoked h message))
  | ends (hp : g.dispatcher = .running none) (hc : c.finished = true) :
    DispatcherMoves react c g c { g with dispatcher := .evaluating }
  | throws {text} (hp : g.dispatcher = .running (some text)) (hc : c.finished = true) :
    DispatcherMoves react c g c (({ g with dispatcher := .evaluating }).note (.threw text))

variable {o : Outlet τ σ} {a : Agent τ} {c c' : Caller τ κ} {g' : Logger τ κ σ}

/-- One case for each place of the caller. -/
theorem callerMoves (h : g.callerStep o a c = some (c', g')) : CallerMoves o a c g c' g' := by
  unfold callerStep at h
  cases hp : c.place with
  | idle =>
    cases ht : c.todo with
    | nil => simp [hp, ht] at h
    | cons call rest =>
      simp only [hp, ht, Option.some.injEq] at h
      exact .calls hp ht h
  | checking cmd =>
    simp only [hp] at h
    split at h
    case isTrue hq => exact .refuses (.inl hp) hq (Option.some.inj h)
    case isFalse hq =>
      cases h
      exact .looks hp (Bool.eq_false_iff.mpr hq)
  | pushing cmd =>
    have hw : g.worker ≠ .dozing := by
      intro hw
      simp [hp, hw] at h
    simp only [hp] at h
    split at h
    case isTrue hq => exact .refuses (.inr hp) hq (Option.some.inj h)
    case isFalse hq =>
      cases h
      exact .pushes hp (Bool.eq_false_iff.mpr hq) hw
  | notifying cmd =>
    simp only [hp, Option.some.injEq] at h
    exact .notifies hp h
  | rechecking ticket =>
    simp only [hp] at h
    split at h
    case isTrue hq =>
      cases h
      exact .returns (.inl ⟨ticket, hp, hq⟩)
    case isFalse hq =>
      cases h
      exact .waits hp (Bool.eq_false_iff.mpr hq)
  | awaiting ticket =>
    simp only [hp] at h
    split at h
    case isTrue ht =>
      cases h
      exact .returns (.inr (.inl ⟨ticket, hp, ht⟩))
    case isFalse => cases h
  | claiming =>
    simp only [hp] at h
    split at h
    case isTrue hq =>
      cases h
      exact .returns (.inr (.inr ⟨hp, hq⟩))
    case isFalse hq =>
      cases h
      exact .claims hp (Bool.eq_false_iff.mpr hq)
  | waking =>
    simp only [hp, Option.some.injEq, Prod.mk.injEq] at h
    obtain ⟨rfl, rfl⟩ := h
    exact .wakes hp
  | joining =>
    simp only [hp] at h
    split at h
    case h_1 hw =>
      cases h
      exact .joins hp hw
    case h_2 => cases h
  | claimingDispatcher =>
    simp only [hp] at h
    split at h
    case isTrue hd =>
      cases h
      exact .skipsDispatcher hp hd
    case isFalse hd =>
      cases h
      exact .claimsDispatcher hp (Bool.eq_false_iff.mpr hd)
  | wakingDispatcher =>
    simp only [hp, Option.some.injEq, Prod.mk.injEq] at h
    obtain ⟨rfl, rfl⟩ := h
    exact .wakesDispatcher hp
  | joiningDispatcher =>
    simp only [hp] at h
    split at h
    case h_1 hd =>
      cases h
      exact .joinsDispatcher hp hd
    case h_2 => cases h
  | completing =>
    simp only [hp, finish, Option.some.injEq, Prod.mk.injEq] at h
    obtain ⟨rfl, rfl⟩ := h
    exact .completes hp

/-- One case for each place of the worker. -/
theorem workerMoves (h : g.workerStep o = some g') : WorkerMoves o g g' := by
  unfold workerStep at h
  cases hp : g.worker with
  | evaluating =>
    simp only [hp] at h
    split at h
    case h_1 he =>
      split at h
      case isTrue hq =>
        cases h
        exact .closes hp he hq
      case isFalse hq =>
        cases h
        exact .dozes hp he (Bool.eq_false_iff.mpr hq)
    case h_2 cmd rest he =>
      rw [← he] at h
      cases h
      exact .takes hp (he ▸ List.cons_ne_nil cmd rest)
  | dozing =>
    simp only [hp, Option.some.injEq] at h
    exact h ▸ .sleeps hp
  | asleep => simp [hp] at h
  | processing batch =>
    cases batch with
    | nil =>
      simp only [hp, Option.some.injEq] at h
      exact h ▸ .ends hp
    | cons cmd rest =>
      simp only [hp, Option.some.injEq] at h
      exact h ▸ .handles hp
  | reporting r =>
    simp only [hp] at h
    split at h
    case h_1 hh =>
      cases h
      exact .prints hp hh
    case h_2 k hh =>
      split at h
      case isTrue hd =>
        cases h
        exact .drops hp hh hd
      case isFalse hd =>
        cases h
        exact .addresses hp hh (Bool.eq_false_iff.mpr hd)
  | posting k r =>
    simp only [hp] at h
    split at h
    case h_1 => cases h
    case h_2 hd =>
      cases h
      exact .posts hp hd
  | alerting r =>
    simp only [hp, Option.some.injEq] at h
    exact h ▸ .alerts hp
  | flushing =>
    simp only [hp] at h
    split at h
    case h_1 store hf =>
      cases h
      exact .leaves hp hf
    case h_2 text hf =>
      cases h
      exact .failsToFlush hp hf
  | exited => simp [hp] at h

/-- One case for each place of the dispatcher. -/
theorem dispatcherMoves {react : κ → String → Reaction κ}
    (h : g.dispatcherStep react c = some (c', g')) : DispatcherMoves react c g c' g' := by
  unfold dispatcherStep at h
  cases hp : g.dispatcher with
  | evaluating =>
    simp only [hp] at h
    split at h
    case h_1 he =>
      split at h
      case isTrue hq =>
        cases h
        exact .exits hp he hq
      case isFalse hq =>
        cases h
        exact .dozes hp he (Bool.eq_false_iff.mpr hq)
    case h_2 k message rest he =>
      cases h
      exact .invokes hp he
  | dozing =>
    simp only [hp, Option.some.injEq, Prod.mk.injEq] at h
    obtain ⟨rfl, rfl⟩ := h
    exact .sleeps hp
  | asleep => simp [hp] at h
  | running thrown =>
    simp only [hp] at h
    split at h
    case isFalse => cases h
    case isTrue hc =>
      cases thrown with
      | none =>
        cases h
        exact .ends hp hc
      | some text =>
        cases h
        exact .throws hp hc
  | exited => simp [hp] at h

/-! When a thread can take its step. -/

theorem callerStep_of_honoured {ticket : Nat} (hp : c.place = .awaiting ticket)
    (ht : ticket ∈ g.honoured) :
    g.callerStep o a c = some ({ c with place := .idle }, g.note (.returned a)) := by
  simp [callerStep, hp, ht, finish]

theorem workerStep_isSome (ha : g.worker ≠ .asleep) (he : g.worker ≠ .exited)
    (hd : g.dispatcher ≠ .dozing) : (g.workerStep o).isSome = true := by
  unfold workerStep
  cases hp : g.worker with
  | evaluating =>
    cases g.queue with
    | nil => cases g.requested <;> rfl
    | cons cmd rest => rfl
  | dozing | alerting r => rfl
  | asleep => exact absurd hp ha
  | processing batch => cases batch <;> rfl
  | reporting r =>
    cases g.handler with
    | none => rfl
    | some k => cases g.dispatcherRequested <;> rfl
  | posting k r =>
    cases hd' : g.dispatcher with
    | dozing => exact absurd hd' hd
    | _ => rfl
  | flushing => cases o.flush g.store g.sink <;> rfl
  | exited => exact absurd hp he

theorem dispatcherStep_of_dozing {react : κ → String → Reaction κ} (hp : g.dispatcher = .dozing) :
    g.dispatcherStep react c = some (c, { g with dispatcher := .asleep }) := by
  simp [dispatcherStep, hp]

/-- What a thread that cannot go on waits for, if it has anything left to do. -/
inductive CallerWaits (c : Caller τ κ) (g : Logger τ κ σ) : Prop
  | finished (hp : c.place = .idle) (ht : c.todo = [])
  | locked {cmd} (hp : c.place = .pushing cmd) (hw : g.worker = .dozing)
  | flushing {ticket} (hp : c.place = .awaiting ticket) (ht : ticket ∉ g.honoured)
  | joining (hp : c.place = .joining) (hw : g.worker ≠ .exited)
  | joiningDispatcher (hp : c.place = .joiningDispatcher) (hd : g.dispatcher ≠ .exited)

theorem callerWaits (h : g.callerStep o a c = none) : CallerWaits c g := by
  unfold callerStep at h
  cases hp : c.place with
  | idle =>
    cases ht : c.todo with
    | nil => exact .finished hp ht
    | cons call rest => simp [hp, ht] at h
  | checking cmd =>
    simp only [hp] at h
    split at h <;> cases h
  | pushing cmd =>
    by_cases hw : g.worker = .dozing
    · exact .locked hp hw
    · simp only [hp] at h
      split at h <;> cases h
  | notifying cmd => simp [hp] at h
  | rechecking ticket =>
    simp only [hp] at h
    split at h <;> cases h
  | awaiting ticket =>
    by_cases ht : ticket ∈ g.honoured
    · simp [hp, ht] at h
    · exact .flushing hp ht
  | claiming =>
    simp only [hp] at h
    split at h <;> cases h
  | waking => simp [hp] at h
  | joining =>
    refine .joining hp fun hw => ?_
    simp [hp, hw] at h
  | claimingDispatcher =>
    simp only [hp] at h
    split at h <;> cases h
  | wakingDispatcher => simp [hp] at h
  | joiningDispatcher =>
    refine .joiningDispatcher hp fun hd => ?_
    simp [hp, hd] at h
  | completing => simp [hp] at h

/-- The dispatcher sleeps, has ended, or waits for the handler that it runs. -/
inductive DispatcherWaits (c : Caller τ κ) (g : Logger τ κ σ) : Prop
  | asleep (hp : g.dispatcher = .asleep)
  | exited (hp : g.dispatcher = .exited)
  | running {thrown} (hp : g.dispatcher = .running thrown) (hc : c.finished = false)

theorem dispatcherWaits {react : κ → String → Reaction κ} (h : g.dispatcherStep react c = none) :
    DispatcherWaits c g := by
  unfold dispatcherStep at h
  cases hp : g.dispatcher with
  | evaluating =>
    simp only [hp] at h
    split at h
    case h_1 => split at h <;> cases h
    case h_2 => cases h
  | dozing => simp [hp] at h
  | asleep => exact .asleep hp
  | running thrown =>
    cases hc : c.finished with
    | false => exact .running hp hc
    | true => cases thrown <;> simp [hp, hc] at h
  | exited => exact .exited hp

end Logger

namespace System

variable [DecidableEq τ] {o : Outlet τ σ} {react : κ → String → Reaction κ} {s s' : System τ κ σ}

/-- A step of the system is a step of one thread; the other callers stay where they are. -/
theorem step_cases {x : Actor τ} (h : s.step o react x = some s') :
    (∃ a c g, x = .caller a ∧ Logger.CallerMoves o a (s.callers a) s.logger c g ∧
      s' = { s.setCaller a c with logger := g }) ∨
    (∃ g, x = .worker ∧ Logger.WorkerMoves o s.logger g ∧ s' = { s with logger := g }) ∨
    (∃ c g, x = .dispatcher ∧ Logger.DispatcherMoves react (s.callers .dispatcher) s.logger c g ∧
      s' = { s.setCaller .dispatcher c with logger := g }) := by
  cases x with
  | caller a =>
    obtain ⟨⟨c, g⟩, hs, rfl⟩ := Option.map_eq_some_iff.mp h
    exact .inl ⟨a, c, g, rfl, Logger.callerMoves hs, rfl⟩
  | worker =>
    obtain ⟨g, hs, rfl⟩ := Option.map_eq_some_iff.mp h
    exact .inr (.inl ⟨g, rfl, Logger.workerMoves hs, rfl⟩)
  | dispatcher =>
    obtain ⟨⟨c, g⟩, hs, rfl⟩ := Option.map_eq_some_iff.mp h
    exact .inr (.inr ⟨c, g, rfl, Logger.dispatcherMoves hs, rfl⟩)

end System
end Logging
end CheckedLock
