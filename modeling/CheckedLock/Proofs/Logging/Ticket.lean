import CheckedLock.Proofs.Logging.Headway

/-! Tickets. Each flush draws one, which goes through the queue with its command; the worker honours
the tickets in the order of the queue and none twice, also when the sink cannot be flushed. -/
namespace CheckedLock
namespace Logging

variable {τ κ σ : Type} {o : Outlet τ σ}

def Command.ticket? : Command τ κ → Option Nat
  | .flush ticket => some ticket
  | _ => none

/-- The ticket of a flush that has failed and is being reported. -/
def WorkerPlace.ticket? : WorkerPlace τ κ → Option Nat
  | .reporting r | .posting _ r | .alerting r => r.ticket
  | _ => none

/-- Steps that the worker may still need for its batch. -/
def WorkerPlace.toil : WorkerPlace τ κ → Nat
  | .processing b => 4 * b.length
  | .reporting r => 4 * (r.rest.getD []).length + 3
  | .posting _ r => 4 * (r.rest.getD []).length + 2
  | .alerting r => 4 * (r.rest.getD []).length + 1
  | _ => 0

namespace Place

/-- A flush on its way to the queue. -/
def carried? : Place τ κ → Option Nat
  | .checking c | .pushing c => c.ticket?
  | _ => none

/-- A flush that came into the queue. -/
def sent? : Place τ κ → Option Nat
  | .notifying c => c.ticket?
  | .awaiting ticket => some ticket
  | _ => none

/-- A flush that came into the queue or was refused. -/
def unsure? : Place τ κ → Option Nat
  | .rechecking ticket => some ticket
  | _ => none

/-- The ticket of the flush that a thread is in. -/
def flush? : Place τ κ → Option Nat
  | .checking c | .pushing c | .notifying c => c.ticket?
  | .rechecking ticket | .awaiting ticket => some ticket
  | _ => none

theorem of_flush?_eq_none {p : Place τ κ} (h : p.flush? = none) :
    p.carried? = none ∧ p.sent? = none ∧ p.unsure? = none := by
  cases p with
  | checking c | pushing c => exact ⟨h, rfl, rfl⟩
  | notifying c => exact ⟨rfl, h, rfl⟩
  | rechecking t | awaiting t => cases h
  | _ => exact ⟨rfl, rfl, rfl⟩

end Place

theorem Command.flush_mem {t : Nat} {cs : List (Command τ κ)} (h : t ∈ cs.filterMap ticket?) :
    .flush t ∈ cs := by
  obtain ⟨c, hc, ht⟩ := List.mem_filterMap.mp h
  cases c <;> cases ht
  exact hc

theorem Command.mem_tickets {t : Nat} {cs : List (Command τ κ)} (h : .flush t ∈ cs) :
    t ∈ cs.filterMap ticket? :=
  List.mem_filterMap.mpr ⟨_, h, rfl⟩

namespace Logger

variable {g g' : Logger τ κ σ} {a : Agent τ} {c c' : Caller τ κ}

/-- Tickets that came into the queue. -/
def tickets (g : Logger τ κ σ) : List Nat := g.queued.filterMap Command.ticket?

/-- Tickets that are honoured, under report, and still before the worker. -/
def docket (g : Logger τ κ σ) : List Nat :=
  g.honoured.reverse ++ g.worker.ticket?.toList ++ g.pending.filterMap Command.ticket?

/-! ### The worker's side -/

theorem put_docket (r : Record τ) (rest : List (Command τ κ)) :
    (g.put o r rest).docket =
      g.honoured.reverse ++ rest.filterMap Command.ticket? ++
        g.queue.filterMap Command.ticket? := by
  obtain ⟨store, -, h⟩ | ⟨text, -, h⟩ := put_cases o g r rest <;> rw [h] <;>
    simp [docket, pending, note, WorkerPlace.ticket?, WorkerPlace.batch]

/-- A command's own ticket is honoured, or its failure is under report. -/
theorem handle_docket (cmd : Command τ κ) (rest : List (Command τ κ))
    (hp : g.worker = .processing (cmd :: rest)) : (g.handle o rest cmd).docket = g.docket := by
  have hold : g.docket = g.honoured.reverse ++ cmd.ticket?.toList ++
      rest.filterMap Command.ticket? ++ g.queue.filterMap Command.ticket? := by
    cases ht : cmd.ticket? <;>
      simp [docket, pending, hp, WorkerPlace.ticket?, WorkerPlace.batch, ht]
  rw [hold]
  cases cmd with
  | write r => simp [handle, put_docket r rest, Command.ticket?]
  | select s =>
    simp only [handle]
    split
    case h_1 => simp [docket, pending, WorkerPlace.ticket?, WorkerPlace.batch, Command.ticket?]
    case h_2 store _ =>
      rw [put_docket (g := { g with store := store, sink := s })]
      simp [Command.ticket?]
  | flush ticket =>
    simp only [handle]
    split <;>
      simp [docket, pending, honour, WorkerPlace.ticket?, WorkerPlace.batch, Command.ticket?]
  | openFailed message | onError k =>
    simp [handle, docket, pending, WorkerPlace.ticket?, WorkerPlace.batch, Command.ticket?]

theorem reported_docket (r : Report τ κ) : (g.reported r).docket = g.honoured.reverse ++
    r.ticket.toList ++ (r.rest.getD []).filterMap Command.ticket? ++
      g.queue.filterMap Command.ticket? := by
  have hticket : (g.reported r).worker.ticket? = none := by
    cases hr : r.rest <;> simp [reported, proceed, WorkerPlace.ticket?, hr]
  rw [docket, pending, hticket, (reported_worker r).1, reported_queue, reported_honoured]
  cases r.ticket <;> simp

theorem WorkerMoves.docket (h : WorkerMoves o g g') : g'.docket = g.docket := by
  have hreport : ∀ {y : Logger τ κ σ} {r : Report τ κ}, y.honoured = g.honoured →
      y.queue = g.queue → g.worker.ticket? = r.ticket → g.worker.batch = r.rest.getD [] →
      (y.reported r).docket = g.docket := by
    intro y r hh hq ht hb
    rw [reported_docket, Logger.docket, pending, hh, hq, ht, hb]
    simp
  cases h with
  | handles hp => exact handle_docket _ _ hp
  | prints hp => exact hreport rfl rfl (by rw [hp]; rfl) (by rw [hp]; rfl)
  | drops hp => exact hreport rfl rfl (by rw [hp]; rfl) (by rw [hp]; rfl)
  | alerts hp =>
    refine hreport ?_ wakeDispatcher_queue (by rw [hp]; rfl) (by rw [hp]; rfl)
    unfold wakeDispatcher
    split <;> rfl
  | closes hp | dozes hp | sleeps hp | takes hp | ends hp | addresses hp | posts hp | leaves hp
    | failsToFlush hp =>
    simp [Logger.docket, pending, hp, WorkerPlace.ticket?, WorkerPlace.batch]

/-- A ticket is honoured when there is nothing left to report. -/
theorem WorkerMoves.honours (h : WorkerMoves o g g') : g'.honoured = g.honoured ∨ g'.due = [] := by
  cases h with
  | @handles cmd rest hp =>
    cases cmd with
    | write r => exact .inl (put_frame r rest).2.1
    | select s =>
      simp only [handle]
      split
      case h_1 => exact .inl rfl
      case h_2 store _ =>
        obtain ⟨-, hh, -⟩ :=
          put_frame (o := o) (g := { g with store := store, sink := s }) (.switched g.sink) rest
        exact .inl hh
    | flush ticket =>
      simp only [handle]
      split
      · exact .inl rfl
      · exact .inr rfl
    | openFailed message | onError k => exact .inl rfl
  | prints | drops | alerts => exact .inr (reported_worker _).2.2
  | _ => exact .inl rfl

/-- The worker has taken this ticket's command from the queue and is not through with it. -/
def Taken (g : Logger τ κ σ) (t : Nat) : Prop :=
  .flush t ∈ g.worker.batch ∨ g.worker.ticket? = some t

/-- A command is done within four steps, three of them for a report. -/
theorem put_toil (r : Record τ) (rest : List (Command τ κ)) :
    (g.put o r rest).worker.batch = rest ∧ (g.put o r rest).worker.toil ≤ 4 * rest.length + 3 := by
  obtain ⟨store, -, h⟩ | ⟨text, -, h⟩ := put_cases o g r rest <;> rw [h] <;>
    simp [note, WorkerPlace.batch, WorkerPlace.toil]

theorem handle_toil (cmd : Command τ κ) (rest : List (Command τ κ)) :
    (g.handle o rest cmd).worker.batch = rest ∧
      (g.handle o rest cmd).worker.toil ≤ 4 * rest.length + 3 := by
  cases cmd with
  | write r => exact put_toil r rest
  | select s =>
    simp only [handle]
    split
    case h_1 => exact ⟨rfl, Nat.le_refl _⟩
    case h_2 store _ =>
      exact put_toil (g := { g with store := store, sink := s }) (.switched g.sink) rest
  | flush ticket =>
    simp only [handle]
    split
    · exact ⟨rfl, Nat.le_refl _⟩
    · exact ⟨rfl, Nat.le_add_right _ 3⟩
  | openFailed message => exact ⟨rfl, Nat.le_refl _⟩
  | onError k => exact ⟨rfl, Nat.le_add_right _ 3⟩

/-- A flush is honoured at once, or after the report of its failure. -/
theorem handle_flush (t : Nat) (rest : List (Command τ κ)) :
    t ∈ (g.handle o rest (.flush t)).honoured ∨
      (g.handle o rest (.flush t)).worker.ticket? = some t := by
  simp only [handle]
  split
  · exact .inr rfl
  · exact .inl (List.mem_cons_self ..)

theorem reported_toil (r : Report τ κ) : (g.reported r).worker.batch = r.rest.getD [] ∧
    (g.reported r).worker.toil = 4 * (r.rest.getD []).length := by
  cases hr : r.rest <;> simp [reported, proceed, WorkerPlace.batch, WorkerPlace.toil, hr]

/-- Each step of the worker brings a command that it has taken closer to its end. -/
theorem WorkerMoves.taken (h : WorkerMoves o g g') {t : Nat} (ht : g.Taken t) :
    t ∈ g'.honoured ∨ (g'.Taken t ∧ g'.worker.toil < g.worker.toil) := by
  have hreport : ∀ {y : Logger τ κ σ} {r : Report τ κ}, g.worker.ticket? = r.ticket →
      g.worker.batch = r.rest.getD [] → 4 * (r.rest.getD []).length < g.worker.toil →
      t ∈ (y.reported r).honoured ∨
        ((y.reported r).Taken t ∧ (y.reported r).worker.toil < g.worker.toil) := by
    intro y r hticket hbatch htoil
    obtain ⟨hb, htoil'⟩ := reported_toil (g := y) r
    obtain ht | ht := ht
    · exact .inr ⟨.inl (hb ▸ hbatch ▸ ht), htoil' ▸ htoil⟩
    · refine .inl ?_
      rw [reported_honoured, ← hticket, ht]
      exact List.mem_append_left _ (List.mem_singleton.mpr rfl)
  cases h with
  | closes hp | dozes hp | sleeps hp | takes hp | ends hp | leaves hp | failsToFlush hp =>
    simp [Taken, hp, WorkerPlace.batch, WorkerPlace.ticket?] at ht
  | @handles cmd rest hp =>
    obtain ⟨hb, htoil⟩ := handle_toil (o := o) (g := g) cmd rest
    have hless : (g.handle o rest cmd).worker.toil < g.worker.toil := by
      rw [hp]
      exact Nat.lt_of_le_of_lt htoil (by simp [WorkerPlace.toil]; omega)
    obtain ht | ht := ht
    · rw [hp] at ht
      obtain ht | ht := List.mem_cons.mp ht
      · subst ht
        exact (handle_flush t rest).imp_right fun ht => ⟨.inr ht, hless⟩
      · exact .inr ⟨.inl (by rw [hb]; exact ht), hless⟩
    · rw [hp] at ht
      cases ht
  | prints hp | drops hp =>
    exact hreport (by rw [hp]; rfl) (by rw [hp]; rfl) (by rw [hp]; simp [WorkerPlace.toil])
  | alerts hp =>
    exact hreport (by rw [hp]; rfl) (by rw [hp]; rfl) (by rw [hp]; simp [WorkerPlace.toil])
  | addresses hp | posts hp =>
    rw [Taken, hp] at ht
    exact .inr ⟨ht, by simp [hp, WorkerPlace.toil]⟩

theorem Taken.busy {t : Nat} (ht : g.Taken t) :
    g.worker ≠ .asleep ∧ g.worker ≠ .exited ∧ 0 < g.worker.toil := by
  cases hp : g.worker with
  | evaluating | dozing | asleep | flushing | exited =>
    simp [Taken, hp, WorkerPlace.batch, WorkerPlace.ticket?] at ht
  | processing batch =>
    cases batch with
    | nil => simp [Taken, hp, WorkerPlace.batch, WorkerPlace.ticket?] at ht
    | cons cmd rest => simp [WorkerPlace.toil]
  | reporting r | posting k r | alerting r => simp [WorkerPlace.toil]

theorem CallerMoves.worker_of_taken (h : CallerMoves o a c g c' g') {t : Nat} (ht : g.Taken t) :
    g'.worker = g.worker :=
  h.spares.worker.resolve_right fun hw => ht.busy.1 hw.1

/-! ### The callers' side -/

theorem tickets_of_journal (h : g'.journal = g.journal) : g'.tickets = g.tickets := by
  rw [tickets, queued, told_of_journal _ h, tickets]

@[simp] theorem tickets_note (e : Event τ κ) :
    (g.note e).tickets = g.tickets ++ (e.queued?.bind Command.ticket?).toList := by
  rw [tickets, queued, told_note, List.filterMap_append, tickets]
  cases e.queued? with
  | none => rfl
  | some cmd => cases h : cmd.ticket? <;> simp [h]

/-- What a step of a call does with tickets. -/
inductive Passes (c : Caller τ κ) (g : Logger τ κ σ) (c' : Caller τ κ) (g' : Logger τ κ σ) : Prop
  | draws (hc : c'.place = .checking (.flush g.nextTicket)) (ht : g'.tickets = g.tickets)
    (hn : g'.nextTicket = g.nextTicket + 1)
  | sends (hc : c.place.carried? = c'.place.sent?) (hcarried : c'.place.carried? = none)
    (hunsure : c'.place.unsure? = none) (ht : g'.tickets = g.tickets ++ c'.place.sent?.toList)
    (hn : g'.nextTicket = g.nextTicket)
  | goes (hcarried : ∀ t, c'.place.carried? = some t → c.place.carried? = some t)
    (hsent : ∀ t, c'.place.sent? = some t →
      c.place.sent? = some t ∨ (c.place.unsure? = some t ∧ g.requested = false))
    (hunsure : ∀ t, c'.place.unsure? = some t → c.place.sent? = some t ∨ g.requested = true)
    (ht : g'.tickets = g.tickets) (hn : g'.nextTicket = g.nextTicket)

theorem begin_passes {call : Call κ} (h : begin o a c g call = (c', g')) :
    g'.tickets = g.tickets ∧
      ((c'.place = .checking (.flush g.nextTicket) ∧ g'.nextTicket = g.nextTicket + 1) ∨
        (c'.place.flush? = none ∧ g'.nextTicket = g.nextTicket)) := by
  have htickets : (begin o a c g call).2.tickets = g.tickets := by
    cases call <;> simp only [begin] <;> (try split) <;> rfl
  have hplace : ((begin o a c g call).1.place = .checking (.flush g.nextTicket) ∧
        (begin o a c g call).2.nextTicket = g.nextTicket + 1) ∨
      ((begin o a c g call).1.place.flush? = none ∧
        (begin o a c g call).2.nextTicket = g.nextTicket) := by
    cases call with
    | flush =>
      simp only [begin]
      split
      · exact .inr ⟨rfl, rfl⟩
      · exact .inl ⟨rfl, rfl⟩
    | _ => exact .inr (by constructor <;> simp only [begin] <;> (try split) <;> rfl)
  rw [h] at htickets hplace
  exact ⟨htickets, hplace⟩

theorem Passes.of_none (hc : c'.place.flush? = none) (ht : g'.tickets = g.tickets)
    (hn : g'.nextTicket = g.nextTicket) : Passes c g c' g' := by
  obtain ⟨h₁, h₂, h₃⟩ := Place.of_flush?_eq_none hc
  exact .goes (by simp [h₁]) (by simp [h₂]) (by simp [h₃]) ht hn

/-- A command is through with the queue: the thread of a flush is to look once more. -/
theorem pushed_passes {cmd : Command τ κ} (h : pushed a cmd c g = (c', g')) :
    g'.tickets = g.tickets ∧ g'.nextTicket = g.nextTicket ∧ c'.place.carried? = none ∧
      c'.place.sent? = none ∧ c'.place.unsure? = cmd.ticket? ∧ c'.place.flush? = cmd.ticket? := by
  cases cmd <;> cases h <;> exact ⟨rfl, rfl, rfl, rfl, rfl, rfl⟩

theorem wake_passes : g.wake.tickets = g.tickets ∧ g.wake.nextTicket = g.nextTicket := by
  unfold wake
  split <;> exact ⟨rfl, rfl⟩

theorem refuse_passes (cmd : Command τ κ) :
    (g.refuse cmd).tickets = g.tickets ∧ (g.refuse cmd).nextTicket = g.nextTicket := by
  cases cmd <;> exact ⟨rfl, rfl⟩

theorem CallerMoves.passes (h : CallerMoves o a c g c' g') : Passes c g c' g' := by
  cases h with
  | calls hp ht hb =>
    obtain ⟨htickets, ⟨hc, hn⟩ | ⟨hc, hn⟩⟩ := begin_passes hb
    · exact .draws hc htickets hn
    · exact .of_none hc htickets hn
  | looks hp =>
    exact .goes (fun t h => by rw [hp]; exact h) nofun nofun rfl rfl
  | @refuses cmd hp hq _ _ he =>
    obtain ⟨ht, hn, hcarried, hsent, -, -⟩ := pushed_passes he
    obtain ⟨ht', hn'⟩ := refuse_passes (g := g) cmd
    exact .goes (by simp [hcarried]) (by simp [hsent]) (fun _ _ => .inr hq) (ht.trans ht')
      (hn.trans hn')
  | @pushes cmd hp =>
    exact .sends (by rw [hp]; rfl) rfl rfl (tickets_note _) rfl
  | @notifies cmd hp _ _ he =>
    obtain ⟨ht, hn, hcarried, hsent, hunsure, -⟩ := pushed_passes he
    refine .goes (by simp [hcarried]) (by simp [hsent]) (fun t h => .inl ?_)
      (ht.trans wake_passes.1) (hn.trans wake_passes.2)
    rw [hp]
    exact hunsure.symm.trans h
  | waits hp hq => exact .goes nofun (fun t h => .inr ⟨by rw [hp]; exact h, hq⟩) nofun rfl rfl
  | wakes => exact .of_none rfl wake_passes.1 wake_passes.2
  | wakesDispatcher =>
    exact .of_none rfl (tickets_of_journal wakeDispatcher_journal)
      (by unfold wakeDispatcher; split <;> rfl)
  | _ => exact .of_none rfl rfl rfl

/-- A thread stays in its flush until the queue is closed or its ticket is honoured. -/
theorem CallerMoves.flush (h : CallerMoves o a c g c' g') {t : Nat}
    (ht : c.place.flush? = some t) : c'.serial = c.serial ∧ (c'.place.flush? = some t ∨
      (c'.place = .idle ∧ (g.requested = true ∨ t ∈ g.honoured))) := by
  have hbusy : c.place ≠ .idle := by
    intro hp
    rw [hp] at ht
    cases ht
  refine ⟨h.serial_eq hbusy, ?_⟩
  cases h with
  | calls hp => exact absurd hp hbusy
  | looks hp | pushes hp | waits hp => exact .inl (by rw [hp] at ht; exact ht)
  | refuses hp _ he =>
    obtain ⟨-, -, -, -, -, hc⟩ := pushed_passes he
    exact .inl (by rcases hp with hp | hp <;> rw [hp] at ht <;> exact hc.trans ht)
  | notifies hp he =>
    obtain ⟨-, -, -, -, -, hc⟩ := pushed_passes he
    exact .inl (by rw [hp] at ht; exact hc.trans ht)
  | returns hp =>
    refine .inr ⟨rfl, ?_⟩
    obtain ⟨ticket, hp, hq⟩ | ⟨ticket, hp, hmem⟩ | ⟨hp, -⟩ := hp <;> rw [hp] at ht <;> cases ht
    · exact .inl hq
    · exact .inr hmem
  | claims hp | wakes hp | joins hp | skipsDispatcher hp | claimsDispatcher hp
    | wakesDispatcher hp | joinsDispatcher hp | completes hp =>
    rw [hp] at ht
    cases ht

/-! ### Callers and worker together -/

theorem CallerMoves.docket (h : CallerMoves o a c g c' g') :
    ∃ ts, g'.tickets = g.tickets ++ ts ∧ g'.docket = g.docket ++ ts := by
  obtain ⟨es, hc⟩ := h.carries
  have hworker : g'.worker.ticket? = g.worker.ticket? ∧ g'.worker.batch = g.worker.batch := by
    obtain hw | ⟨hw, hw'⟩ := h.spares.worker
    · rw [hw]
      exact ⟨rfl, rfl⟩
    · rw [hw, hw']
      exact ⟨rfl, rfl⟩
  refine ⟨(es.filterMap Event.queued?).filterMap Command.ticket?, ?_, ?_⟩
  · rw [tickets, tickets, queued, hc.adds.told, List.filterMap_append]
  · simp only [Logger.docket, pending, hworker.1, hworker.2, hc.queue, h.extends.2,
      List.filterMap_append, List.append_assoc]

theorem DispatcherMoves.docket {react : κ → String → Reaction κ}
    (h : DispatcherMoves react c g c' g') : g'.docket = g.docket := by
  cases h <;> rfl

/-- A worker's or a dispatcher's step puts no ticket into the queue. -/
theorem Bystands.tickets {mine : Event τ κ → Bool} (h : Bystands mine g g')
    (hmine : ∀ e, mine e = true → e.isCallers = false) : g'.tickets = g.tickets := by
  obtain ⟨es, hadds, hes⟩ := h.adds
  rw [Logger.tickets, Logger.tickets, queued, hadds.told_eq fun e he =>
    Event.queued?_of_not_isCallers (hmine e (hes e he))]

end Logger

namespace System

variable {react : κ → String → Reaction κ} {s s' s₁ : System τ κ σ} {a : Agent τ}
  {c : Caller τ κ} {g : Logger τ κ σ}

/-- Where the tickets are that were given out. -/
structure Ticketed (s : System τ κ σ) : Prop where
  drawn : ∀ t ∈ s.logger.tickets, t < s.logger.nextTicket
  once : s.logger.tickets.Nodup
  carried : ∀ a t, (s.callers a).place.carried? = some t →
    t < s.logger.nextTicket ∧ t ∉ s.logger.tickets
  apart : ∀ a b t, (s.callers a).place.carried? = some t →
    (s.callers b).place.carried? = some t → a = b
  sent : ∀ a t, (s.callers a).place.sent? = some t → t ∈ s.logger.tickets
  unsure : ∀ a t, (s.callers a).place.unsure? = some t →
    s.logger.requested = true ∨ t ∈ s.logger.tickets

theorem ticketed_start (store : σ) (todo : τ → List (Call κ)) : (start store todo).Ticketed where
  drawn := nofun
  once := List.nodup_nil
  carried := by rintro (t | _) <;> exact nofun
  apart := by rintro (t | _) b <;> exact nofun
  sent := by rintro (t | _) <;> exact nofun
  unsure := by rintro (t | _) <;> exact nofun

/-- Others do not see tickets. -/
theorem Ticketed.bystands (h : s.Ticketed) {callers : Agent τ → Caller τ κ}
    (ht : g.tickets = s.logger.tickets) (hn : g.nextTicket = s.logger.nextTicket)
    (hq : g.requested = s.logger.requested) (hp : ∀ a, (callers a).place = (s.callers a).place) :
    (System.mk g callers).Ticketed where
  drawn := by simpa only [ht, hn] using h.drawn
  once := by simpa only [ht] using h.once
  carried := by simpa only [ht, hn, hp] using h.carried
  apart := by simpa only [hp] using h.apart
  sent := by simpa only [ht, hp] using h.sent
  unsure := by simpa only [ht, hq, hp] using h.unsure

variable [DecidableEq τ]

theorem forall_setCaller {f : Place τ κ → Option Nat} {p : Nat → Prop}
    (hself : ∀ t, f c.place = some t → p t)
    (hother : ∀ b, b ≠ a → ∀ t, f (s.callers b).place = some t → p t) :
    ∀ b t, f ((s.setCaller a c).callers b).place = some t → p t := by
  intro b
  by_cases hb : b = a
  · subst hb
    rwa [setCaller_self]
  · rw [setCaller_ne s c hb]
    exact hother b hb

/-- The threads of other flushes have other tickets still. -/
theorem Ticketed.apart_setCaller (h : s.Ticketed)
    (hnew : ∀ b, b ≠ a → ∀ t, c.place.carried? = some t → (s.callers b).place.carried? ≠ some t) :
    ∀ b b' t, ((s.setCaller a c).callers b).place.carried? = some t →
      ((s.setCaller a c).callers b').place.carried? = some t → b = b' := by
  intro b b' t hb hb'
  by_cases hba : b = a <;> by_cases hba' : b' = a
  · exact hba.trans hba'.symm
  · subst hba
    rw [setCaller_self] at hb
    rw [setCaller_ne s c hba'] at hb'
    exact absurd hb' (hnew b' hba' t hb)
  · subst hba'
    rw [setCaller_self] at hb'
    rw [setCaller_ne s c hba] at hb
    exact absurd hb (hnew b hba t hb')
  · rw [setCaller_ne s c hba] at hb
    rw [setCaller_ne s c hba'] at hb'
    exact h.apart b b' t hb hb'

theorem Ticketed.caller (h : s.Ticketed) (hp : Logger.Passes (s.callers a) s.logger c g)
    (hq : s.logger.requested = true → g.requested = true) :
    ({ s.setCaller a c with logger := g } : System τ κ σ).Ticketed := by
  cases hp with
  | draws hc ht hn =>
    have hnew : ∀ t, c.place.carried? = some t → t = s.logger.nextTicket := by
      rw [hc]
      rintro t ⟨⟩
      rfl
    have hunused : s.logger.nextTicket ∉ s.logger.tickets := fun hmem =>
      Nat.lt_irrefl _ (h.drawn _ hmem)
    exact {
      drawn := fun t hmem => by
        rw [hn]
        exact Nat.lt_succ_of_lt (h.drawn t (ht ▸ hmem))
      once := by simpa only [ht] using h.once
      carried := forall_setCaller
        (fun t hcarried => by
          obtain rfl := hnew t hcarried
          exact ⟨hn ▸ Nat.lt_succ_self _, ht ▸ hunused⟩)
        fun b _ t hb => ⟨hn ▸ Nat.lt_succ_of_lt (h.carried b t hb).1, ht ▸ (h.carried b t hb).2⟩
      apart := h.apart_setCaller fun b _ t hcarried hb => by
        obtain rfl := hnew t hcarried
        exact Nat.lt_irrefl _ (h.carried b _ hb).1
      sent := forall_setCaller (by rw [hc]; exact nofun) fun b _ t hb => ht ▸ h.sent b t hb
      unsure := forall_setCaller (by rw [hc]; exact nofun)
        fun b _ t hb => (h.unsure b t hb).imp hq (ht ▸ ·) }
  | sends hc hcarried hunsure ht hn =>
    have hold : ∀ t ∈ s.logger.tickets, t ∈ g.tickets := fun t hmem =>
      ht ▸ List.mem_append_left _ hmem
    have hsent : ∀ t, c.place.sent? = some t → t ∈ g.tickets := fun t hs =>
      ht ▸ List.mem_append_right _ (by simp [hs])
    have hnew : ∀ t ∈ g.tickets, t ∈ s.logger.tickets ∨ (s.callers a).place.carried? = some t := by
      intro t hmem
      rw [ht] at hmem
      exact (List.mem_append.mp hmem).imp_right fun hmem => hc.trans (by simpa using hmem)
    exact {
      drawn := fun t hmem => by
        rw [hn]
        exact (hnew t hmem).elim (h.drawn t) fun hs => (h.carried a t hs).1
      once := by
        show g.tickets.Nodup
        rw [ht]
        refine List.nodup_append.mpr ⟨h.once, by cases c.place.sent? <;> simp, ?_⟩
        rintro t hmem _ hs rfl
        exact (h.carried a t (hc.trans (by simpa using hs))).2 hmem
      carried := forall_setCaller (by simp [hcarried]) fun b hb t hbt => by
        obtain ⟨hlt, hout⟩ := h.carried b t hbt
        refine ⟨hn ▸ hlt, fun hmem => (hnew t hmem).elim hout fun hat => ?_⟩
        exact hb (h.apart b a t hbt hat)
      apart := h.apart_setCaller (by simp [hcarried])
      sent := forall_setCaller hsent fun b _ t hb => hold t (h.sent b t hb)
      unsure := forall_setCaller (by simp [hunsure])
        fun b _ t hb => (h.unsure b t hb).imp hq (hold t) }
  | goes hcarried hsent hunsure ht hn =>
    exact {
      drawn := by simpa only [ht, hn] using h.drawn
      once := by simpa only [ht] using h.once
      carried := by
        simp only [ht, hn]
        exact forall_setCaller (fun t hc => h.carried a t (hcarried t hc)) fun b _ => h.carried b
      apart := h.apart_setCaller fun b hb t hc hbt => hb (h.apart b a t hbt (hcarried t hc))
      sent := by
        simp only [ht]
        refine forall_setCaller (fun t hc => ?_) fun b _ => h.sent b
        obtain hs | ⟨hu, hopen⟩ := hsent t hc
        · exact h.sent a t hs
        · exact (h.unsure a t hu).resolve_left (by simp [hopen])
      unsure := by
        simp only [ht]
        refine forall_setCaller (fun t hc => ?_) fun b _ t hb => (h.unsure b t hb).imp_left hq
        exact (hunsure t hc).elim (fun hs => .inr (h.sent a t hs)) fun hr => .inl (hq hr) }

theorem Reachable.ticketed {store : σ} {todo : τ → List (Call κ)}
    (hr : Reachable o react (System.start store todo) s) : s.Ticketed := by
  induction hr with
  | start => exact ticketed_start store todo
  | step x _ hs ih =>
    obtain ⟨a, c, g, -, hm, rfl⟩ | ⟨g, -, hm, rfl⟩ | ⟨c, g, -, hm, rfl⟩ := step_cases hs
    · exact ih.caller hm.passes hm.extends.1.requested
    · exact ih.bystands (hm.bystands.tickets fun _ => Event.not_isCallers_of_isWorkers)
        hm.forward.nextTicket hm.bystands.requested fun _ => rfl
    · refine ih.bystands (hm.bystands.1.tickets fun _ => Event.not_isCallers_of_isDispatchers)
        (by cases hm <;> rfl) hm.bystands.1.requested fun a => ?_
      by_cases ha : a = .dispatcher <;> simp [setCaller, ha, hm.bystands.2.1]

/-- No ticket is lost and none is honoured out of turn. -/
theorem Reachable.docket {store : σ} {todo : τ → List (Call κ)}
    (hr : Reachable o react (System.start store todo) s) :
    s.logger.tickets = s.logger.docket := by
  induction hr with
  | start => rfl
  | step x _ hs ih =>
    obtain ⟨a, c, g, -, hm, rfl⟩ | ⟨g, -, hm, rfl⟩ | ⟨c, g, -, hm, rfl⟩ := step_cases hs
    · obtain ⟨ts, ht, hd⟩ := hm.docket
      exact (ht.trans (by rw [ih])).trans hd.symm
    · exact (hm.bystands.tickets fun _ => Event.not_isCallers_of_isWorkers).trans
        (ih.trans hm.docket.symm)
    · exact (hm.bystands.1.tickets fun _ => Event.not_isCallers_of_isDispatchers).trans
        (ih.trans hm.docket.symm)

end System
end Logging
end CheckedLock
