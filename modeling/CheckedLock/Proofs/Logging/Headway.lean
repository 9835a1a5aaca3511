import CheckedLock.Proofs.Logging.Acceptance
import CheckedLock.Proofs.Logging.Account

/-! What a run does not take back. Commands that have been handled stay handled, calls that have
returned have returned, and the messages of such calls are in the queue unless it was closed. -/
namespace CheckedLock
namespace Logging

variable {τ κ σ : Type} {o : Outlet τ σ}

/-- The call with this number is over. -/
def Caller.HasReturned (c : Caller τ κ) (k : Nat) : Prop :=
  k < c.serial ∨ (k = c.serial ∧ c.place = .idle)

namespace Desk

/-- The first commands were handled before the others. -/
theorem HandlesAll.of_append {d d' : Desk κ} {cs cs' : List (Command τ κ)}
    {xs : List (Outcome τ κ)} (h : HandlesAll o d (cs ++ cs') xs d') :
    ∃ ys zs e, HandlesAll o d cs ys e ∧ xs = ys ++ zs := by
  generalize he : cs ++ cs' = all at h
  induction h generalizing cs' with
  | none =>
    obtain ⟨rfl, rfl⟩ := List.append_eq_nil_iff.mp he
    exact ⟨[], [], d, .none, rfl⟩
  | @next cs₀ xs e c ys e' hs hc ih =>
    obtain rfl | ⟨l, x, rfl⟩ := List.eq_nil_or_concat' cs'
    · rw [List.append_nil] at he
      subst he
      exact ⟨xs ++ ys, [], e', .next hs hc, (List.append_nil _).symm⟩
    · rw [← List.append_assoc] at he
      obtain ⟨us, vs, e₀, hu, rfl⟩ := ih (List.append_inj_left' he rfl)
      exact ⟨us, vs ++ ys, e₀, hu, List.append_assoc _ _ _⟩

/-- What becomes of a message: a sink has it, or its failure is reported. -/
def Accounts (o : Outlet τ σ) (r : Record τ) (xs : List (Outcome τ κ)) : Prop :=
  ∃ s, .wrote s r ∈ xs ∨ (.refused s r ∈ xs ∧ ∃ x text, o.write x s r = .error text ∧
    (.printed (Logger.workerError text) ∈ xs ∨ ∃ h, .posted h (Logger.workerError text) ∈ xs))

theorem Accounts.mono {r : Record τ} {xs ys : List (Outcome τ κ)} (h : Accounts o r xs)
    (hs : xs ⊆ ys) : Accounts o r ys := by
  obtain ⟨s, hw | ⟨hr, x, text, he, hrep⟩⟩ := h
  · exact ⟨s, .inl (hs hw)⟩
  · exact ⟨s, .inr ⟨hs hr, x, text, he, hrep.imp (@hs _) fun ⟨h, hh⟩ => ⟨h, hs hh⟩⟩⟩

theorem Handles.accounts {d d' : Desk κ} {r : Record τ} {ys : List (Outcome τ κ)}
    (h : Handles o d (.write r) ys d') : Accounts o r ys := by
  cases h with
  | wrote hw => exact ⟨d.sink, .inl (List.mem_singleton.mpr rfl)⟩
  | @refused r x text hw =>
    refine ⟨d.sink, .inr ⟨List.mem_cons_self, x, text, hw, ?_⟩⟩
    unfold report
    cases d.handler with
    | none => exact .inl (by simp)
    | some k => exact .inr ⟨k, by simp⟩

theorem HandlesAll.accounts {d d' : Desk κ} {r : Record τ} {cs : List (Command τ κ)}
    {xs : List (Outcome τ κ)} (h : HandlesAll o d cs xs d') (hr : .write r ∈ cs) :
    Accounts o r xs := by
  induction h with
  | none => cases hr
  | next hs h ih =>
    obtain hr | hr := List.mem_append.mp hr
    · exact (ih hr).mono (List.subset_append_left _ _)
    · obtain rfl := List.mem_singleton.mp hr
      exact h.accounts.mono (List.subset_append_right _ _)

end Desk

namespace Logger

variable {g g' g'' : Logger τ κ σ} {cs : List (Command τ κ)}

/-- A report has been printed, or given to a handler, or it waits for the handler to be called. -/
def Reported (g : Logger τ κ σ) (message : String) : Prop :=
  .printed message ∈ g.journal ∨ ∃ h, (h, message) ∈ g.invocations ++ g.posts

/-- A message has been given to a sink; if it was not written, that has been reported. -/
def Disposed (o : Outlet τ σ) (g : Logger τ κ σ) (r : Record τ) : Prop :=
  ∃ s, .wrote s r ∈ g.journal ∨ (.refused s r ∈ g.journal ∧
    ∃ x text, o.write x s r = .error text ∧ g.Reported (workerError text))

/-- The queue began with these commands, and all that they come to has been done: lines written,
and reports printed or posted, in this order. -/
def Handled (o : Outlet τ σ) (g : Logger τ κ σ) (cs : List (Command τ κ)) : Prop :=
  cs <+: g.queued ∧ ∃ xs d, Desk.HandlesAll o {} cs xs d ∧
    xs.filterMap Outcome.line? <+: g.told Event.line? ∧
    xs.filterMap Outcome.post? <+: g.invocations ++ g.posts

theorem mem_journal_of_line {x : Outcome τ κ} {e : Event τ κ}
    (he : ∀ e', e'.line? = some x → e' = e) (hx : x ∈ g.told Event.line?) : e ∈ g.journal := by
  obtain ⟨e', he', hl⟩ := List.mem_filterMap.mp (List.mem_reverse.mp hx)
  exact he e' hl ▸ he'

theorem Handled.disposed (h : g.Handled o cs) {r : Record τ} (hr : .write r ∈ cs) :
    g.Disposed o r := by
  obtain ⟨-, xs, d, hall, hlines, hposts⟩ := h
  have line : ∀ {x : Outcome τ κ}, x.line? = some x → x ∈ xs → x ∈ g.told Event.line? :=
    fun hx hm => hlines.subset (List.mem_filterMap.mpr ⟨_, hm, hx⟩)
  have single : ∀ {e : Event τ κ} {x : Outcome τ κ}, e.line? = some x →
      ∀ e', e'.line? = some x → e' = e := by
    intro e x he e' he'
    rw [← he] at he'
    cases e <;> cases e' <;> cases he <;> cases he' <;> rfl
  obtain ⟨s, hw | ⟨hf, x, text, he, hrep⟩⟩ := hall.accounts hr
  · exact ⟨s, .inl (mem_journal_of_line (single rfl) (line rfl hw))⟩
  · refine ⟨s, .inr ⟨mem_journal_of_line (single rfl) (line rfl hf), x, text, he, ?_⟩⟩
    obtain hp | ⟨k, hk⟩ := hrep
    · exact .inl (mem_journal_of_line (single rfl) (line rfl hp))
    · exact .inr ⟨k, hposts.subset (List.mem_filterMap.mpr ⟨_, hk, rfl⟩)⟩

theorem Handled.of_prefix {cs' : List (Command τ κ)} (h : g.Handled o cs) (hp : cs' <+: cs) :
    g.Handled o cs' := by
  obtain ⟨rest, rfl⟩ := hp
  obtain ⟨hq, xs, d, hall, hlines, hposts⟩ := h
  obtain ⟨ys, zs, e, hys, rfl⟩ := hall.of_append
  rw [List.filterMap_append] at hlines hposts
  exact ⟨(List.prefix_append _ _).trans hq, ys, e, hys, (List.prefix_append _ _).trans hlines,
    (List.prefix_append _ _).trans hposts⟩

/-- The worker is through with these commands, and it has no report to make. -/
theorem Account.handled_done {done : List (Command τ κ)} {xs last : List (Outcome τ κ)}
    (h : Account o g done xs last) (hdue : g.due = []) : g.Handled o done := by
  have hlines := h.worked
  have hposts := h.posted
  rw [Logger.worked, hdue, List.filterMap_append] at hlines
  rw [Logger.posted, hdue, List.filterMap_append] at hposts
  simp only [List.filterMap_nil, List.append_nil] at hlines hposts
  exact ⟨h.queued ▸ List.prefix_append _ _, xs, g.desk, h.handled,
    hlines ▸ List.prefix_append _ _, hposts ▸ List.prefix_append _ _⟩

/-- What no step undoes. -/
structure Extends (g g' : Logger τ κ σ) : Prop where
  queued : g.queued <+: g'.queued
  lines : g.told Event.line? <+: g'.told Event.line?
  posted : g.invocations ++ g.posts <+: g'.invocations ++ g'.posts
  honoured : g.honoured ⊆ g'.honoured
  requested : g.requested = true → g'.requested = true
  completed : g.completed = true → g'.completed = true

theorem Extends.refl (g : Logger τ κ σ) : Extends g g :=
  ⟨List.prefix_rfl, List.prefix_rfl, List.prefix_rfl, List.Subset.refl _, id, id⟩

theorem Extends.trans (h : Extends g g') (h' : Extends g' g'') : Extends g g'' :=
  ⟨h.queued.trans h'.queued, h.lines.trans h'.lines, h.posted.trans h'.posted,
    List.Subset.trans h.honoured h'.honoured, h'.requested ∘ h.requested,
    h'.completed ∘ h.completed⟩

theorem Handled.extends (h : g.Handled o cs) (he : Extends g g') : g'.Handled o cs := by
  obtain ⟨hq, xs, d, hall, hlines, hposts⟩ := h
  exact ⟨hq.trans he.queued, xs, d, hall, hlines.trans he.lines, hposts.trans he.posted⟩

variable {a : Agent τ} {c c' : Caller τ κ}

theorem Adds.told_prefix {α : Type} {es : List (Event τ κ)} (h : Adds g g' es)
    (f : Event τ κ → Option α) : g.told f <+: g'.told f :=
  h.told f ▸ List.prefix_append _ _

theorem serial_begin {call : Call κ} (h : begin o a c g call = (c', g')) :
    c'.serial = c.serial := by
  have : (begin o a c g call).1.serial = c.serial := by
    cases call <;> simp only [begin] <;> (try split) <;> rfl
  rwa [h] at this

theorem begin_frame {call : Call κ} (h : begin o a c g call = (c', g')) :
    g'.honoured = g.honoured ∧ g'.completed = g.completed := by
  have : (begin o a c g call).2.honoured = g.honoured ∧
      (begin o a c g call).2.completed = g.completed := by
    constructor <;> cases call <;> simp only [begin] <;> (try split) <;> rfl
  rwa [h] at this

theorem CallerMoves.extends (h : CallerMoves o a c g c' g') :
    Extends g g' ∧ g'.honoured = g.honoured := by
  obtain ⟨es, hc⟩ := h.carries
  have hinvoked : g'.invocations = g.invocations :=
    hc.adds.told_eq fun e he => Event.invoked?_of_isCallers (hc.callers e he)
  have hframe : g'.honoured = g.honoured ∧ (g.completed = true → g'.completed = true) := by
    cases h with
    | calls hp ht hb => exact (begin_frame hb).imp_right fun h hg => h.trans hg
    | @refuses cmd hp hq _ _ he =>
      obtain ⟨-, -, ⟨ticket, -, rfl⟩ | rfl⟩ := pushed_cases he <;> cases cmd <;> exact ⟨rfl, id⟩
    | notifies hp he =>
      have hw : g.wake.honoured = g.honoured ∧ g.wake.completed = g.completed := by
        unfold wake
        split <;> exact ⟨rfl, rfl⟩
      obtain ⟨-, -, ⟨ticket, -, rfl⟩ | rfl⟩ := pushed_cases he <;>
        exact hw.imp_right fun h hg => h.trans hg
    | wakes =>
      unfold wake
      split <;> exact ⟨rfl, id⟩
    | wakesDispatcher =>
      unfold wakeDispatcher
      split <;> exact ⟨rfl, id⟩
    | completes => exact ⟨rfl, fun _ => rfl⟩
    | _ => exact ⟨rfl, id⟩
  refine ⟨⟨?_, ?_, ?_, ?_, hc.requested, hframe.2⟩, hframe.1⟩
  · exact hc.adds.told_prefix _
  · exact hc.adds.told_prefix _
  · have hposted : g'.invocations ++ g'.posts = g.invocations ++ g.posts := by
      rw [hinvoked, h.spares.posts]
    exact hposted ▸ List.prefix_rfl
  · exact hframe.1 ▸ List.Subset.refl _

/-- The worker takes back no report and no ticket, and gives out none. -/
structure Forward (g g' : Logger τ κ σ) : Prop where
  posts : g.posts <+: g'.posts
  honoured : g.honoured ⊆ g'.honoured
  nextTicket : g'.nextTicket = g.nextTicket

theorem Forward.of_eq (hp : g'.posts = g.posts) (hh : g'.honoured = g.honoured)
    (hn : g'.nextTicket = g.nextTicket) : Forward g g' :=
  ⟨hp ▸ List.prefix_rfl, hh ▸ List.Subset.refl _, hn⟩

theorem put_frame (r : Record τ) (rest : List (Command τ κ)) :
    (g.put o r rest).posts = g.posts ∧ (g.put o r rest).honoured = g.honoured ∧
      (g.put o r rest).nextTicket = g.nextTicket := by
  obtain ⟨store, -, h⟩ | ⟨text, -, h⟩ := put_cases o g r rest <;> rw [h] <;> exact ⟨rfl, rfl, rfl⟩

theorem handle_forward (cmd : Command τ κ) (rest : List (Command τ κ)) :
    Forward g (g.handle o rest cmd) := by
  cases cmd with
  | write r =>
    obtain ⟨hp, hh, hn⟩ := put_frame (o := o) (g := g) r rest
    exact .of_eq hp hh hn
  | select s =>
    simp only [handle]
    split
    case h_1 => exact .of_eq rfl rfl rfl
    case h_2 store _ =>
      obtain ⟨hp, hh, hn⟩ :=
        put_frame (o := o) (g := { g with store := store, sink := s }) (.switched g.sink) rest
      exact .of_eq hp hh hn
  | flush ticket =>
    simp only [handle]
    split
    · exact .of_eq rfl rfl rfl
    · exact ⟨List.prefix_rfl, List.subset_cons_self _ _, rfl⟩
  | openFailed message | onError h => exact .of_eq rfl rfl rfl

@[simp] theorem reported_honoured (r : Report τ κ) :
    (g.reported r).honoured = r.ticket.toList ++ g.honoured := by
  cases ht : r.ticket <;> simp [reported, proceed, honour, ht]

@[simp] theorem reported_nextTicket (r : Report τ κ) :
    (g.reported r).nextTicket = g.nextTicket := by
  cases ht : r.ticket <;> simp [reported, proceed, honour, ht]

theorem forward_reported {r : Report τ κ} (hp : g'.posts = g.posts)
    (hh : g'.honoured = g.honoured) (hn : g'.nextTicket = g.nextTicket) :
    Forward g (g'.reported r) where
  posts := by simp [hp]
  honoured := by simp [hh]
  nextTicket := by simp [hn]

theorem WorkerMoves.forward (h : WorkerMoves o g g') : Forward g g' := by
  cases h with
  | handles => exact handle_forward _ _
  | prints | drops => exact forward_reported rfl rfl rfl
  | alerts => refine forward_reported ?_ ?_ ?_ <;> unfold wakeDispatcher <;> split <;> rfl
  | posts => exact ⟨List.prefix_append _ _, List.Subset.refl _, rfl⟩
  | _ => exact .of_eq rfl rfl rfl

theorem WorkerMoves.extends (h : WorkerMoves o g g') : Extends g g' := by
  obtain ⟨es, hadds, hes⟩ := h.bystands.adds
  have hinvoked : g'.invocations = g.invocations := hadds.told_eq fun e he => by
    have hw := hes e he
    cases e <;> first | rfl | cases hw
  refine ⟨hadds.told_prefix _, hadds.told_prefix _, ?_, h.forward.honoured,
    h.bystands.requested.trans, h.works.1.completed.trans⟩
  rw [hinvoked]
  exact (List.prefix_append_right_inj _).mpr h.forward.posts

/-- The report that the dispatcher takes counts as posted still. -/
theorem DispatcherMoves.extends {react : κ → String → Reaction κ}
    (h : DispatcherMoves react c g c' g') : Extends g g' := by
  obtain ⟨es, hadds, -⟩ := h.bystands.1.adds
  refine ⟨hadds.told_prefix _, hadds.told_prefix _, ?_, ?_, h.bystands.1.requested.trans,
    h.serves.1.completed.trans⟩
  · cases h with
    | invokes hp he =>
      rw [he, invocations, invocations, told_note]
      simp [Event.invoked?, told, note]
    | throws =>
      rw [invocations, invocations, told_note]
      simp [Event.invoked?, told, note]
    | _ => exact List.prefix_rfl
  · cases h <;> exact List.Subset.refl _

end Logger

namespace System

variable [DecidableEq τ] {react : κ → String → Reaction κ} {s s' : System τ κ σ} {a : Agent τ}

theorem step_extends {x : Actor τ} (h : s.step o react x = some s') :
    s.logger.Extends s'.logger := by
  obtain ⟨a, c, g, -, hm, rfl⟩ | ⟨g, -, hm, rfl⟩ | ⟨c, g, -, hm, rfl⟩ := step_cases h
  · exact hm.extends.1
  · exact hm.extends
  · exact hm.extends

theorem Reachable.trans {s₀ : System τ κ σ} (h : Reachable o react s₀ s)
    (h' : Reachable o react s s') : Reachable o react s₀ s' := by
  induction h' with
  | start => exact h
  | step x _ hs ih => exact ih.step x hs

theorem Reachable.preserves {p : System τ κ σ → Prop}
    (hp : ∀ {u u' x}, p u → u.step o react x = some u' → p u') (h : Reachable o react s s')
    (hs : p s) : p s' := by
  induction h with
  | start => exact hs
  | step x _ hstep ih => exact hp ih hstep

theorem Reachable.extends (h : Reachable o react s s') : s.logger.Extends s'.logger := by
  induction h with
  | start => exact .refl _
  | step x _ hs ih => exact ih.trans (step_extends hs)

/-- A thread takes a step of its calls, or stays where it is in them. -/
theorem step_view {x : Actor τ} (h : s.step o react x = some s') (a : Agent τ) :
    Logger.CallerMoves o a (s.callers a) s.logger (s'.callers a) s'.logger ∨
      ((s'.callers a).place = (s.callers a).place ∧
        (s'.callers a).serial = (s.callers a).serial) := by
  obtain ⟨b, c, g, -, hm, rfl⟩ | ⟨g, -, hm, rfl⟩ | ⟨c, g, -, hm, rfl⟩ := step_cases h
  · by_cases hb : a = b
    · subst hb
      exact .inl (by simpa using hm)
    · exact .inr (by simp [setCaller_ne s c hb])
  · exact .inr ⟨rfl, rfl⟩
  · obtain ⟨-, hp, hn⟩ := hm.bystands
    by_cases ha : a = .dispatcher <;> simp [setCaller, ha, hp, hn]

/-- Thread `a` begins a call. -/
structure Begins (o : Outlet τ σ) (react : κ → String → Reaction κ) (s : System τ κ σ)
    (a : Agent τ) (call : Call κ) (s' : System τ κ σ) : Prop where
  idle : (s.callers a).place = .idle
  next : ∃ rest, (s.callers a).todo = call :: rest
  step : s.step o react (.caller a) = some s'

theorem Begins.eq {call : Call κ} (h : s.Begins o react a call s') : ∃ rest c g,
    Logger.begin o a { s.callers a with todo := rest, serial := (s.callers a).serial + 1 }
      (s.logger.note (.called a call)) call = (c, g) ∧
    s' = { s.setCaller a c with logger := g } := by
  obtain ⟨rest, ht⟩ := h.next
  obtain ⟨⟨c, g⟩, hs, rfl⟩ := Option.map_eq_some_iff.mp h.step
  simp only [Logger.callerStep, h.idle, ht, Option.some.injEq] at hs
  exact ⟨rest, c, g, hs, rfl⟩

end System

namespace Logger

variable {g g' : Logger τ κ σ} {a : Agent τ} {c c' : Caller τ κ}

/-- A thread that has finished a call can only begin the next one. -/
theorem CallerMoves.next_of_idle (h : CallerMoves o a c g c' g') (hp : c.place = .idle) :
    c'.serial = c.serial + 1 := by
  cases h with
  | calls _ _ hb => exact serial_begin hb
  | refuses hp' | returns hp' => simp [hp] at hp'
  | looks hp' | pushes hp' | notifies hp' | waits hp' | claims hp' | wakes hp' | joins hp'
    | skipsDispatcher hp' | claimsDispatcher hp' | wakesDispatcher hp' | joinsDispatcher hp'
    | completes hp' =>
    rw [hp] at hp'
    cases hp'

theorem CallerMoves.serial_eq (h : CallerMoves o a c g c' g') (hp : c.place ≠ .idle) :
    c'.serial = c.serial := by
  cases h with
  | calls hp' => exact absurd hp' hp
  | refuses _ _ he | notifies _ he => exact (pushed_cases he).1
  | _ => rfl

theorem CallerMoves.hasReturned (h : CallerMoves o a c g c' g') {k : Nat}
    (hk : c.HasReturned k) : c'.HasReturned k := by
  obtain ⟨es, hc⟩ := h.carries
  obtain hk | ⟨rfl, hidle⟩ := hk
  · exact .inl (Nat.lt_of_lt_of_le hk hc.serial_le)
  · exact .inl (h.next_of_idle hidle ▸ Nat.lt_succ_self _)

/-- What a thread holds is of the call it is in. -/
theorem CallerMoves.held_serial (h : CallerMoves o a c g c' g')
    (hc : ∀ r ∈ c.place.held, r.serial = c.serial) : ∀ r ∈ c'.place.held, r.serial = c'.serial := by
  obtain ⟨es, hcarries⟩ := h.carries
  intro r hr
  have hold : r ∈ c.place.held ++ es.filterMap Event.admitted? := by
    rw [hcarries.conserved]
    exact List.mem_append_right _ hr
  obtain hold | hnew := List.mem_append.mp hold
  · have hp : c.place ≠ .idle := by
      intro hp
      rw [hp] at hold
      cases hold
    rw [hc r hold, h.serial_eq hp]
  · exact (hcarries.serial r hnew).2

end Logger

namespace System

variable [DecidableEq τ] {react : κ → String → Reaction κ} {s s' : System τ κ σ} {a : Agent τ}

theorem Reachable.hasReturned (h : Reachable o react s s') {k : Nat}
    (hk : (s.callers a).HasReturned k) : (s'.callers a).HasReturned k := by
  refine h.preserves (p := fun u => (u.callers a).HasReturned k) (fun hk hs => ?_) hk
  obtain hm | ⟨hp, hn⟩ := step_view hs a
  · exact hm.hasReturned hk
  · simpa only [Caller.HasReturned, hp, hn] using hk

theorem Reachable.held_serial {store : σ} {todo : τ → List (Call κ)}
    (hr : Reachable o react (System.start store todo) s) (a : Agent τ) :
    ∀ r ∈ (s.callers a).place.held, r.serial = (s.callers a).serial := by
  induction hr with
  | start => cases a <;> exact nofun
  | step x _ hs ih =>
    obtain hm | ⟨hp, hn⟩ := step_view hs a
    · exact hm.held_serial ih
    · rwa [hp, hn]

/-- As long as the queue is open, the messages of calls that have returned are in it. -/
theorem Reachable.queued_of_returned {store : σ} {todo : τ → List (Call κ)}
    (hr : Reachable o react (System.start store todo) s) (hopen : s.logger.requested = false)
    {r : Record τ} (hadm : r ∈ s.logger.admitted) (ha : r.author = .agent a)
    (hret : (s.callers a).HasReturned r.serial) : .write r ∈ s.logger.queued := by
  have hacc := hr.accepting
  have hmine : r ∈ s.logger.accepted.filter (Record.isBy a) ++ (s.callers a).place.held := by
    rw [hacc.conserved a]
    exact List.mem_filter.mpr ⟨hadm, Record.isBy_iff.mpr ha⟩
  obtain hmine | hheld := List.mem_append.mp hmine
  · have hsplit := (List.mem_filter.mp hmine).1
    rw [hacc.split, hacc.closed hopen, List.append_nil] at hsplit
    obtain ⟨cmd, hcmd, hrec⟩ := List.mem_filterMap.mp hsplit
    cases cmd <;> cases hrec
    exact hcmd
  · have hserial := hr.held_serial a r hheld
    obtain hlt | ⟨-, hidle⟩ := hret
    · exact absurd hserial (Nat.ne_of_lt hlt)
    · rw [hidle] at hheld
      cases hheld

end System
end Logging
end CheckedLock
