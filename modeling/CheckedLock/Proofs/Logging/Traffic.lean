import CheckedLock.Proofs.Logging.Step

/-! What the steps put into the journal. Callers carry messages from the level check to the queue or
to the error stream, and lose none on the way; the worker and the dispatcher leave that part of the
journal alone. -/
namespace CheckedLock
namespace Logging

variable {τ κ σ : Type}

/-- The message a thread has in its hands inside a call. -/
def Place.held : Place τ κ → List (Record τ)
  | .checking c | .pushing c => c.record?.toList
  | _ => []

namespace Event

/-- Callers write of their own calls only. -/
def isCallers : Event τ κ → Bool
  | .called _ _ | .returned _ | .admitted _ | .queued _ | .fallback _ => true
  | _ => false

/-- The worker writes of messages and of the reports that it prints. -/
def isWorkers : Event τ κ → Bool
  | .wrote _ _ | .refused _ _ | .printed _ => true
  | _ => false

/-- The dispatcher writes of handlers. -/
def isDispatchers : Event τ κ → Bool
  | .invoked _ _ | .threw _ => true
  | _ => false

/-- Where a call begins and ends. -/
def isMark : Event τ κ → Bool
  | .called _ _ | .returned _ => true
  | _ => false

variable {e : Event τ κ}

theorem isCallers_of_isMark (h : e.isMark = true) : e.isCallers = true := by
  cases e <;> first | rfl | cases h

theorem messages_of_isMark (h : e.isMark = true) :
    e.admitted? = none ∧ e.queued? = none ∧ e.accepted? = none ∧ e.fallback? = none := by
  cases e <;> first | exact ⟨rfl, rfl, rfl, rfl⟩ | cases h

theorem not_isCallers_of_isWorkers (h : e.isWorkers = true) : e.isCallers = false := by
  cases e <;> first | rfl | cases h

theorem not_isCallers_of_isDispatchers (h : e.isDispatchers = true) : e.isCallers = false := by
  cases e <;> first | rfl | cases h

theorem line?_of_isCallers (h : e.isCallers = true) : e.line? = none := by
  cases e <;> first | rfl | cases h

theorem invoked?_of_isCallers (h : e.isCallers = true) : e.invoked? = none := by
  cases e <;> first | rfl | cases h

theorem admitted?_of_not_isCallers (h : e.isCallers = false) : e.admitted? = none := by
  cases e <;> first | rfl | cases h

theorem queued?_of_not_isCallers (h : e.isCallers = false) : e.queued? = none := by
  cases e <;> first | rfl | cases h

theorem fallback?_of_not_isCallers (h : e.isCallers = false) : e.fallback? = none := by
  cases e <;> first | rfl | cases h

theorem accepted?_of_not_isCallers (h : e.isCallers = false) : e.accepted? = none := by
  cases e <;> first | rfl | cases h

end Event

namespace Logger

variable {o : Outlet τ σ} {g g' : Logger τ κ σ} {a : Agent τ} {c c' : Caller τ κ}
  {es : List (Event τ κ)} {α : Type} {f : Event τ κ → Option α}

/-- `es` happened between the two, in this order. -/
def Adds (g g' : Logger τ κ σ) (es : List (Event τ κ)) : Prop :=
  g'.journal = es.reverse ++ g.journal

theorem Adds.told (h : Adds g g' es) (f : Event τ κ → Option α) :
    g'.told f = g.told f ++ es.filterMap f := by
  rw [Logger.told, h]
  simp [Logger.told, List.filterMap_reverse]

theorem Adds.told_eq (h : Adds g g' es) (hf : ∀ e ∈ es, f e = none) : g'.told f = g.told f := by
  rw [h.told f, List.filterMap_eq_nil_iff.mpr hf, List.append_nil]

@[simp] theorem wake_journal : g.wake.journal = g.journal := by
  unfold wake
  split <;> rfl

@[simp] theorem wake_queue : g.wake.queue = g.queue := by
  unfold wake
  split <;> rfl

@[simp] theorem wake_requested : g.wake.requested = g.requested := by
  unfold wake
  split <;> rfl

@[simp] theorem wakeDispatcher_journal : g.wakeDispatcher.journal = g.journal := by
  unfold wakeDispatcher
  split <;> rfl

@[simp] theorem wakeDispatcher_queue : g.wakeDispatcher.queue = g.queue := by
  unfold wakeDispatcher
  split <;> rfl

@[simp] theorem wakeDispatcher_requested : g.wakeDispatcher.requested = g.requested := by
  unfold wakeDispatcher
  split <;> rfl

@[simp] theorem honour_journal (t : Option Nat) : (g.honour t).journal = g.journal := by
  cases t <;> rfl

@[simp] theorem honour_requested (t : Option Nat) : (g.honour t).requested = g.requested := by
  cases t <;> rfl

@[simp] theorem reported_journal (r : Report τ κ) : (g.reported r).journal = g.journal := by
  simp [reported, proceed]

@[simp] theorem reported_requested (r : Report τ κ) : (g.reported r).requested = g.requested := by
  simp [reported, proceed]

/-- A step of a call by `a`, as far as messages go: what it held and what got past the level is
accepted or still held. -/
structure Carries (a : Agent τ) (c : Caller τ κ) (g : Logger τ κ σ) (c' : Caller τ κ)
    (g' : Logger τ κ σ) (es : List (Event τ κ)) : Prop where
  adds : Adds g g' es
  callers : ∀ e ∈ es, e.isCallers = true
  queue : g'.queue = g.queue ++ es.filterMap Event.queued?
  conserved : c.place.held ++ es.filterMap Event.admitted? =
    es.filterMap Event.accepted? ++ c'.place.held
  author : ∀ r ∈ es.filterMap Event.admitted?, r.author = .agent a
  serial : ∀ r ∈ es.filterMap Event.admitted?, c.serial < r.serial ∧ r.serial = c'.serial
  single : (es.filterMap Event.admitted?).length ≤ 1
  serial_le : c.serial ≤ c'.serial
  /-- Nothing is printed before the stop request, nothing queued after it. -/
  gate : (g.requested = false ∧ es.filterMap Event.fallback? = []) ∨
    (g.requested = true ∧ es.filterMap Event.queued? = [])
  requested : g.requested = true → g'.requested = true

/-- A step that concerns no message. -/
theorem Carries.quiet (es : List (Event τ κ)) (ha : Adds g g' es) (hes : es.all Event.isMark = true)
    (hq : g'.queue = g.queue) (hc : c'.place.held = c.place.held) (hs : c.serial ≤ c'.serial)
    (hr : g.requested = true → g'.requested = true) : Carries a c g c' g' es := by
  have hmark : ∀ e ∈ es, e.isMark = true := List.all_eq_true.mp hes
  have hnone : es.filterMap Event.admitted? = [] ∧ es.filterMap Event.queued? = [] ∧
      es.filterMap Event.accepted? = [] ∧ es.filterMap Event.fallback? = [] := by
    refine ⟨?_, ?_, ?_, ?_⟩ <;>
      exact List.filterMap_eq_nil_iff.mpr fun e he => by
        simp [Event.messages_of_isMark (hmark e he)]
  obtain ⟨h₁, h₂, h₃, h₄⟩ := hnone
  exact {
    adds := ha
    callers := fun e he => Event.isCallers_of_isMark (hmark e he)
    queue := by rw [hq, h₂, List.append_nil]
    conserved := by rw [h₁, h₃, hc, List.append_nil, List.nil_append]
    author := by simp [h₁]
    serial := by simp [h₁]
    single := by simp [h₁]
    serial_le := hs
    gate := by cases hg : g.requested <;> simp [h₂, h₄]
    requested := hr }

/-- The beginning of a call. -/
theorem carries_begin {call : Call κ} {rest : List (Call κ)} (hp : c.place = .idle)
    (h : begin o a { c with todo := rest, serial := c.serial + 1 } (g.note (.called a call)) call
      = (c', g')) : ∃ es, Carries a c g c' g' es := by
  have hheld : c.place.held = [] := by rw [hp]; rfl
  cases call with
  | setLevel l =>
    cases h
    exact ⟨[.called a (.setLevel l), .returned a],
      .quiet _ rfl rfl rfl hheld.symm (Nat.le_succ _) id⟩
  | log l body =>
    simp only [begin] at h
    split at h
    case isTrue hl =>
      cases h
      let r : Record τ := ⟨.agent a, c.serial + 1, l, body⟩
      exact ⟨[.called a (.log l body), .admitted r], {
        adds := rfl
        callers := by simp [Event.isCallers]
        queue := (List.append_nil _).symm
        conserved := by rw [hheld]; rfl
        author := by simp [List.filterMap_cons, Event.admitted?, r]
        serial := by simp [List.filterMap_cons, Event.admitted?, r]
        single := Nat.le_refl 1
        serial_le := Nat.le_succ _
        gate := by
          cases hg : g.requested <;> simp [List.filterMap_cons, Event.queued?, Event.fallback?]
        requested := id }⟩
    case isFalse hl =>
      cases h
      exact ⟨[.called a (.log l body), .returned a],
        .quiet _ rfl rfl rfl hheld.symm (Nat.le_succ _) id⟩
  | logfile path exclusive =>
    simp only [begin] at h
    split at h <;> cases h <;>
      exact ⟨[.called a (.logfile path exclusive)],
        .quiet _ rfl rfl rfl hheld.symm (Nat.le_succ _) id⟩
  | console =>
    cases h
    exact ⟨[.called a .console], .quiet _ rfl rfl rfl hheld.symm (Nat.le_succ _) id⟩
  | onError k =>
    cases h
    exact ⟨[.called a (.onError k)], .quiet _ rfl rfl rfl hheld.symm (Nat.le_succ _) id⟩
  | flush =>
    simp only [begin] at h
    split at h
    case isTrue =>
      cases h
      exact ⟨[.called a .flush, .returned a],
        .quiet _ rfl rfl rfl hheld.symm (Nat.le_succ _) id⟩
    case isFalse =>
      cases h
      exact ⟨[.called a .flush], .quiet _ rfl rfl rfl hheld.symm (Nat.le_succ _) id⟩
  | shutdown =>
    simp only [begin] at h
    split at h
    case isTrue =>
      cases h
      exact ⟨[.called a .shutdown, .returned a],
        .quiet _ rfl rfl rfl hheld.symm (Nat.le_succ _) id⟩
    case isFalse =>
      cases h
      exact ⟨[.called a .shutdown], .quiet _ rfl rfl rfl hheld.symm (Nat.le_succ _) id⟩

/-- A call that is through with the queue says so, unless it is a flush. -/
theorem pushed_cases {cmd : Command τ κ} (h : pushed a cmd c g = (c', g')) :
    c'.serial = c.serial ∧ c'.place.held = [] ∧
      ((∃ ticket, cmd = .flush ticket ∧ g' = g) ∨ g' = g.note (.returned a)) := by
  cases cmd with
  | flush ticket =>
    cases h
    exact ⟨rfl, rfl, .inl ⟨ticket, rfl, rfl⟩⟩
  | _ =>
    cases h
    exact ⟨rfl, rfl, .inr rfl⟩

/-- A call takes nothing else from the list. -/
theorem todo_begin {call : Call κ} (h : begin o a c g call = (c', g')) : c'.todo = c.todo := by
  have : (begin o a c g call).1.todo = c.todo := by
    cases call <;> simp only [begin] <;> (try split) <;> rfl
  rwa [h] at this

theorem todo_pushed {cmd : Command τ κ} (h : pushed a cmd c g = (c', g')) : c'.todo = c.todo := by
  cases cmd <;> cases h <;> rfl

theorem CallerMoves.carries (h : CallerMoves o a c g c' g') : ∃ es, Carries a c g c' g' es := by
  cases h with
  | calls hp ht hb => exact carries_begin hp hb
  | looks hp hq => exact ⟨[], .quiet _ rfl rfl rfl (by rw [hp]; rfl) (Nat.le_refl _) id⟩
  | @refuses cmd hp hq _ _ he =>
    have hheld : c.place.held = cmd.record?.toList := by
      rcases hp with hp | hp <;> rw [hp] <;> rfl
    obtain ⟨hs, hc', hg⟩ := pushed_cases he
    cases cmd with
    | write r =>
      cases he
      exact ⟨[.fallback r, .returned a], {
        adds := rfl
        callers := by simp [Event.isCallers]
        queue := (List.append_nil _).symm
        conserved := by rw [hheld]; rfl
        author := nofun
        serial := nofun
        single := Nat.zero_le _
        serial_le := Nat.le_refl _
        gate := .inr ⟨hq, rfl⟩
        requested := id }⟩
    | flush ticket =>
      cases he
      exact ⟨[], .quiet _ rfl rfl rfl hheld.symm (Nat.le_refl _) id⟩
    | _ =>
      cases he
      exact ⟨[.returned a], .quiet _ rfl rfl rfl hheld.symm (Nat.le_refl _) id⟩
  | @pushes cmd hp hq hw =>
    have hheld : c.place.held = cmd.record?.toList := by rw [hp]; rfl
    exact ⟨[.queued cmd], {
      adds := rfl
      callers := by simp [Event.isCallers]
      queue := rfl
      conserved := by
        rw [hheld]
        cases cmd <;> rfl
      author := nofun
      serial := nofun
      single := Nat.zero_le _
      serial_le := Nat.le_refl _
      gate := .inl ⟨hq, rfl⟩
      requested := id }⟩
  | @notifies cmd hp _ _ he =>
    have hheld : c.place.held = [] := by rw [hp]; rfl
    obtain ⟨hs, hc', ⟨ticket, -, rfl⟩ | rfl⟩ := pushed_cases he
    · exact ⟨[], .quiet _ wake_journal rfl wake_queue (hc'.trans hheld.symm) (Nat.le_of_eq hs.symm)
        (by simp)⟩
    · refine ⟨[.returned a], .quiet _ ?_ rfl wake_queue (hc'.trans hheld.symm)
        (Nat.le_of_eq hs.symm) ?_⟩
      · simp [Adds, note]
      · simp [note]
  | waits hp hq => exact ⟨[], .quiet _ rfl rfl rfl (by rw [hp]; rfl) (Nat.le_refl _) id⟩
  | returns hp =>
    have hheld : c.place.held = [] := by
      rcases hp with ⟨_, hp, -⟩ | ⟨_, hp, -⟩ | ⟨hp, -⟩ <;> rw [hp] <;> rfl
    exact ⟨[.returned a], .quiet _ rfl rfl rfl hheld.symm (Nat.le_refl _) id⟩
  | claims hp hq => exact ⟨[], .quiet _ rfl rfl rfl (by rw [hp]; rfl) (Nat.le_refl _) fun _ => rfl⟩
  | wakes hp =>
    exact ⟨[], .quiet _ wake_journal rfl wake_queue (by rw [hp]; rfl) (Nat.le_refl _) (by simp)⟩
  | joins hp hw => exact ⟨[], .quiet _ rfl rfl rfl (by rw [hp]; rfl) (Nat.le_refl _) id⟩
  | skipsDispatcher hp hd => exact ⟨[], .quiet _ rfl rfl rfl (by rw [hp]; rfl) (Nat.le_refl _) id⟩
  | claimsDispatcher hp hd => exact ⟨[], .quiet _ rfl rfl rfl (by rw [hp]; rfl) (Nat.le_refl _) id⟩
  | wakesDispatcher hp =>
    exact ⟨[], .quiet _ wakeDispatcher_journal rfl wakeDispatcher_queue (by rw [hp]; rfl)
      (Nat.le_refl _) (by simp)⟩
  | joinsDispatcher hp hd => exact ⟨[], .quiet _ rfl rfl rfl (by rw [hp]; rfl) (Nat.le_refl _) id⟩
  | completes hp =>
    exact ⟨[.returned a], .quiet _ rfl rfl rfl (by rw [hp]; rfl) (Nat.le_refl _) id⟩

/-- A message is written, or it is not and that is to be reported. -/
theorem put_cases (o : Outlet τ σ) (g : Logger τ κ σ) (r : Record τ) (rest : List (Command τ κ)) :
    (∃ store, o.write g.store g.sink r = .ok store ∧
      g.put o r rest = ({ g with store := store, worker := .processing rest }).note
        (.wrote g.sink r)) ∨
    (∃ text, o.write g.store g.sink r = .error text ∧
      g.put o r rest = ({ g with worker := .reporting ⟨workerError text, none, some rest⟩ }).note
        (.refused g.sink r)) := by
  unfold put
  cases h : o.write g.store g.sink r with
  | ok store => exact .inl ⟨store, rfl, rfl⟩
  | error text => exact .inr ⟨text, rfl, rfl⟩

/-- A step of a thread that has no part in the stop request and writes of its own things only. -/
structure Bystands (mine : Event τ κ → Bool) (g g' : Logger τ κ σ) : Prop where
  adds : ∃ es, Adds g g' es ∧ ∀ e ∈ es, mine e = true
  requested : g'.requested = g.requested

variable {mine : Event τ κ → Bool}

theorem Bystands.silent (hj : g'.journal = g.journal) (hr : g'.requested = g.requested) :
    Bystands mine g g' := ⟨⟨[], hj, nofun⟩, hr⟩

theorem Bystands.single (e : Event τ κ) (he : mine e = true)
    (hj : g'.journal = e :: g.journal) (hr : g'.requested = g.requested) : Bystands mine g g' :=
  ⟨⟨[e], hj, by simpa using he⟩, hr⟩

theorem bystands_put (r : Record τ) (rest : List (Command τ κ)) :
    Bystands Event.isWorkers g (g.put o r rest) := by
  obtain ⟨store, -, h⟩ | ⟨text, -, h⟩ := put_cases o g r rest
  · exact .single (.wrote g.sink r) rfl (by rw [h]; rfl) (by rw [h]; rfl)
  · exact .single (.refused g.sink r) rfl (by rw [h]; rfl) (by rw [h]; rfl)

theorem bystands_handle (cmd : Command τ κ) (rest : List (Command τ κ)) :
    Bystands Event.isWorkers g (g.handle o rest cmd) := by
  cases cmd with
  | write r => exact bystands_put r rest
  | select s =>
    simp only [handle]
    split
    case h_1 => exact .silent rfl rfl
    case h_2 store _ =>
      obtain ⟨h, h'⟩ := bystands_put (o := o) (g := { g with store := store, sink := s })
        (.switched g.sink) rest
      exact ⟨h, h'⟩
  | openFailed message => exact .silent rfl rfl
  | flush ticket =>
    simp only [handle]
    split <;> exact .silent rfl rfl
  | onError k => exact .silent rfl rfl

theorem WorkerMoves.bystands (h : WorkerMoves o g g') : Bystands Event.isWorkers g g' := by
  cases h with
  | handles hp => exact bystands_handle _ _
  | @prints r hp hh => exact .single (.printed r.message) rfl (by simp [note]) (by simp [note])
  | drops => exact .silent (by simp) (by simp)
  | alerts => exact .silent (by simp) (by simp)
  | _ => exact .silent rfl rfl

theorem DispatcherMoves.bystands {react : κ → String → Reaction κ}
    (h : DispatcherMoves react c g c' g') :
    Bystands Event.isDispatchers g g' ∧ c'.place = c.place ∧ c'.serial = c.serial := by
  cases h with
  | @invokes k message _ hp he => exact ⟨.single (.invoked k message) rfl rfl rfl, rfl, rfl⟩
  | @throws text hp hc => exact ⟨.single (.threw text) rfl rfl rfl, rfl, rfl⟩
  | _ => exact ⟨.silent rfl rfl, rfl, rfl⟩

end Logger
end Logging
end CheckedLock
