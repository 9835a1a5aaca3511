import CheckedLock.Proofs.Logging.Outlook

/-! One caller cannot tell the queue from a logger that does everything at the call. What has come
out so far, with what the commands under way will come to, is at every moment what the calls so far
come to at once. -/
namespace CheckedLock
namespace Logging

variable {κ σ : Type}

namespace System

variable {o : Outlet Unit σ} {s s' : System Unit κ σ}

/-- The only thread. -/
def caller (s : System Unit κ σ) : Caller Unit κ := s.callers (.thread ())

/-- The handlers do nothing but take the message. -/
def taciturn : κ → String → Reaction κ := fun _ _ => ⟨[], none⟩

/-- Nobody else calls, and nothing but the messages is told. -/
structure Undisturbed (s : System Unit κ σ) : Prop where
  errands : s.callers .dispatcher = Caller.fresh []
  calm : ∀ text, s.logger.dispatcher ≠ .running (some text)
  plain : ∀ e ∈ s.logger.journal, e.isPlain = true

theorem undisturbed_start (store : σ) (todo : Unit → List (Call κ)) :
    (start store todo).Undisturbed where
  errands := rfl
  calm := nofun
  plain := nofun

/-- A caller that is through has no steps. -/
theorem not_callerMoves_fresh {a : Agent Unit} {c : Caller Unit κ} {g g' : Logger Unit κ σ} :
    ¬ Logger.CallerMoves o a (Caller.fresh []) g c g' := by
  intro h
  cases h with
  | calls hp ht => cases ht
  | refuses hp => rcases hp with hp | hp <;> cases hp
  | returns hp => rcases hp with ⟨_, hp, -⟩ | ⟨_, hp, -⟩ | ⟨hp, -⟩ <;> cases hp
  | looks hp | pushes hp | notifies hp | waits hp | claims hp | wakes hp | joins hp
    | skipsDispatcher hp | claimsDispatcher hp | wakesDispatcher hp | joinsDispatcher hp
    | completes hp => cases hp

theorem Undisturbed.step (h : s.Undisturbed) {x : Actor Unit}
    (hs : s.step o taciturn x = some s') : s'.Undisturbed := by
  have hadd : ∀ {g : Logger Unit κ σ} {es : List (Event Unit κ)}, s.logger.Adds g es →
      (∀ e ∈ es, e.isPlain = true) → ∀ e ∈ g.journal, e.isPlain = true := by
    intro g es ha hes e he
    rw [ha] at he
    exact (List.mem_append.mp he).elim (fun he => hes e (List.mem_reverse.mp he)) (h.plain e)
  have hawake : ∀ {p : DispatcherPlace},
      p = s.logger.dispatcher ∨ (s.logger.dispatcher = .asleep ∧ p = .evaluating) →
      ∀ text, p ≠ .running (some text) := by
    rintro p (rfl | ⟨-, rfl⟩)
    · exact h.calm
    · exact nofun
  obtain ⟨a, c, g, -, hm, rfl⟩ | ⟨g, -, hm, rfl⟩ | ⟨c, g, -, hm, rfl⟩ := step_cases hs
  · obtain ⟨es, hc⟩ := hm.carries
    refine ⟨?_, hawake hm.spares.dispatcher, hadd hc.adds fun e he => ?_⟩
    · cases a with
      | thread t =>
        exact (setCaller_ne s (a := .thread t) (b := .dispatcher) c nofun).trans h.errands
      | dispatcher =>
        rw [h.errands] at hm
        exact absurd hm not_callerMoves_fresh
    · have := hc.callers e he
      cases e <;> first | rfl | cases this
  · obtain ⟨es, ha, hes⟩ := hm.bystands.adds
    refine ⟨h.errands, hawake hm.works.1.dispatcher, hadd ha fun e he => ?_⟩
    have := hes e he
    cases e <;> first | rfl | cases this
  · rw [h.errands] at hm
    have hself : ∀ c, (s.setCaller .dispatcher c).callers .dispatcher = c := setCaller_self s _
    cases hm with
    | exits => exact ⟨hself _, nofun, h.plain⟩
    | dozes => exact ⟨hself _, nofun, h.plain⟩
    | sleeps => exact ⟨hself _, nofun, h.plain⟩
    | @invokes k message rest =>
      have ha : s.logger.Adds (({ s.logger with posts := rest, dispatcher := .running none }).note
          (.invoked k message)) [.invoked k message] := rfl
      exact ⟨hself _, nofun, hadd ha (by simp [Event.isPlain])⟩
    | ends => exact ⟨hself _, nofun, h.plain⟩
    | throws hp => exact absurd hp (h.calm _)

/-- After the request, a caller that is not shutting down finds everything done. -/
theorem Closing.done {n : Nat} (hn : s.Closing n) (hu : s.Undisturbed)
    (hr : s.logger.requested = true) (hp : s.caller.place.stage = 0) :
    s.logger.completed = true ∧ s.logger.worker = .exited ∧ s.logger.queue = [] := by
  have h₁ : 1 ≤ n := by simpa [hn.requested] using hr
  have h₇ : n = 7 := by
    by_contra hne
    obtain ⟨a, ha⟩ := hn.closer h₁ (by have := hn.le; omega)
    cases a with
    | thread t =>
      have : s.caller.place.stage = n := ha
      omega
    | dispatcher =>
      rw [hu.errands] at ha
      have : 0 = n := ha
      omega
  have hw : s.logger.worker = .exited := hn.joined (by omega)
  exact ⟨by rw [hn.completed, h₇]; rfl, hw, (hn.drained (by rw [hw]; rfl)).2⟩

end System

namespace Logger

variable {o : Outlet Unit σ} {g g' : Logger Unit κ σ}

variable {Opened : σ → Sink → Prop} {c c' e e' : Caller Unit κ} {d : Direct κ σ}

theorem command?_pushed {cmd : Command Unit κ} (h : pushed (.thread ()) cmd c g = (c', g')) :
    c'.place.command? = none ∧ c'.place.isClaim = false := by
  cases cmd <;> cases h <;> exact ⟨rfl, rfl⟩

/-- What will have come out when the call under way is over and the queue is empty. -/
def outlook (o : Outlet Unit σ) (c : Caller Unit κ) (g : Logger Unit κ σ) : Output κ σ :=
  match c.place.command? with
  | some cmd => (g.prospect o).submit o g.requested cmd
  | none => g.prospect o

/-- `d` has done at once what has been done or will be done of the caller's calls so far. -/
structure Mirrors (o : Outlet Unit σ) (Opened : σ → Sink → Prop) (c : Caller Unit κ)
    (g : Logger Unit κ σ) (d : Direct κ σ) : Prop where
  output : g.outlook o c = d.output
  threshold : d.threshold = g.threshold
  serial : d.serial = c.serial
  closed : d.closed = (g.requested || c.place.isClaim)
  sink : Opened g.store g.sink
  ready : ∀ cmd ∈ g.pending ++ c.place.command?.toList, ∀ k ∈ cmd.sink?, Opened g.store k

namespace Mirrors

theorem worker (h : Mirrors o Opened c g d) (hs : o.Steady Opened) (hm : WorkerMoves o g g')
    (hd : g.dispatcherRequested = false) : Mirrors o Opened c g' d := by
  have hp := hm.proceeds hs h.sink
    (fun cmd hc => h.ready cmd (List.mem_append_left _ hc)) hd
  exact {
    output := by
      rw [← h.output, outlook, outlook, hp.prospect, hm.bystands.requested]
    threshold := h.threshold.trans hp.threshold.symm
    serial := h.serial
    closed := by rw [hm.bystands.requested, h.closed]
    sink := hp.sink
    ready := fun cmd hc k hk => by
      refine hp.grows.opened k (h.ready cmd ?_ k hk)
      exact List.mem_append.mpr ((List.mem_append.mp hc).imp_left (hp.pending cmd)) }

/-- A step that brings no command further. -/
theorem stays (h : Mirrors o Opened c g d) (hg : SameOutlook g g')
    (hcmd : c'.place.command? = c.place.command?) (hserial : c'.serial = c.serial)
    (hr : c.place.command? ≠ none → g'.requested = g.requested)
    (hclosed : (g'.requested || c'.place.isClaim) = (g.requested || c.place.isClaim)) :
    Mirrors o Opened c' g' d where
  output := by
    rw [← h.output, outlook, outlook, hcmd, hg.prospect]
    cases hc : c.place.command? with
    | none => rfl
    | some cmd => simp only [hr (by simp [hc])]
  threshold := h.threshold.trans hg.threshold.symm
  serial := h.serial.trans hserial.symm
  closed := h.closed.trans hclosed.symm
  sink := by rw [hg.store, hg.sink]; exact h.sink
  ready := by rw [hg.pending, hcmd, hg.store]; exact h.ready

/-- A handler is called with what was posted first. -/
theorem dispatcher (h : Mirrors o Opened c g d)
    (hm : DispatcherMoves System.taciturn e g e' g') : Mirrors o Opened c g' d := by
  have hsame : SameOutlook g g' := by
    cases hm with
    | @invokes k message rest hp he =>
      refine .of_output ?_ rfl rfl rfl
      simp [Logger.output, List.filterMap_cons, Event.output?, Event.invoked?, note, told, he]
    | @throws text hp hc =>
      have hg : SameOutlook g { g with dispatcher := .evaluating } := ⟨rfl, rfl, rfl⟩
      exact hg.note rfl rfl
    | _ => exact ⟨rfl, rfl, rfl⟩
  have hr := hm.bystands.1.requested
  exact h.stays hsame rfl rfl (fun _ => hr) (by rw [hr])

/-- A path that can be opened now can be opened when all that waits is done, and in the end it does
not matter which came first. -/
theorem opens (h : Mirrors o Opened c g d) (hs : o.Steady Opened) (hc : c.place = .idle)
    {path : String} {x : σ} (hx : o.openLog g.store path = .ok x) :
    ∃ y, o.openLog d.output.store path = .ok y ∧
      Mirrors o Opened c { g with store := x } { d with output := d.output.withStore y } := by
  have hout := h.output
  have hready := h.ready
  simp only [outlook, hc, Place.command?, Option.toList_none, List.append_nil] at hout hready
  have hmade : ({ g with store := x } : Logger Unit κ σ).reportMade = g.reportMade.withStore x := by
    unfold reportMade
    cases hw : g.worker with
    | reporting r => exact Output.report_withStore g.output x r.message
    | _ => rfl
  have hahead : Output.Ahead o path g.reportMade (g.reportMade.withStore x) :=
    ⟨x, by simpa using hx, rfl⟩
  obtain ⟨y, hy, hover⟩ := hahead.execAll hs (by simpa using h.sink)
    (show ∀ cmd ∈ g.pending, _ by simpa using hready)
  have hprospect : g.reportMade.execAll o g.pending = d.output := hout
  rw [hprospect] at hy hover
  refine ⟨y, hy, ?_⟩
  exact {
    output := by
      simp only [outlook, hc, Place.command?]
      rw [prospect, hmade]
      exact hover
    threshold := h.threshold
    serial := h.serial
    closed := h.closed
    sink := hs.opened hx h.sink
    ready := fun cmd hcmd k hk => hs.opened hx (h.ready cmd hcmd k hk) }

/-- A path that cannot be opened now cannot be opened when all that waits is done. -/
theorem opens_not (h : Mirrors o Opened c g d) (hs : o.Steady Opened) (hc : c.place = .idle)
    {path reason : String} (hx : o.openLog g.store path = .error reason) :
    o.openLog d.output.store path = .error reason := by
  have hout := h.output
  have hready := h.ready
  simp only [outlook, hc, Place.command?, Option.toList_none, List.append_nil] at hout hready
  have hgrows := Output.execAll_grows (v := g.reportMade) hs (by simpa using h.sink)
    (by simpa using hready)
  rw [← hout]
  exact hgrows.1.error path reason (by simpa using hx)

/-- The caller comes to the queue with a command. -/
theorem checking (h : Mirrors o Opened c g d) (hc : c.place = .idle) {cmd cmd' : Command Unit κ}
    (hg : SameOutlook g g') (hr : g'.requested = g.requested)
    (hsub : ∀ closed (v : Output κ σ), v.submit o closed cmd' = v.submit o closed cmd)
    (hsink : ∀ k ∈ cmd'.sink?, Opened g.store k) :
    Mirrors o Opened { c with place := .checking cmd' } g' (d.submit o cmd) := by
  have hout := h.output
  have hclosed := h.closed
  simp only [outlook, hc, Place.command?, Place.isClaim, Bool.or_false] at hout hclosed
  exact {
    output := by
      simp only [outlook, Place.command?, hg.prospect, hr, hsub, hout, Direct.submit, hclosed]
    threshold := h.threshold.trans hg.threshold.symm
    serial := h.serial
    closed := by simp only [Direct.submit, hclosed, hr, Place.isClaim, Bool.or_false]
    sink := by rw [hg.store, hg.sink]; exact h.sink
    ready := by
      rw [hg.pending, hg.store]
      intro cmd'' hmem k hk
      obtain hmem | hmem := List.mem_append.mp hmem
      · exact h.ready cmd'' (List.mem_append_left _ hmem) k hk
      · obtain rfl : cmd'' = cmd' := by simpa [Place.command?] using hmem
        exact hsink k hk }

/-- A call is counted. -/
theorem counted (h : Mirrors o Opened c g d) (call : Call κ) (rest : List (Call κ)) :
    Mirrors o Opened { c with todo := rest, serial := c.serial + 1 }
      (g.note (.called (.thread ()) call)) { d with serial := d.serial + 1 } := by
  have hg : SameOutlook g (g.note (.called (.thread ()) call)) := (SameOutlook.refl g).note rfl rfl
  have hstay : Mirrors o Opened { c with todo := rest } (g.note (.called (.thread ()) call)) d :=
    h.stays hg rfl rfl (fun _ => rfl) rfl
  exact ⟨hstay.output, hstay.threshold, congrArg (· + 1) h.serial, hstay.closed, hstay.sink,
    hstay.ready⟩

/-- The call is over. -/
theorem finish (h : Mirrors o Opened c g d) (hc : c.place = .idle)
    (he : finish (.thread ()) c g = (c', g')) : Mirrors o Opened c' g' d := by
  cases he
  exact h.stays ((SameOutlook.refl g).note rfl rfl) (by rw [hc]) rfl (fun _ => rfl)
    (by rw [hc]; rfl)

/-- A call begins; `d` has counted it. -/
theorem begins (h : Mirrors o Opened c g d) (hs : o.Steady Opened)
    (hdone : g.requested = g.completed) (hp : c.place = .idle) {call : Call κ}
    (hb : begin o (.thread ()) c g call = (c', g')) : Mirrors o Opened c' g' (d.effect o call) := by
  have hclosed : d.closed = g.requested := by simpa [hp, Place.isClaim] using h.closed
  cases call with
  | setLevel l =>
    have hlevel : Mirrors o Opened c { g with threshold := l } { d with threshold := l } :=
      ⟨h.output, rfl, h.serial, h.closed, h.sink, h.ready⟩
    exact hlevel.finish hp hb
  | log l body =>
    simp only [begin] at hb
    simp only [Direct.effect, h.threshold, h.serial]
    split at hb
    case isTrue hl =>
      cases hb
      rw [if_pos hl]
      exact h.checking hp ((SameOutlook.refl g).note rfl rfl) rfl (fun _ _ => rfl)
        (by simp [Command.sink?])
    case isFalse hl =>
      rw [if_neg hl]
      exact h.finish hp hb
  | logfile path exclusive =>
    simp only [begin] at hb
    split at hb
    case h_1 x hx =>
      cases hb
      obtain ⟨y, hy, hopen⟩ := h.opens hs hp hx
      simp only [Direct.effect, hy]
      exact hopen.checking hp (.refl _) rfl (fun _ _ => rfl) fun k hk => by
        obtain rfl : Sink.file path exclusive = k := by simpa [Command.sink?] using hk
        exact hs.opens hx exclusive
    case h_2 reason hx =>
      cases hb
      simp only [Direct.effect, h.opens_not hs hp hx]
      exact h.checking hp (.refl _) rfl (fun _ _ => rfl)
        (by simp [Command.sink?])
  | console =>
    cases hb
    exact h.checking hp (.refl _) rfl (fun _ _ => rfl) fun k hk => by
      obtain rfl : Sink.console = k := by simpa [Command.sink?] using hk
      exact hs.console _
  | onError k =>
    cases hb
    exact h.checking hp (.refl _) rfl (fun _ _ => rfl)
        (by simp [Command.sink?])
  | flush =>
    simp only [begin] at hb
    split at hb
    case isTrue hr =>
      have hsame : d.output.submit o d.closed (.flush 0) = d.output := by
        rw [hclosed, hr]
        rfl
      have hsame : d.effect o .flush = d := by
        simp only [Direct.effect, Direct.submit, hsame]
      rw [hsame]
      exact h.finish hp hb
    case isFalse hr =>
      cases hb
      have hnext : SameOutlook g { g with nextTicket := g.nextTicket + 1 } := ⟨rfl, rfl, rfl⟩
      exact h.checking hp hnext rfl (fun _ _ => rfl)
        (by simp [Command.sink?])
  | shutdown =>
    simp only [begin] at hb
    split at hb
    case isTrue hcomp =>
      have hsame : d.effect o .shutdown = d := by
        simp [Direct.effect, hclosed, hdone, hcomp]
      rw [hsame]
      exact h.finish hp hb
    case isFalse hcomp =>
      cases hb
      have hopen : d.closed = false := by
        rw [hclosed, hdone]
        exact Bool.eq_false_iff.mpr hcomp
      have hclose : d.effect o .shutdown = { d with closed := true } := by
        simp [Direct.effect, hopen, Output.flush_eq hs]
      rw [hclose]
      have hout : g.outlook o { c with place := .claiming } = g.outlook o c := by
        rw [outlook, outlook, hp]
        rfl
      exact ⟨hout.trans h.output, h.threshold, h.serial, by simp [Place.isClaim], h.sink,
        by simpa [hp, Place.command?] using h.ready⟩

/-- A command is refused; everything else has been done long since. -/
theorem refused (h : Mirrors o Opened c g d) {cmd : Command Unit κ}
    (hcmd : c.place.command? = some cmd) (hr : g.requested = true) (hw : g.worker = .exited)
    (hq : g.queue = []) (hc' : c'.place.command? = none ∧ c'.place.isClaim = false)
    (hserial : c'.serial = c.serial) : Mirrors o Opened c' (g.refuse cmd) d := by
  have hprospect : ∀ g : Logger Unit κ σ, g.worker = .exited → g.queue = [] →
      g.prospect o = g.output := by
    intro g hw hq
    simp [prospect, reportMade, pending, hw, hq, WorkerPlace.batch, Output.execAll]
  have hframe : (g.refuse cmd).worker = g.worker ∧ (g.refuse cmd).queue = g.queue ∧
      (g.refuse cmd).requested = g.requested ∧ (g.refuse cmd).threshold = g.threshold ∧
      (g.refuse cmd).store = g.store ∧ (g.refuse cmd).sink = g.sink := by
    cases cmd <;> exact ⟨rfl, rfl, rfl, rfl, rfl, rfl⟩
  obtain ⟨hw', hq', hr', ht', hx', hk'⟩ := hframe
  have hrefuse : (g.refuse cmd).output = g.output.refuse cmd := by
    cases cmd with
    | write r => exact output_note rfl rfl
    | _ => rfl
  have hout := h.output
  simp only [outlook, hcmd, hr, Output.submit, if_true, hprospect g hw hq] at hout
  exact {
    output := by
      rw [outlook, hc'.1, ← hout, ← hrefuse]
      exact hprospect _ (hw'.trans hw) (hq'.trans hq)
    threshold := h.threshold.trans ht'.symm
    serial := h.serial.trans hserial.symm
    closed := by rw [h.closed, hr', hr, Bool.true_or, Bool.true_or]
    sink := by rw [hx', hk']; exact h.sink
    ready := by
      rw [hc'.1, pending, hw', hq', hw, hq]
      simp [WorkerPlace.batch] }

/-- A command comes into the queue. -/
theorem pushed (h : Mirrors o Opened c g d) {cmd : Command Unit κ} (hp : c.place = .pushing cmd)
    (hq : g.requested = false) : Mirrors o Opened { c with place := .notifying cmd }
      (({ g with queue := g.queue ++ [cmd] }).note (.queued cmd)) d := by
  have hpending : (({ g with queue := g.queue ++ [cmd] } : Logger Unit κ σ).note
      (.queued cmd)).pending = g.pending ++ [cmd] := (List.append_assoc _ _ _).symm
  have hmade : (({ g with queue := g.queue ++ [cmd] } : Logger Unit κ σ).note
      (.queued cmd)).reportMade = g.reportMade := by
    have hout : (({ g with queue := g.queue ++ [cmd] } : Logger Unit κ σ).note
        (.queued cmd)).output = g.output := by
      simp [Logger.output, List.filterMap_cons, Event.output?, Event.invoked?, note, told]
    unfold reportMade
    rw [hout]
    rfl
  have hout := h.output
  simp only [outlook, hp, Place.command?, hq, Output.submit, Bool.false_eq_true, if_false] at hout
  exact {
    output := by
      rw [outlook, prospect, hpending, hmade, Output.execAll_append, ← hout]
      rfl
    threshold := h.threshold
    serial := h.serial
    closed := by
      rw [h.closed, hp]
      rfl
    sink := h.sink
    ready := by
      rw [hpending]
      intro cmd' hmem k hk
      refine h.ready cmd' ?_ k hk
      rw [hp]
      simpa [Place.command?] using hmem }

/-- A step of the caller. -/
theorem caller (h : Mirrors o Opened c g d) (hs : o.Steady Opened)
    (hdone : g.requested = true → c.place.stage = 0 →
      g.completed = true ∧ g.worker = .exited ∧ g.queue = [])
    (hreq : g.completed = true → g.requested = true)
    (hm : CallerMoves o (.thread ()) c g c' g') :
    (c'.todo = c.todo ∧ Mirrors o Opened c' g' d) ∨
    ∃ call, c.todo = call :: c'.todo ∧ Mirrors o Opened c' g' (d.call o call) := by
  -- most steps neither bring a command further nor touch anything that is looked at
  have hstay : ∀ {p p' : Place Unit κ} {g' : Logger Unit κ σ}, c.place = p →
      p'.command? = p.command? → SameOutlook g g' → g'.requested = g.requested →
      (g.requested || p'.isClaim) = (g.requested || p.isClaim) →
      Mirrors o Opened { c with place := p' } g' d := by
    intro p p' g' hp hcmd hg hr hclaim
    exact h.stays hg (by rw [hp]; exact hcmd) rfl (fun _ => hr) (by rw [hr, hp]; exact hclaim)
  cases hm with
  | @calls call rest hp ht _ _ hb =>
    have hc' : c'.todo = rest := todo_begin hb
    refine .inr ⟨call, by rw [hc', ht], ?_⟩
    have heq : g.requested = g.completed := by
      rw [Bool.eq_iff_iff]
      exact ⟨fun hr => (hdone hr (by rw [hp]; rfl)).1, hreq⟩
    exact (h.counted call rest).begins hs heq hp hb
  | looks hp hq => exact .inl ⟨rfl, hstay hp rfl (.refl g) rfl rfl⟩
  | @refuses cmd hp hq _ _ he =>
    have hcmd : c.place.command? = some cmd := by
      rcases hp with hp | hp <;> rw [hp] <;> rfl
    have hstage : c.place.stage = 0 := by
      rcases hp with hp | hp <;> rw [hp] <;> rfl
    obtain ⟨-, hw, hempty⟩ := hdone hq hstage
    obtain ⟨hserial, -, ⟨ticket, -, rfl⟩ | rfl⟩ := pushed_cases he
    · exact .inl ⟨todo_pushed he, h.refused hcmd hq hw hempty (command?_pushed he) hserial⟩
    · have hrefused := h.refused hcmd hq hw hempty (command?_pushed he) hserial
      exact .inl ⟨todo_pushed he, hrefused.stays ((SameOutlook.refl _).note rfl rfl) rfl rfl
        (fun _ => rfl) rfl⟩
  | pushes hp hq hw => exact .inl ⟨rfl, h.pushed hp hq⟩
  | @notifies cmd hp _ _ he =>
    obtain ⟨hcmd, hclaim⟩ := command?_pushed he
    obtain ⟨hserial, -, ⟨ticket, -, rfl⟩ | rfl⟩ := pushed_cases he
    · exact .inl ⟨todo_pushed he, h.stays (sameOutlook_wake g) (by rw [hcmd, hp]; rfl) hserial
        (fun _ => wake_requested) (by rw [wake_requested, hclaim, hp]; rfl)⟩
    · exact .inl ⟨todo_pushed he, h.stays ((sameOutlook_wake g).note rfl rfl)
        (by rw [hcmd, hp]; rfl) hserial (fun _ => wake_requested)
        (by rw [hclaim, hp]; exact congrArg (· || false) wake_requested)⟩
  | waits hp hq => exact .inl ⟨rfl, hstay hp rfl (.refl g) rfl rfl⟩
  | returns hp =>
    refine .inl ⟨rfl, ?_⟩
    have hg : SameOutlook g (g.note (.returned (.thread ()))) := (SameOutlook.refl g).note rfl rfl
    obtain ⟨ticket, hp, -⟩ | ⟨ticket, hp, -⟩ | ⟨hp, hr⟩ := hp
    · exact hstay hp rfl hg rfl rfl
    · exact hstay hp rfl hg rfl rfl
    · exact hstay hp rfl hg rfl (by simp [hr])
  | claims hp hq =>
    have hg : SameOutlook g { g with requested := true } := ⟨rfl, rfl, rfl⟩
    exact .inl ⟨rfl, h.stays hg (by rw [hp]; rfl) rfl (fun hne => absurd (by rw [hp]; rfl) hne)
      (by simp [hp, Place.isClaim])⟩
  | wakes hp => exact .inl ⟨rfl, hstay hp rfl (sameOutlook_wake g) wake_requested rfl⟩
  | joins hp hw => exact .inl ⟨rfl, hstay hp rfl (.refl g) rfl rfl⟩
  | skipsDispatcher hp hd => exact .inl ⟨rfl, hstay hp rfl (.refl g) rfl rfl⟩
  | claimsDispatcher hp hd => exact .inl ⟨rfl, hstay hp rfl ⟨rfl, rfl, rfl⟩ rfl rfl⟩
  | wakesDispatcher hp =>
    have hg : SameOutlook g g.wakeDispatcher := by
      unfold wakeDispatcher
      split
      · exact ⟨rfl, rfl, rfl⟩
      · exact .refl g
    exact .inl ⟨rfl, hstay hp rfl hg wakeDispatcher_requested rfl⟩
  | joinsDispatcher hp hd => exact .inl ⟨rfl, hstay hp rfl (.refl g) rfl rfl⟩
  | completes hp =>
    have hg : SameOutlook g { g with completed := true } := ⟨rfl, rfl, rfl⟩
    exact .inl ⟨rfl, hstay hp rfl (hg.note rfl rfl) rfl rfl⟩

end Mirrors
end Logger

namespace System

variable {o : Outlet Unit σ} {Opened : σ → Sink → Prop} {s s' : System Unit κ σ} {store : σ}
  {calls : List (Call κ)}

theorem Reachable.undisturbed {todo : Unit → List (Call κ)}
    (hr : Reachable o taciturn (System.start store todo) s) : s.Undisturbed := by
  induction hr with
  | start => exact undisturbed_start store todo
  | step x _ hs ih => exact ih.step hs

/-- In every run of the only caller, the calls that it has begun have come or will come to what they
come to at once. -/
theorem Reachable.mirrors (hr : Reachable o taciturn (System.start store fun _ => calls) s)
    (hsteady : o.Steady Opened) : ∃ begun, calls = begun ++ s.caller.todo ∧
      s.logger.Mirrors o Opened s.caller ((Direct.start store).calls o begun) := by
  induction hr with
  | start => exact ⟨[], rfl, rfl, rfl, rfl, rfl, hsteady.console store, nofun⟩
  | @step s s' x hr hs ih =>
    obtain ⟨begun, hcalls, hmirrors⟩ := ih
    obtain ⟨n, hn⟩ := hr.closing
    have hu := hr.undisturbed
    obtain ⟨a, c, g, -, hm, rfl⟩ | ⟨g, -, hm, rfl⟩ | ⟨c, g, -, hm, rfl⟩ := step_cases hs
    · cases a with
      | dispatcher =>
        rw [hu.errands] at hm
        exact absurd hm not_callerMoves_fresh
      | thread t =>
        have hself : ((s.setCaller (.thread t) c).callers (.thread ())) = c := setCaller_self s _ c
        have hreq : s.logger.completed = true → s.logger.requested = true := by
          rw [hn.completed, hn.requested, decide_eq_true_eq, decide_eq_true_eq]
          exact Nat.le_trans (by decide)
        obtain ⟨htodo, h⟩ | ⟨call, htodo, h⟩ :=
          hmirrors.caller hsteady (fun hr hp => hn.done hu hr hp) hreq hm
        · refine ⟨begun, ?_, ?_⟩
          · rw [hcalls, caller, caller, hself, htodo]
            rfl
          · rw [caller, hself]
            exact h
        · refine ⟨begun ++ [call], ?_, ?_⟩
          · rw [hcalls, caller, caller, hself, List.append_assoc]
            exact congrArg (begun ++ ·) htodo
          · rw [caller, hself, Direct.calls, List.foldl_append]
            exact h
    · exact ⟨begun, hcalls, hmirrors.worker hsteady hm (hn.dispatcher_open hm.works.2)⟩
    · have hself : (s.setCaller .dispatcher c).callers (.thread ()) = s.caller :=
        setCaller_ne s (a := .dispatcher) (b := .thread ()) c nofun
      refine ⟨begun, ?_, ?_⟩
      · rw [hcalls, caller, caller, hself]
        rfl
      · rw [caller, hself]
        exact hmirrors.dispatcher hm

end System
end Logging
end CheckedLock
