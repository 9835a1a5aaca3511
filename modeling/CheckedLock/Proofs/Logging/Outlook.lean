import CheckedLock.Proofs.Logging.Account
import CheckedLock.Proofs.Logging.Postponing

/-! What will have come out when everything in the queue is done. The worker brings it about and
does not change it. -/
namespace CheckedLock
namespace Logging

variable {κ σ : Type}

/-- Lines, whoever writes them. -/
def Event.output? : Event Unit κ → Option (Outcome Unit κ)
  | .wrote s r => some (.wrote s r)
  | .refused s r => some (.refused s r)
  | .fallback r => some (.fallback r)
  | .printed message => some (.printed message)
  | _ => none

/-- Handlers that throw and processes that end without a shutdown say so, too. -/
def Event.isPlain : Event Unit κ → Bool
  | .threw _ | .unclosed => false
  | _ => true

theorem Event.text?_eq {e : Event Unit κ} (h : e.isPlain = true) (stamp : Stamp Unit) :
    e.text? stamp = e.output?.bind (Outcome.text? stamp) := by
  cases e with
  | wrote s r => cases s <;> rfl
  | refused s r => cases s <;> rfl
  | threw | unclosed => cases h
  | _ => rfl

/-- The command that a thread has in its hands. -/
def Place.command? : Place Unit κ → Option (Command Unit κ)
  | .checking c | .pushing c => some c
  | _ => none

def Place.isClaim : Place Unit κ → Bool
  | .claiming => true
  | _ => false

namespace Logger

variable {o : Outlet Unit σ} {Opened : σ → Sink → Prop} {g g' : Logger Unit κ σ}

/-- What has come out. -/
def output (g : Logger Unit κ σ) : Output κ σ where
  sink := g.sink
  handler := g.handler
  store := g.store
  lines := g.told Event.output?
  invoked := g.invocations ++ g.posts

/-- What has come out, once the report under way is made. -/
def reportMade (g : Logger Unit κ σ) : Output κ σ :=
  match g.worker with
  | .reporting r => g.output.report r.message
  | .posting h r => { g.output with invoked := g.output.invoked ++ [(h, r.message)] }
  | _ => g.output

/-- What will have come out when the queue is empty. -/
def prospect (o : Outlet Unit σ) (g : Logger Unit κ σ) : Output κ σ :=
  g.reportMade.execAll o g.pending

@[simp] theorem store_reportMade : g.reportMade.store = g.store := by
  unfold reportMade
  split
  · exact Output.store_report _ _
  · rfl
  · rfl

@[simp] theorem sink_reportMade : g.reportMade.sink = g.sink := by
  unfold reportMade
  split
  · exact Output.sink_report _ _
  · rfl
  · rfl

theorem output_note {e : Event Unit κ} {x : Outcome Unit κ} (h : e.output? = some x)
    (h' : e.invoked? = none) : (g.note e).output = g.output.say x := by
  simp [output, Output.say, h, h', note, told]

theorem output_reported (r : Report Unit κ) : (g.reported r).output = g.output := by
  cases ht : r.ticket <;> simp [reported, proceed, honour, ht, output, told]

theorem reportMade_reported (r : Report Unit κ) : (g.reported r).reportMade = g.output := by
  rw [← output_reported (g := g) r]
  cases hr : r.rest <;> simp [reportMade, reported, proceed, hr]

theorem pending_reported (r : Report Unit κ) :
    (g.reported r).pending = r.rest.getD [] ++ g.queue := by
  rw [pending, (reported_worker r).1, reported_queue]

theorem threshold_reported (r : Report Unit κ) : (g.reported r).threshold = g.threshold := by
  cases ht : r.ticket <;> simp [reported, proceed, honour, ht]

theorem reportMade_put (r : Record Unit) (rest : List (Command Unit κ)) :
    (g.put o r rest).reportMade = g.output.write o r := by
  obtain ⟨store, hw, h⟩ | ⟨text, hw, h⟩ := put_cases o g r rest
  · have hwrite : g.output.write o r = (g.output.withStore store).say (.wrote g.sink r) := by
      rw [Output.write, show o.write g.output.store g.output.sink r = .ok store from hw]
      rfl
    rw [h, hwrite]
    exact output_note rfl rfl
  · have hwrite : g.output.write o r =
        (g.output.say (.refused g.sink r)).report (workerError text) := by
      rw [Output.write, show o.write g.output.store g.output.sink r = .error text from hw]
      rfl
    have hnote : (g.note (.refused g.sink r)).output = g.output.say (.refused g.sink r) :=
      output_note rfl rfl
    rw [h, hwrite]
    exact congrArg (Output.report (workerError text)) hnote

/-- The worker does with a command what is to be done with it. -/
theorem reportMade_handle (hs : o.Steady Opened) (cmd : Command Unit κ)
    (rest : List (Command Unit κ)) : (g.handle o rest cmd).reportMade = g.output.exec o cmd := by
  cases cmd with
  | write r => exact reportMade_put r rest
  | select s =>
    have hselect : g.handle o rest (.select s) =
        ({ g with sink := s } : Logger Unit κ σ).put o (.switched g.sink) rest := by
      simp [handle, hs.flush]
    rw [hselect, reportMade_put, Output.exec, Output.select_eq hs]
    rfl
  | openFailed message => rfl
  | flush ticket =>
    rw [Output.exec, Output.flush_eq hs]
    simp only [handle, hs.flush]
    rfl
  | onError h => rfl

/-- What a step of the worker leaves of the outlook. -/
structure Proceeds (o : Outlet Unit σ) (Opened : σ → Sink → Prop) (g g' : Logger Unit κ σ) :
    Prop where
  prospect : g'.prospect o = g.prospect o
  grows : Output.Grows o Opened g.store g'.store
  sink : Opened g'.store g'.sink
  pending : ∀ c ∈ g'.pending, c ∈ g.pending
  threshold : g'.threshold = g.threshold

theorem Proceeds.same (hv : Opened g.store g.sink) (hr : g'.reportMade = g.reportMade)
    (hp : g'.pending = g.pending) (ht : g'.threshold = g.threshold) : Proceeds o Opened g g' := by
  have hstore : g'.store = g.store := by
    have := congrArg (·.store) hr
    simpa using this
  have hsink : g'.sink = g.sink := by
    have := congrArg (·.sink) hr
    simpa using this
  exact {
    prospect := by rw [Logger.prospect, Logger.prospect, hr, hp]
    grows := by rw [hstore]; exact .refl _
    sink := by rw [hstore, hsink]; exact hv
    pending := by rw [hp]; exact fun _ => id
    threshold := ht }

theorem threshold_handle (cmd : Command Unit κ) (rest : List (Command Unit κ)) :
    (g.handle o rest cmd).threshold = g.threshold := by
  have hput : ∀ (g : Logger Unit κ σ) (r : Record Unit),
      (g.put o r rest).threshold = g.threshold := by
    intro g r
    obtain ⟨store, -, h⟩ | ⟨text, -, h⟩ := put_cases o g r rest <;> rw [h] <;> rfl
  cases cmd with
  | write r => exact hput g r
  | select s =>
    simp only [handle]
    split
    · rfl
    · exact hput _ _
  | flush ticket =>
    simp only [handle]
    split <;> rfl
  | _ => rfl

theorem WorkerMoves.proceeds (h : WorkerMoves o g g') (hs : o.Steady Opened)
    (hv : Opened g.store g.sink) (hc : ∀ c ∈ g.pending, ∀ s ∈ c.sink?, Opened g.store s)
    (hd : g.dispatcherRequested = false) : Proceeds o Opened g g' := by
  cases h with
  | @handles cmd rest hp =>
    obtain ⟨ys, hy, -⟩ := handle_yields (o := o) (g := g) cmd rest
    have hmade := reportMade_handle (g := g) hs cmd rest
    have hnow : g.reportMade = g.output := by simp [reportMade, hp]
    have hpend : g.pending = cmd :: (g.handle o rest cmd).pending := by
      rw [pending, pending, hy.batch, hy.queue, hp]
      rfl
    have hfirst : ∀ s ∈ cmd.sink?, Opened g.store s := hc cmd (by simp [hpend])
    obtain ⟨hg, hopen⟩ := Output.exec_grows (v := g.output) hs hv hfirst
    rw [← hmade] at hg hopen
    rw [store_reportMade] at hg hopen
    rw [sink_reportMade] at hopen
    exact {
      prospect := by
        rw [prospect, prospect, hmade, hnow, hpend]
        rfl
      grows := hg
      sink := hopen
      pending := fun c hc' => by
        rw [hpend]
        exact List.mem_cons_of_mem cmd hc'
      threshold := threshold_handle cmd rest }
  | closes hp | dozes hp | sleeps hp | ends hp | takes hp =>
    refine .same hv ?_ ?_ rfl
    · simp [reportMade, hp, output, told]
    · simp [pending, hp, WorkerPlace.batch]
  | @prints r hp hh =>
    refine .same hv ?_ ?_ ?_
    · rw [reportMade_reported, output_note rfl rfl]
      simp [reportMade, hp, Output.report, output, hh]
    · rw [pending_reported]
      simp [pending, hp, WorkerPlace.batch, note]
    · rw [threshold_reported]
      rfl
  | drops hp hh hd' =>
    rw [hd] at hd'
    cases hd'
  | @addresses r k hp hh =>
    refine .same hv ?_ ?_ rfl
    · simp [reportMade, hp, Output.report, output, hh, told]
    · simp [pending, hp, WorkerPlace.batch]
  | @posts k r hp =>
    refine .same hv ?_ ?_ rfl
    · simp [reportMade, hp, output, told]
    · simp [pending, hp, WorkerPlace.batch]
  | @alerts r hp =>
    obtain ⟨hout, hqueue, hlevel⟩ : g.wakeDispatcher.output = g.output ∧
        g.wakeDispatcher.queue = g.queue ∧ g.wakeDispatcher.threshold = g.threshold := by
      unfold wakeDispatcher
      split <;> exact ⟨rfl, rfl, rfl⟩
    refine .same hv ?_ ?_ ?_
    · rw [reportMade_reported, hout]
      simp [reportMade, hp]
    · rw [pending_reported, hqueue]
      simp [pending, hp, WorkerPlace.batch]
    · rw [threshold_reported, hlevel]
  | @leaves store hp hf =>
    rw [hs.flush] at hf
    cases hf
    refine .same hv ?_ ?_ rfl
    · simp [reportMade, hp, output, told]
    · simp [pending, hp, WorkerPlace.batch]
  | failsToFlush hp hf =>
    rw [hs.flush] at hf
    cases hf

/-- The same is under way. -/
structure SameOutlook (g g' : Logger Unit κ σ) : Prop where
  reportMade : g'.reportMade = g.reportMade
  pending : g'.pending = g.pending
  threshold : g'.threshold = g.threshold

theorem SameOutlook.refl (g : Logger Unit κ σ) : SameOutlook g g := ⟨rfl, rfl, rfl⟩

theorem SameOutlook.store (h : SameOutlook g g') : g'.store = g.store := by
  simpa using congrArg (·.store) h.reportMade

theorem SameOutlook.sink (h : SameOutlook g g') : g'.sink = g.sink := by
  simpa using congrArg (·.sink) h.reportMade

theorem SameOutlook.prospect (h : SameOutlook g g') : g'.prospect o = g.prospect o := by
  rw [Logger.prospect, Logger.prospect, h.reportMade, h.pending]

/-- An event that shows nothing. -/
theorem SameOutlook.note (h : SameOutlook g g') {e : Event Unit κ} (he : e.output? = none)
    (he' : e.invoked? = none) : SameOutlook g (g'.note e) := by
  have hout : (g'.note e).output = g'.output := by
    simp [output, he, he', Logger.note, told]
  exact ⟨by simp only [Logger.reportMade, hout]; exact h.reportMade, h.pending, h.threshold⟩

theorem sameOutlook_wake (g : Logger Unit κ σ) : SameOutlook g g.wake := by
  unfold wake
  split
  case h_1 hw =>
    exact ⟨by simp [reportMade, hw, output, told], by simp [pending, hw, WorkerPlace.batch], rfl⟩
  case h_2 => exact .refl g

theorem SameOutlook.of_output (ho : g'.output = g.output) (hw : g'.worker = g.worker)
    (hq : g'.queue = g.queue) (ht : g'.threshold = g.threshold) : SameOutlook g g' :=
  ⟨by rw [Logger.reportMade, Logger.reportMade, hw, ho],
    by rw [Logger.pending, Logger.pending, hw, hq], ht⟩

end Logger
end Logging
end CheckedLock
