import CheckedLock.Logging.Direct
import CheckedLock.Proofs.Files.Opening

/-! Work put off. Commands that wait may as well be carried out after a file has been opened that
comes behind them: they only use sinks that are open already. -/
namespace CheckedLock
namespace Logging

variable {κ σ : Type}

/-- What waiting work relies on: open sinks stay open, and a write to one can as well come after the
opening of another. -/
structure Outlet.Steady (o : Outlet Unit σ) (Opened : σ → Sink → Prop) : Prop where
  console : ∀ x, Opened x .console
  opens : ∀ {x path x'}, o.openLog x path = .ok x' → ∀ exclusive, Opened x' (.file path exclusive)
  opened : ∀ {x path x' s}, o.openLog x path = .ok x' → Opened x s → Opened x' s
  written : ∀ {x s r x' s'}, o.write x s r = .ok x' → Opened x s' → Opened x' s'
  flush : ∀ x s, o.flush x s = .ok x
  late : ∀ {x s r path x'}, Opened x s → o.openLog x path = .ok x' →
    match o.write x s r with
    | .ok y => ∃ y', o.openLog y path = .ok y' ∧ o.write x' s r = .ok y'
    | .error text => o.write x' s r = .error text
  late_error : ∀ {x s r path reason y}, o.openLog x path = .error reason → o.write x s r = .ok y →
    o.openLog y path = .error reason

/-- A log file is open if its path has been opened. -/
def LogFiles.Opened (x : LogFiles) : Sink → Prop
  | .console => True
  | .file path _ => FileStore.Opened x path

theorem openLog_ok {x x' : LogFiles} {path : String} :
    fileOutlet.openLog x path = .ok x' ↔ x.openAppend path = .ok x' := by
  cases h : x.openAppend path <;> simp [fileOutlet, h]

theorem openLog_error {x : LogFiles} {path reason : String} :
    fileOutlet.openLog x path = .error reason ↔
      ∃ e, x.openAppend path = .error e ∧ e.message = reason := by
  cases h : x.openAppend path <;> simp [fileOutlet, h]

theorem write_file {x : LogFiles} {path : String} {exclusive : Bool} {r : Record Unit} :
    fileOutlet.write x (.file path exclusive) r = match x.append path r with
      | some y => .ok y
      | none => .error (Sink.writeFailure (.file path exclusive)) := rfl

/-- What a write may change. -/
theorem write_ok {x y : LogFiles} {s : Sink} {r : Record Unit}
    (h : fileOutlet.write x s r = .ok y) : FileStore.SameTree x y := by
  cases s with
  | console =>
    cases h
    exact ⟨rfl, rfl, rfl, rfl⟩
  | file path exclusive =>
    rw [write_file] at h
    split at h
    case h_1 ha =>
      cases h
      exact FileStore.sameTree_append ha
    case h_2 => cases h

theorem steady_fileOutlet : fileOutlet.Steady LogFiles.Opened where
  console _ := trivial
  opens h _ := (FileStore.openAppend_ok (openLog_ok.mp h)).1
  opened {x path x' s} h hs := by
    cases s with
    | console => trivial
    | file path' exclusive => exact FileStore.Opened.openAppend hs (openLog_ok.mp h)
  written {x s r x' s'} h hs := by
    cases s' with
    | console => trivial
    | file path exclusive => exact FileStore.Opened.sameTree (write_ok h) hs
  flush _ _ := rfl
  late {x s r path x'} hs h := by
    cases s with
    | console => exact ⟨x', h, rfl⟩
    | file path' exclusive =>
      have hcomm := FileStore.append_openAppend (r := r) hs (openLog_ok.mp h)
      rw [write_file, write_file]
      cases ha : x.append path' r with
      | none =>
        simp only [ha] at hcomm ⊢
        rw [hcomm]
      | some y =>
        simp only [ha] at hcomm ⊢
        obtain ⟨y', hy, hy'⟩ := hcomm
        exact ⟨y', openLog_ok.mpr hy, by rw [hy']⟩
  late_error {x s r path reason y} h hw := by
    obtain ⟨e, he, rfl⟩ := openLog_error.mp h
    exact openLog_error.mpr ⟨e, FileStore.openAppend_error he (write_ok hw), rfl⟩

def Command.sink? : Command Unit κ → Option Sink
  | .select s => some s
  | _ => none

namespace Output

variable {o : Outlet Unit σ} {Opened : σ → Sink → Prop} {v v' : Output κ σ} {path : String}

/-- The same with other files. -/
def withStore (v : Output κ σ) (x : σ) : Output κ σ := { v with store := x }

@[simp] theorem store_report (v : Output κ σ) (message : String) :
    (v.report message).store = v.store := by
  unfold report
  split <;> rfl

@[simp] theorem sink_report (v : Output κ σ) (message : String) :
    (v.report message).sink = v.sink := by
  unfold report
  split <;> rfl

theorem report_withStore (v : Output κ σ) (x : σ) (message : String) :
    (v.withStore x).report message = (v.report message).withStore x := by
  unfold report withStore
  cases v.handler <;> rfl

/-- `v'` is `v` with the path opened already. -/
def Ahead (o : Outlet Unit σ) (path : String) (v v' : Output κ σ) : Prop :=
  ∃ x, o.openLog v.store path = .ok x ∧ v' = v.withStore x

/-- What an output does to the files: open sinks stay open, and a path that could not be opened
cannot be opened afterwards. -/
structure Grows (o : Outlet Unit σ) (Opened : σ → Sink → Prop) (x y : σ) : Prop where
  opened : ∀ s, Opened x s → Opened y s
  error : ∀ path reason, o.openLog x path = .error reason → o.openLog y path = .error reason

theorem Grows.refl (x : σ) : Grows o Opened x x := ⟨fun _ => id, fun _ _ => id⟩

theorem Grows.trans {x y z : σ} (h : Grows o Opened x y) (h' : Grows o Opened y z) :
    Grows o Opened x z :=
  ⟨fun s hs => h'.opened s (h.opened s hs), fun p r hr => h'.error p r (h.error p r hr)⟩

theorem write_grows (hs : o.Steady Opened) (v : Output κ σ) (r : Record Unit) :
    Grows o Opened v.store (v.write o r).store ∧ (v.write o r).sink = v.sink := by
  unfold write
  cases hw : o.write v.store v.sink r with
  | ok y => exact ⟨⟨fun _ => hs.written hw, fun _ _ he => hs.late_error he hw⟩, rfl⟩
  | error text => exact ⟨by simpa [say] using Grows.refl v.store, by simp [say]⟩

theorem Ahead.write (hs : o.Steady Opened) (hv : Opened v.store v.sink) (h : Ahead o path v v')
    (r : Record Unit) : Ahead o path (v.write o r) (v'.write o r) := by
  obtain ⟨x, hx, rfl⟩ := h
  have hlate := hs.late (r := r) hv hx
  have hsink : (v.withStore x).store = x ∧ (v.withStore x).sink = v.sink := ⟨rfl, rfl⟩
  unfold Output.write
  rw [hsink.1, hsink.2]
  cases hw : o.write v.store v.sink r with
  | ok y =>
    simp only [hw] at hlate
    obtain ⟨y', hy, hy'⟩ := hlate
    rw [hy']
    exact ⟨y', hy, rfl⟩
  | error text =>
    simp only [hw] at hlate
    rw [hlate]
    refine ⟨x, by simpa [say] using hx, ?_⟩
    exact report_withStore (v.say (.refused v.sink r)) x _

theorem select_eq (hs : o.Steady Opened) (v : Output κ σ) (s : Sink) :
    v.select o s = ({ v with sink := s } : Output κ σ).write o (.switched v.sink) := by
  simp [select, hs.flush]

theorem flush_eq (hs : o.Steady Opened) (v : Output κ σ) (error : String → String) :
    v.flush o error = v := by
  simp [flush, hs.flush]

/-- A command leaves an open sink, if it finds one. -/
theorem exec_grows (hs : o.Steady Opened) (hv : Opened v.store v.sink) {cmd : Command Unit κ}
    (hc : ∀ s ∈ cmd.sink?, Opened v.store s) :
    Grows o Opened v.store (v.exec o cmd).store ∧
      Opened (v.exec o cmd).store (v.exec o cmd).sink := by
  cases cmd with
  | write r =>
    obtain ⟨hg, hsink⟩ := write_grows hs v r
    refine ⟨hg, ?_⟩
    rw [exec, hsink]
    exact hg.opened _ hv
  | select s =>
    obtain ⟨hg, hsink⟩ := write_grows hs { v with sink := s } (.switched v.sink)
    rw [exec, select_eq hs]
    refine ⟨hg, ?_⟩
    rw [hsink]
    exact hg.opened _ (hc s rfl)
  | openFailed message => exact ⟨by simpa [exec] using Grows.refl _, by simpa [exec] using hv⟩
  | flush ticket =>
    rw [exec, flush_eq hs]
    exact ⟨.refl _, hv⟩
  | onError h => exact ⟨.refl _, hv⟩

theorem Ahead.exec (hs : o.Steady Opened) (hv : Opened v.store v.sink) (h : Ahead o path v v')
    {cmd : Command Unit κ} (hc : ∀ s ∈ cmd.sink?, Opened v.store s) :
    Ahead o path (v.exec o cmd) (v'.exec o cmd) := by
  cases cmd with
  | write r => exact h.write hs hv r
  | select s =>
    rw [Output.exec, Output.exec, select_eq hs, select_eq hs]
    obtain ⟨x, hx, rfl⟩ := h
    exact Ahead.write (v := { v with sink := s }) hs (hc s rfl) ⟨x, hx, rfl⟩ _
  | openFailed message =>
    obtain ⟨x, hx, rfl⟩ := h
    exact ⟨x, by simpa [Output.exec] using hx, report_withStore v x message⟩
  | flush ticket =>
    rw [Output.exec, Output.exec, flush_eq hs, flush_eq hs]
    exact h
  | onError k =>
    obtain ⟨x, hx, rfl⟩ := h
    exact ⟨x, hx, rfl⟩

/-- All that waits. -/
def execAll (o : Outlet Unit σ) (v : Output κ σ) (cs : List (Command Unit κ)) : Output κ σ :=
  cs.foldl (exec o) v

theorem execAll_append (v : Output κ σ) (cs cs' : List (Command Unit κ)) :
    v.execAll o (cs ++ cs') = (v.execAll o cs).execAll o cs' := List.foldl_append

theorem execAll_grows (hs : o.Steady Opened) (hv : Opened v.store v.sink)
    {cs : List (Command Unit κ)} (hc : ∀ c ∈ cs, ∀ s ∈ c.sink?, Opened v.store s) :
    Grows o Opened v.store (v.execAll o cs).store ∧
      Opened (v.execAll o cs).store (v.execAll o cs).sink := by
  induction cs generalizing v with
  | nil => exact ⟨.refl _, hv⟩
  | cons c rest ih =>
    obtain ⟨hg, hopen⟩ := exec_grows hs hv (hc c List.mem_cons_self)
    obtain ⟨hg', hopen'⟩ := ih hopen fun c' hc' s hs' =>
      hg.opened s (hc c' (List.mem_cons_of_mem c hc') s hs')
    exact ⟨hg.trans hg', hopen'⟩

/-- It makes no difference whether the waiting commands come before the opening or after it. -/
theorem Ahead.execAll (hs : o.Steady Opened) (hv : Opened v.store v.sink) (h : Ahead o path v v')
    {cs : List (Command Unit κ)} (hc : ∀ c ∈ cs, ∀ s ∈ c.sink?, Opened v.store s) :
    Ahead o path (v.execAll o cs) (v'.execAll o cs) := by
  induction cs generalizing v v' with
  | nil => exact h
  | cons c rest ih =>
    have hfirst := hc c List.mem_cons_self
    obtain ⟨hg, hopen⟩ := exec_grows hs hv hfirst
    exact ih hopen (h.exec hs hv hfirst) fun c' hc' s hs' =>
      hg.opened s (hc c' (List.mem_cons_of_mem c hc') s hs')

end Output
end Logging
end CheckedLock
