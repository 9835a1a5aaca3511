import CheckedLock.Lock.Trial
/-! The result of an acquisition acts as one of three things: a payload, a payload from a poisoned
lock, or an error. -/
namespace CheckedLock

variable {α : Type}

inductive ThreeWay (α : Type)
  | clean (v : α) | tainted (v : α) | failed (e : LockError)
  deriving DecidableEq, Repr

namespace Acquisition

/-- The mark of a failure says nothing. -/
def view (a : Acquisition α) : ThreeWay α :=
  match a.inner with
  | .ok v => if a.poisoned then .tainted v else .clean v
  | .failure e _ => .failed e

/-- A poisoned result has its payload. -/
def IsProper (a : Acquisition α) : Prop := a.poisoned = true → a.hasValue = true

/-- What is assigned was made like any other result. -/
def Op.IsProper : Op α → Prop
  | .assign a => a.IsProper
  | _ => True

/-- What the operations make of a result, unless one of them panics. -/
def after (husk : α → α) (a : Acquisition α) (ops : List (Op α)) : Except Panic (Acquisition α) :=
  ops.foldlM (fun b op => (b.perform husk op).map Prod.fst) a

end Acquisition

namespace ThreeWay

def stored : ThreeWay α → Acquisition α
  | .clean v => Acquisition.clean v
  | .tainted v => Acquisition.tainted v
  | .failed e => Acquisition.failed e

def isClean : ThreeWay α → Bool
  | .clean _ => true
  | _ => false

def isTainted : ThreeWay α → Bool
  | .tainted _ => true
  | _ => false

def hasValue : ThreeWay α → Bool
  | .failed _ => false
  | _ => true

def error : ThreeWay α → Except Misuse LockError
  | .clean _ => .error .errorOfSuccess
  | .tainted _ => .ok .poisoned
  | .failed e => .ok e

def content : ThreeWay α → Except Misuse α
  | .clean v => .ok v
  | .tainted _ => .error .contentOfPoisoned
  | .failed _ => .error .contentOfFailure

def intoValue : ThreeWay α → Except Misuse α
  | .clean v => .ok v
  | .tainted v => .ok v
  | .failed _ => .error .contentOfFailure

def map (f : α → α) : ThreeWay α → ThreeWay α
  | .clean v => .clean (f v)
  | .tainted v => .tainted (f v)
  | .failed e => .failed e

def ignorePoison : ThreeWay α → ThreeWay α
  | .tainted v => .clean v
  | s => s

def panicIfPoison : ThreeWay α → Except Panic (ThreeWay α)
  | .tainted _ => .error .poisonedResult
  | s => .ok s

/-- Goes over to `left` if there is an answer, and stays as it is if the call was a misuse. -/
def reply {β : Type} (s left : ThreeWay α) (answer : β → Reply α LockError) :
    Except Misuse β → ThreeWay α × Reply α LockError
  | .ok b => (left, answer b)
  | .error m => (s, .misuse m)

def perform (husk : α → α) (s : ThreeWay α) :
    Acquisition.Op α → Except Panic (ThreeWay α × Reply α LockError)
  | .isOk => .ok (s, .flag s.isClean)
  | .isError => .ok (s, .flag !s.isClean)
  | .hasValue => .ok (s, .flag s.hasValue)
  | .isPoisoned => .ok (s, .flag s.isTainted)
  | .error => .ok (s.reply s .error s.error)
  | .content => .ok (s.reply s .value s.content)
  | .takeContent => .ok (s.reply (s.map husk) .value s.content)
  | .intoValue => .ok (s.reply (s.map husk) .value s.intoValue)
  | .set v => .ok (s.reply (s.map fun _ => v) (fun _ => .done) s.content)
  | .assign a => .ok (a.view, .done)
  | .ignorePoison => .ok (s.ignorePoison, .done)
  | .panicIfPoison => s.panicIfPoison.map (·, .done)
  | .apply (some .ignore) => .ok (s.ignorePoison, .done)
  | .apply (some .panic) => s.panicIfPoison.map (·, .done)
  | .apply _ => .ok (s, .done)

def run (husk : α → α) :
    ThreeWay α → List (Acquisition.Op α) → List (Reply α LockError) × Option Panic
  | _, [] => ([], none)
  | s, op :: ops => match s.perform husk op with
    | .error p => ([], some p)
    | .ok (t, reply) =>
      let (replies, panic) := run husk t ops
      (reply :: replies, panic)

def after (husk : α → α) (s : ThreeWay α) (ops : List (Acquisition.Op α)) :
    Except Panic (ThreeWay α) :=
  ops.foldlM (fun t op => (t.perform husk op).map Prod.fst) s

@[simp] theorem view_stored (s : ThreeWay α) : s.stored.view = s := by
  cases s <;> rfl

theorem isProper_stored (s : ThreeWay α) : s.stored.IsProper := by
  cases s
  all_goals simp [stored, Acquisition.clean, Acquisition.tainted, Acquisition.failed,
    Acquisition.IsProper, Acquisition.hasValue]

end ThreeWay

namespace Acquisition

variable {a b : Acquisition α} {husk : α → α}

/-- Up to the detail of an error, which no operation shows, a proper result is one of three. -/
theorem IsProper.cases (ha : a.IsProper) :
    (∃ v, a = clean v) ∨ (∃ v, a = tainted v) ∨ (∃ e c, a = ⟨.failure e c, false⟩) := by
  obtain ⟨inner, poisoned⟩ := a
  cases inner with
  | ok v => cases poisoned <;> simp [clean, tainted]
  | failure e c =>
    cases poisoned
    · simp
    · exact absurd (ha rfl) (by simp [hasValue])

theorem perform_view (ha : a.IsProper) (op : Op α) :
    (a.perform husk op).map (fun next => (next.1.view, next.2)) = a.view.perform husk op := by
  rcases ha.cases with ⟨v, rfl⟩ | ⟨v, rfl⟩ | ⟨e, c, rfl⟩
  all_goals
    cases op with
    | apply policy => rcases policy with _ | _ | _ | _ <;> rfl
    | _ => rfl

theorem isProper_of_isOk (h : a.inner.isOk = true) : a.IsProper := fun _ => h

theorem isProper_of_unmarked (h : a.poisoned = false) : a.IsProper := by
  intro hmark
  rw [h] at hmark
  exact absurd hmark Bool.false_ne_true

theorem isProper_perform {reply : Reply α LockError} {op : Op α} (ha : a.IsProper)
    (hop : op.IsProper) (h : a.perform husk op = .ok (b, reply)) : b.IsProper := by
  rcases ha.cases with ⟨v, rfl⟩ | ⟨v, rfl⟩ | ⟨e, c, rfl⟩
  all_goals
    cases op with
    | assign d =>
      cases h
      exact hop
    | apply policy =>
      rcases policy with _ | _ | _ | _ <;> cases h <;>
        first | exact isProper_of_isOk rfl | exact isProper_of_unmarked rfl
    | _ =>
      cases h <;> first | exact isProper_of_isOk rfl | exact isProper_of_unmarked rfl

theorem run_view (husk : α → α) (ops : List (Op α)) (ha : a.IsProper)
    (hops : ∀ op ∈ ops, op.IsProper) : a.run husk ops = a.view.run husk ops := by
  induction ops generalizing a with
  | nil => rfl
  | cons op ops ih =>
    rw [List.forall_mem_cons] at hops
    rw [run, ThreeWay.run, ← perform_view ha]
    cases h : a.perform husk op with
    | error p => rfl
    | ok next =>
      have := ih (isProper_perform ha hops.1 h) hops.2
      simp only [Except.map, this]

theorem after_view (husk : α → α) (ops : List (Op α)) (ha : a.IsProper)
    (hops : ∀ op ∈ ops, op.IsProper) :
    (a.after husk ops).map view = a.view.after husk ops ∧
      ∀ b, a.after husk ops = .ok b → b.IsProper := by
  induction ops generalizing a with
  | nil =>
    refine ⟨rfl, ?_⟩
    rintro b ⟨⟩
    exact ha
  | cons op ops ih =>
    rw [List.forall_mem_cons] at hops
    simp only [after, ThreeWay.after, List.foldlM_cons, ← perform_view ha]
    cases h : a.perform husk op with
    | error p =>
      refine ⟨rfl, ?_⟩
      rintro b ⟨⟩
    | ok next => exact ih (isProper_perform ha hops.1 h) hops.2

/-- What callers rely on. -/
structure Lawful (husk : α → α) (a : Acquisition α) : Prop where
  one_of_three : (a.isOk, a.poisoned, !a.hasValue) ∈
    [(true, false, false), (false, true, false), (false, false, true)]
  isError_eq : a.isError = !a.isOk
  content_fails : (∃ m, a.content = .error m) ↔ a.isOk = false
  intoValue_fails : (∃ m, a.intoValue = .error m) ↔ a.hasValue = false
  error_fails : (∃ m, a.error = .error m) ↔ a.isOk = true
  error_poisoned : a.poisoned = true → a.error = .ok .poisoned
  error_failed : ∀ e, a.view = .failed e → a.error = .ok e
  misuse_unchanged : ∀ op b m, a.perform husk op = .ok (b, .misuse m) → b = a
  moved_out : ∀ op ∈ [Op.takeContent, Op.intoValue], ∀ b v,
    a.perform husk op = .ok (b, .value v) →
      b.poisoned = a.poisoned ∧ a.inner = .ok v ∧ b.inner = .ok (husk v)
  ignored : ∀ op ∈ [Op.ignorePoison, Op.apply (some .ignore)],
    a.perform husk op = .ok ({ a with poisoned := false }, .done)
  panics : ∀ op, (∃ p, a.perform husk op = .error p) ↔
    a.poisoned = true ∧ (op = .panicIfPoison ∨ op = .apply (some .panic))
  passed_on : ∀ policy ≠ some PoisonPolicy.ignore, ∀ b reply,
    a.perform husk (.apply policy) = .ok (b, reply) → b = a ∧ reply = .done

theorem misuse_unchanged (ha : a.IsProper) {op : Op α} {m : Misuse}
    (h : a.perform husk op = .ok (b, .misuse m)) : b = a := by
  rcases ha.cases with ⟨v, rfl⟩ | ⟨v, rfl⟩ | ⟨e, c, rfl⟩
  all_goals
    cases op with
    | apply policy => rcases policy with _ | _ | _ | _ <;> cases h
    | _ => cases h <;> rfl

theorem moved_out (ha : a.IsProper) {op : Op α} {v : α}
    (hop : op ∈ [Op.takeContent, Op.intoValue]) (h : a.perform husk op = .ok (b, .value v)) :
    b.poisoned = a.poisoned ∧ a.inner = .ok v ∧ b.inner = .ok (husk v) := by
  simp only [List.mem_cons, List.not_mem_nil, or_false] at hop
  rcases ha.cases with ⟨v, rfl⟩ | ⟨v, rfl⟩ | ⟨e, c, rfl⟩
  all_goals
    rcases hop with rfl | rfl <;> cases h
  all_goals exact ⟨rfl, rfl, rfl⟩

theorem panics_iff (op : Op α) : (∃ p, a.perform husk op = .error p) ↔
    a.poisoned = true ∧ (op = .panicIfPoison ∨ op = .apply (some .panic)) := by
  obtain ⟨inner, poisoned⟩ := a
  cases op with
  | apply policy =>
    rcases policy with _ | _ | _ | _ <;>
      cases poisoned <;> simp [perform, apply, panicIfPoison, Except.map]
  | panicIfPoison => cases poisoned <;> simp [perform, panicIfPoison, Except.map]
  | takeContent => cases inner <;> cases poisoned <;> simp [perform, content, Outcome.content]
  | intoValue => cases inner <;> simp [perform, intoValue, Outcome.content]
  | set v =>
    cases inner <;> cases poisoned <;> simp [perform, update, Outcome.update, Except.map]
  | _ => simp [perform]

theorem IsProper.lawful (ha : a.IsProper) : a.Lawful husk where
  one_of_three := by
    rcases ha.cases with ⟨v, rfl⟩ | ⟨v, rfl⟩ | ⟨e, c, rfl⟩
    all_goals simp [isOk, hasValue, clean, tainted]
  isError_eq := rfl
  content_fails := by
    rcases ha.cases with ⟨v, rfl⟩ | ⟨v, rfl⟩ | ⟨e, c, rfl⟩
    all_goals simp [content, Outcome.content, isOk, clean, tainted]
  intoValue_fails := by
    rcases ha.cases with ⟨v, rfl⟩ | ⟨v, rfl⟩ | ⟨e, c, rfl⟩
    all_goals simp [intoValue, Outcome.content, hasValue, clean, tainted]
  error_fails := by
    rcases ha.cases with ⟨v, rfl⟩ | ⟨v, rfl⟩ | ⟨e, c, rfl⟩
    all_goals simp [error, Outcome.error, isOk, clean, tainted]
  error_poisoned := by
    intro h
    rw [error, if_pos h]
  error_failed := by
    intro e h
    rcases ha.cases with ⟨v, rfl⟩ | ⟨v, rfl⟩ | ⟨e, c, rfl⟩ <;> cases h
    rfl
  misuse_unchanged := fun _ _ _ h => misuse_unchanged ha h
  moved_out := fun _ hop _ _ h => moved_out ha hop h
  ignored := by simp [perform, apply, ignorePoison, Except.map]
  panics := panics_iff
  passed_on := by
    intro policy hpolicy b reply h
    rcases policy with _ | _ | _ | _
    all_goals
      simp only [perform, apply, panicIfPoison, Except.map] at h
    · cases h
      exact ⟨rfl, rfl⟩
    · cases h
      exact ⟨rfl, rfl⟩
    · exact absurd rfl hpolicy
    · by_cases hp : a.poisoned
      · simp [hp] at h
      · simp [hp] at h
        exact ⟨h.1.symm, h.2.symm⟩

end Acquisition

namespace ThreeWay

theorem simulated (husk : α → α) (s : ThreeWay α) (ops : List (Acquisition.Op α))
    (hops : ∀ op ∈ ops, op.IsProper) :
    s.stored.run husk ops = s.run husk ops ∧
      (s.stored.after husk ops).map Acquisition.view = s.after husk ops ∧
      ∀ a, s.stored.after husk ops = .ok a → a.Lawful husk := by
  have hrun := Acquisition.run_view husk ops s.isProper_stored hops
  have hafter := Acquisition.after_view husk ops s.isProper_stored hops
  rw [view_stored] at hrun hafter
  refine ⟨hrun, hafter.1, ?_⟩
  intro a ha
  exact (hafter.2 a ha).lawful

/-- A payload is moved out of a poisoned result, whose mark stays until it panics. -/
theorem simulated_up_to_panic :
    (ThreeWay.tainted "v").stored.run (fun _ => "")
        [.content, .intoValue, .intoValue, .apply (some .inform), .apply (some .panic), .isOk] =
      ([.misuse .contentOfPoisoned, .value "v", .value "", .done], some .poisonedResult) := by
  have h := simulated (fun _ => "") (.tainted "v")
    [.content, .intoValue, .intoValue, .apply (some .inform), .apply (some .panic), .isOk]
    (by simp [Acquisition.Op.IsProper])
  exact h.1.trans rfl

end ThreeWay
end CheckedLock
