import CheckedLock.Lock.Acquisition
/-! Operations on one result, one after the other. `husk` is what a value leaves behind when it is
moved away. -/
namespace CheckedLock

variable {α ε : Type}

/-- What an operation answers. -/
inductive Reply (α ε : Type)
  | done
  | flag (b : Bool)
  | value (v : α)
  | error (e : ε)
  | code (c : Int)
  | misuse (m : Misuse)
  deriving DecidableEq, Repr

namespace Reply

def ofExcept {β : Type} (answer : β → Reply α ε) : Except Misuse β → Reply α ε
  | .ok b => answer b
  | .error m => .misuse m

end Reply

namespace Outcome

inductive Op (α ε : Type)
  | isOk | isError | error | code | content
  | takeContent
  | set (v : α)
  | assign (o : Outcome α ε)

def perform (husk : α → α) (o : Outcome α ε) : Op α ε → Outcome α ε × Reply α ε
  | .isOk => (o, .flag o.isOk)
  | .isError => (o, .flag !o.isOk)
  | .error => (o, .ofExcept .error o.error)
  | .code => (o, .ofExcept .code o.code)
  | .content => (o, .ofExcept .value o.content)
  | .takeContent => match o.update husk with
    | .ok left => (left, .ofExcept .value o.content)
    | .error m => (o, .misuse m)
  | .set v => match o.update (fun _ => v) with
    | .ok left => (left, .done)
    | .error m => (o, .misuse m)
  | .assign p => (p, .done)

end Outcome

namespace Acquisition

inductive Op (α : Type)
  | isOk | isError | hasValue | isPoisoned | error | content
  | takeContent
  | intoValue
  | set (v : α)
  | assign (a : Acquisition α)
  | ignorePoison
  | panicIfPoison
  | apply (policy : Option PoisonPolicy)

def perform (husk : α → α) (a : Acquisition α) :
    Op α → Except Panic (Acquisition α × Reply α LockError)
  | .isOk => .ok (a, .flag a.isOk)
  | .isError => .ok (a, .flag a.isError)
  | .hasValue => .ok (a, .flag a.hasValue)
  | .isPoisoned => .ok (a, .flag a.poisoned)
  | .error => .ok (a, .ofExcept .error a.error)
  | .content => .ok (a, .ofExcept .value a.content)
  | .takeContent => match a.content with
    | .ok v => .ok (a.mapValue husk, .value v)
    | .error m => .ok (a, .misuse m)
  | .intoValue => match a.intoValue with
    | .ok v => .ok (a.mapValue husk, .value v)
    | .error m => .ok (a, .misuse m)
  | .set v => match a.update (fun _ => v) with
    | .ok b => .ok (b, .done)
    | .error m => .ok (a, .misuse m)
  | .assign b => .ok (b, .done)
  | .ignorePoison => .ok (a.ignorePoison, .done)
  | .panicIfPoison => a.panicIfPoison.map (·, .done)
  | .apply policy => (a.apply policy).map (·, .done)

/-- Answers up to the end or to a panic. -/
def run (husk : α → α) : Acquisition α → List (Op α) → List (Reply α LockError) × Option Panic
  | _, [] => ([], none)
  | a, op :: ops => match a.perform husk op with
    | .error p => ([], some p)
    | .ok (b, reply) =>
      let (replies, panic) := run husk b ops
      (reply :: replies, panic)

end Acquisition

namespace Outcome

def run (husk : α → α) : Outcome α ε → List (Op α ε) → List (Reply α ε)
  | _, [] => []
  | o, op :: ops =>
    let (p, reply) := o.perform husk op
    reply :: run husk p ops

end Outcome
end CheckedLock
