import CheckedLock.Lock.Outcome
import CheckedLock.Lock.Policy
/-! Command line of the stress tool. -/
namespace CheckedLock
namespace Stress

/-- A count as the command line writes it: digits only, from 1 to `largest`. -/
def largest : Nat := 2147483647

def decimal? : List Char → Option Nat
  | [] => none
  | cs => if cs.all Char.isDigit then
      some (cs.foldl (fun n c => 10 * n + (c.toNat - '0'.toNat)) 0)
    else none

def parsePositive (s : String) : Option Nat :=
  match decimal? s.toList with
  | some n => if 1 ≤ n ∧ n ≤ largest then some n else none
  | none => none

inductive ArgError
  | unknownArgument | missingValue | invalidNumber | invalidPolicy
  deriving DecidableEq, Repr

namespace ArgError

def message : ArgError → String
  | .unknownArgument => "unknown argument"
  | .missingValue => "missing value for"
  | .invalidNumber => "expected a positive integer for"
  | .invalidPolicy => "expected inform, ignore or panic for"

def ofCode? : Int → Option ArgError
  | 0 => some .unknownArgument
  | 1 => some .missingValue
  | 2 => some .invalidNumber
  | 3 => some .invalidPolicy
  | _ => none

def messageOfCode (code : Int) : String :=
  ((ofCode? code).map message).getD "invalid argument"

end ArgError

/-- Options that take a value. -/
inductive Setting
  | config | threads | iterations | policy
  deriving DecidableEq, Repr

namespace Setting

def ofWord? : String → Option Setting
  | "--config" => some .config
  | "--threads" => some .threads
  | "--iterations" => some .iterations
  | "--policy" => some .policy
  | _ => none

/-- What is wrong when its value cannot be read. -/
def complaint : Setting → ArgError
  | .policy => .invalidPolicy
  | _ => .invalidNumber

end Setting

structure Arguments where
  configPath : String := ""
  threads : Option Nat := none
  iterations : Option Nat := none
  policy : Option PoisonPolicy := none
  showHelp : Bool := false
  deriving DecidableEq, Repr

namespace Arguments

def isHelp (word : String) : Bool :=
  word = "--help" || word = "-h"

def set? (a : Arguments) (value : String) : Setting → Option Arguments
  | .config => some { a with configPath := value }
  | .threads => (parsePositive value).map fun n => { a with threads := some n }
  | .iterations => (parsePositive value).map fun n => { a with iterations := some n }
  | .policy => (PoisonPolicy.ofName? value).map fun p => { a with policy := some p }

/-- Words from position `i` on; a failure carries the position of the option at fault. -/
def parseFrom (i : Nat) (a : Arguments) : List String → Outcome Arguments ArgError
  | [] => .ok a
  | word :: rest =>
    if isHelp word then parseFrom (i + 1) { a with showHelp := true } rest
    else match Setting.ofWord? word with
      | none => .failure .unknownArgument i
      | some setting => match rest with
        | [] => .failure .missingValue i
        | value :: rest => match a.set? value setting with
          | none => .failure setting.complaint i
          | some a => parseFrom (i + 2) a rest

/-- The words after the program's name, which are counted from 1. -/
def parse (words : List String) : Outcome Arguments ArgError :=
  parseFrom 1 {} words

end Arguments
end Stress
end CheckedLock
