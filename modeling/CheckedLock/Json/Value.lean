/-! JSON documents. -/
namespace CheckedLock

/-- A number is an integer unless it is written with a point or an exponent. -/
inductive Numeral
  | integer (n : Int)
  | decimal (literal : String)
  deriving DecidableEq, Repr

inductive Json
  | null
  | bool (b : Bool)
  | number (n : Numeral)
  | string (s : String)
  | array (items : List Json)
  | object (members : List (String × Json))
  deriving Repr

namespace Json

/-- The member of an object, if the document is one and has it. -/
def member? (key : String) : Json → Option Json
  | .object members => members.lookup key
  | _ => none

def isObject : Json → Bool
  | .object _ => true
  | _ => false

/-- The integer, if the number is kept as one: 64 bits have room for it, with or without a sign. -/
def integer? : Json → Option Int
  | .number (.integer n) =>
    if -9223372036854775808 ≤ n ∧ n < 18446744073709551616 then some n else none
  | _ => none

/-- An integer converted to a signed number of so many bits. -/
def signed (bits : Nat) (n : Int) : Int := (BitVec.ofInt bits n).toInt

@[simp] theorem member?_object (key : String) (members : List (String × Json)) :
    (Json.object members).member? key = members.lookup key := rfl

/-- Why a text is not read. -/
inductive Failure
  /-- no JSON; the reader says where it stopped -/
  | malformed (detail : String)
  /-- JSON that has no document, in the words of the reader -/
  | refused (message : String)
  deriving DecidableEq, Repr

/-- What makes a document of a text. -/
abbrev Parser := String → Except Failure Json

/-- The text of an object without members. -/
def emptyText : String := "\x7b\x7d"

end Json
end CheckedLock
