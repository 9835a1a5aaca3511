/-! A whole number at the head of a text: a minus sign or none, then digits up to the first other
character. A number that does not fit into 32 bits is lost; its digits are passed over all the
same. -/
namespace CheckedLock
namespace Numeral

inductive Fault
  | noDigits | outOfRange
  deriving DecidableEq, Repr

/-- What was read, and the text behind it. -/
structure Reading where
  number : Except Fault Int
  rest : List Char

/-- The largest magnitude of 32 bits. -/
def most (negative : Bool) : Nat := if negative then 2147483648 else 2147483647

def digit (c : Char) : Nat := c.toNat - '0'.toNat

/-- One more digit, unless the number gets past the limit. -/
def extend (limit n : Nat) (c : Char) : Option Nat :=
  if 10 * n + digit c ≤ limit then some (10 * n + digit c) else none

/-- Digits as far as they go. -/
def digits (limit : Nat) : Option Nat → List Char → Option Nat × List Char
  | n, [] => (n, [])
  | n, c :: rest =>
    if c.isDigit then digits limit (n.bind (extend limit · c)) rest else (n, c :: rest)

def signed (negative : Bool) (n : Nat) : Int := if negative then -n else n

/-- The part behind the sign; without a digit nothing of the text is read. -/
def unsigned (negative : Bool) (text : List Char) : List Char → Reading
  | [] => ⟨.error .noDigits, text⟩
  | c :: rest =>
    if c.isDigit then match digits (most negative) (some 0) (c :: rest) with
      | (some n, rest) => ⟨.ok (signed negative n), rest⟩
      | (none, rest) => ⟨.error .outOfRange, rest⟩
    else ⟨.error .noDigits, text⟩

def read : List Char → Reading
  | '-' :: rest => unsigned true ('-' :: rest) rest
  | text => unsigned false text text

/-- A positive number, and nothing behind it. -/
def Reading.count? (r : Reading) : Option Nat :=
  match r.number, r.rest with
  | .ok n, [] => if 1 ≤ n then some n.toNat else none
  | _, _ => none

end Numeral
end CheckedLock
