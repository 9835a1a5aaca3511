import CheckedLock.Json.Value
/-! Lexemes of JSON text. -/
namespace CheckedLock
namespace Json

/-- A number as it is written; the point and the letter before the exponent are part of it. -/
structure Literal where
  negative : Bool
  whole : List Char
  fraction : List Char
  exponent : List Char

namespace Literal

def text (x : Literal) : String :=
  String.ofList ((if x.negative then ['-'] else []) ++ x.whole ++ x.fraction ++ x.exponent)

/-- The number that a row of digits writes. -/
def count (ds : List Char) : Nat := Nat.ofDigitChars 10 ds 0

def numeral (x : Literal) : Numeral :=
  if x.fraction.isEmpty && x.exponent.isEmpty then
    .integer (if x.negative then -(count x.whole : Int) else count x.whole)
  else .decimal x.text

/-- All digits of the number, which count units of ten to the power of `scale`. -/
def digits (x : Literal) : List Char := x.whole ++ x.fraction.tail

def exponentValue : List Char → Int
  | _ :: '-' :: ds => -(count ds : Int)
  | _ :: '+' :: ds => count ds
  | _ :: ds => count ds
  | [] => 0

def scale (x : Literal) : Int := exponentValue x.exponent - x.fraction.tail.length

/-- The least magnitude that is rounded to no finite number of 64 bits; it has 309 digits. -/
def firstInfinite : Nat := Nat.pow 2 1024 - Nat.pow 2 970

/-- Whether floating point has no room for the number. Its magnitude is looked at only where the
places that it takes do not tell. -/
def overflows (x : Literal) : Bool :=
  let n := count x.digits
  let places : Int := (Nat.toDigits 10 n).length + x.scale
  if n = 0 ∨ places < 309 then false
  else if 309 < places then true
  else firstInfinite * Nat.pow 10 (-x.scale).toNat ≤ n * Nat.pow 10 x.scale.toNat

end Literal

inductive Token
  | openArray | closeArray | openObject | closeObject | colon | comma
  | atom (v : Json)
  | number (x : Literal)
  /-- a string, which may also be the key of a member -/
  | text (s : String)
  /-- text that is no lexeme; nothing is read behind it -/
  | broken

namespace Token

def hexValue? (c : Char) : Option Nat :=
  if c.isDigit then some (c.toNat - '0'.toNat)
  else if 'a' ≤ c && c ≤ 'f' then some (c.toNat - 'a'.toNat + 10)
  else if 'A' ≤ c && c ≤ 'F' then some (c.toNat - 'A'.toNat + 10)
  else none

/-- The code unit that four hexadecimal digits write. -/
def unit? (a b c d : Char) : Option Nat := do
  let a ← hexValue? a
  let b ← hexValue? b
  let c ← hexValue? c
  let d ← hexValue? d
  return ((a * 16 + b) * 16 + c) * 16 + d

def isHigh (u : Nat) : Bool := 0xD800 ≤ u && u ≤ 0xDBFF

def isLow (u : Nat) : Bool := 0xDC00 ≤ u && u ≤ 0xDFFF

/-- The character that a surrogate pair writes. -/
def paired (high low : Nat) : Char :=
  Char.ofNat (0x10000 + (high - 0xD800) * 0x400 + (low - 0xDC00))

def escaped? : Char → Option Char
  | '"' => some '"'
  | '\\' => some '\\'
  | '/' => some '/'
  | 'b' => some '\x08'
  | 'f' => some '\x0c'
  | 'n' => some '\n'
  | 'r' => some '\r'
  | 't' => some '\t'
  | _ => none

/-- The rest of a string literal after its opening quote; `done` holds its characters backwards. -/
def scanText : List Char → List Char → Option (String × List Char)
  | [], _ => none
  | '"' :: rest, done => some (String.ofList done.reverse, rest)
  | '\\' :: 'u' :: a :: b :: c :: d :: '\\' :: 'u' :: e :: f :: g :: h :: rest, done =>
    match unit? a b c d with
    | none => none
    | some u =>
      if isHigh u then match unit? e f g h with
        | some v => if isLow v then scanText rest (paired u v :: done) else none
        | none => none
      else if isLow u then none
      else scanText ('\\' :: 'u' :: e :: f :: g :: h :: rest) (Char.ofNat u :: done)
  | '\\' :: 'u' :: a :: b :: c :: d :: rest, done =>
    match unit? a b c d with
    | none => none
    | some u => if isHigh u || isLow u then none else scanText rest (Char.ofNat u :: done)
  | '\\' :: c :: rest, done => match escaped? c with
    | some e => scanText rest (e :: done)
    | none => none
  | c :: rest, done => if c.toNat < 0x20 then none else scanText rest (c :: done)

/-- One or more digits. -/
def scanDigits (cs : List Char) : Option (List Char × List Char) :=
  match cs.span Char.isDigit with
  | ([], _) => none
  | (ds, rest) => some (ds, rest)

/-- A whole number without leading zeros. -/
def scanWhole : List Char → Option (List Char × List Char)
  | '0' :: rest => some (['0'], rest)
  | cs => scanDigits cs

def scanFraction : List Char → Option (List Char × List Char)
  | '.' :: rest => (scanDigits rest).map fun (ds, rest) => ('.' :: ds, rest)
  | cs => some ([], cs)

def scanExponent : List Char → Option (List Char × List Char)
  | [] => some ([], [])
  | e :: rest =>
    if e = 'e' || e = 'E' then match rest with
      | '+' :: rest => (scanDigits rest).map fun (ds, rest) => (e :: '+' :: ds, rest)
      | '-' :: rest => (scanDigits rest).map fun (ds, rest) => (e :: '-' :: ds, rest)
      | _ => (scanDigits rest).map fun (ds, rest) => (e :: ds, rest)
    else some ([], e :: rest)

def scanUnsigned (negative : Bool) (cs : List Char) : Option (Literal × List Char) := do
  let (whole, rest) ← scanWhole cs
  let (fraction, rest) ← scanFraction rest
  let (exponent, rest) ← scanExponent rest
  return (⟨negative, whole, fraction, exponent⟩, rest)

def scanNumber : List Char → Option (Literal × List Char)
  | '-' :: rest => scanUnsigned true rest
  | cs => scanUnsigned false cs

def isBlank (c : Char) : Bool :=
  c = ' ' || c = '\t' || c = '\n' || c = '\r'

def scan : List Char → Option (Token × List Char)
  | '[' :: rest => some (.openArray, rest)
  | ']' :: rest => some (.closeArray, rest)
  | '{' :: rest => some (.openObject, rest)
  | '}' :: rest => some (.closeObject, rest)
  | ':' :: rest => some (.colon, rest)
  | ',' :: rest => some (.comma, rest)
  | 't' :: 'r' :: 'u' :: 'e' :: rest => some (.atom (.bool true), rest)
  | 'f' :: 'a' :: 'l' :: 's' :: 'e' :: rest => some (.atom (.bool false), rest)
  | 'n' :: 'u' :: 'l' :: 'l' :: rest => some (.atom .null, rest)
  | '"' :: rest => (scanText rest []).map fun (s, rest) => (.text s, rest)
  | cs => (scanNumber cs).map fun (x, rest) => (.number x, rest)

/-- All lexemes, with blanks between them skipped; `fuel` bounds their number. A NUL ends the
text. -/
def scanAll : Nat → List Char → List Token
  | fuel, cs => match cs.dropWhile isBlank, fuel with
    | [], _ | '\x00' :: _, _ => []
    | _, 0 => [.broken]
    | c :: rest, fuel + 1 => match scan (c :: rest) with
      | none => [.broken]
      | some (t, rest) => t :: scanAll fuel rest

/-- The lexemes of a text, after its byte order mark if it has one. -/
def ofText (s : String) : List Token :=
  match s.toList with
  | '\uFEFF' :: cs => scanAll cs.length cs
  | cs => scanAll cs.length cs

end Token
end Json
end CheckedLock
