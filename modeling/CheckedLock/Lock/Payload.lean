import CheckedLock.Json.Value
/-! Values that a lock protects, and their JSON form. -/
namespace CheckedLock

inductive PayloadKind
  | int | text | list | table
  deriving DecidableEq, Repr

namespace PayloadKind

def ofName? : String → Option PayloadKind
  | "int" => some .int
  | "str" => some .text
  | "vec" => some .list
  | "map" => some .table
  | _ => none

end PayloadKind

/-- A table is kept in the order of its keys, each key once. -/
inductive Payload
  | int (n : Int)
  | text (s : String)
  | list (items : List Int)
  | table (members : List (String × Int))
  deriving DecidableEq, Repr

namespace Payload

def kind : Payload → PayloadKind
  | .int _ => .int
  | .text _ => .text
  | .list _ => .list
  | .table _ => .table

def default : PayloadKind → Payload
  | .int => .int 0
  | .text => .text ""
  | .list => .list []
  | .table => .table []

/-- What is left when the value is moved away. -/
def husk : Payload → Payload
  | .int n => .int n
  | .text _ => .text ""
  | .list _ => .list []
  | .table _ => .table []

@[simp] theorem kind_husk (p : Payload) : p.husk.kind = p.kind := by cases p <;> rfl

/-- Integers have 32 bits; a larger one is reduced modulo 2^32. -/
def narrow (n : Int) : Int := n.bmod 4294967296

/-- Puts a member at the place of its key, in the stead of an older one. -/
def insert (key : String) (n : Int) : List (String × Int) → List (String × Int)
  | [] => [(key, n)]
  | m :: rest =>
    if key < m.1 then (key, n) :: m :: rest
    else if key = m.1 then (key, n) :: rest
    else m :: insert key n rest

def toJson : Payload → Json
  | .int n => .number (.integer n)
  | .text s => .string s
  | .list items => .array (items.map fun n => .number (.integer n))
  | .table members => .object (members.map fun m => (m.1, .number (.integer m.2)))

/-- A number is taken as it is if 64 bits have room for it. Else it is kept in floating point, and
`cut` tells the integer that such a number is cut to. -/
def int? (cut : Numeral → Int) : Json → Option Int
  | .bool b => some b.toInt
  | .number x => some (narrow ((Json.number x).integer?.getD (cut x)))
  | _ => none

def items? (cut : Numeral → Int) : List Json → Option (List Int)
  | [] => some []
  | j :: rest => do
    let n ← int? cut j
    let ns ← items? cut rest
    return n :: ns

def members? (cut : Numeral → Int) : List (String × Json) → Option (List (String × Int))
  | [] => some []
  | m :: rest => do
    let n ← int? cut m.2
    let ms ← members? cut rest
    return insert m.1 n ms

/-- Reads a document as a value of the given kind. -/
def ofJson? (cut : Numeral → Int) : PayloadKind → Json → Option Payload
  | .int, j => (int? cut j).map .int
  | .text, .string s => some (.text s)
  | .list, .array items => (items? cut items).map .list
  | .table, .object members => (members? cut members).map .table
  | _, _ => none

def size : Payload → Nat
  | .int _ => 0
  | .text s => s.utf8ByteSize
  | .list items => items.length
  | .table members => members.length

/-- The value as log messages show it; only integers and texts have such a form. -/
def display? : Payload → Option String
  | .int n => some (toString n)
  | .text s => some s
  | _ => none

end Payload

/-- A document to read a value from. What its floating-point numbers are cut to is up to the machine
that reads it. -/
structure Document where
  json : Json
  cut : Numeral → Int

def Document.read? (d : Document) (k : PayloadKind) : Option Payload := Payload.ofJson? d.cut k d.json

end CheckedLock
