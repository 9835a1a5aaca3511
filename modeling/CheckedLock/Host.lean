import CheckedLock.Lock.Acquisition
import CheckedLock.Logging.Record
import CheckedLock.Time.Timestamp
/-! What a run takes from its machine: process and thread numbers, clocks, addresses. -/
namespace CheckedLock

structure Host where
  pid : Nat
  /-- numbers of the program's threads, in the order of their start -/
  threadNumber : Nat → Nat
  /-- readings of the steady clock, in nanoseconds -/
  steady : Nat → Nat
  now : Timestamp
  offsetMinutes : Int
  /-- where the locks of a run stand in memory -/
  address : Nat → Nat

namespace Host

def version : String := "0.1.0"

/-- A machine on which time stands still. -/
def still : Host where
  pid := 4242
  threadNumber t := 4242 + t
  steady _ := 0
  now := ⟨0⟩
  offsetMinutes := 0
  address i := 0x7f0000000000 + 64 * i

def hex (n : Nat) : String :=
  "0x" ++ String.ofList (Nat.toDigits 16 n)

/-- The logger's worker and the dispatcher are the second and third thread of a process. -/
def stamp (h : Host) : Logging.Stamp Unit where
  time := h.now.render h.offsetMinutes
  number
    | .agent (.thread _) => h.threadNumber 0
    | .worker => h.threadNumber 1
    | .agent .dispatcher => h.threadNumber 2

end Host

namespace StackTrace

def header : String := "Stack Trace (most recent call first):"

def frame (i address : Nat) : String :=
  "  #" ++ Column.number 2 i ++ "  0x" ++
    String.ofList (List.replicate (16 - (Nat.toDigits 16 address).length) '0' ++
      Nat.toDigits 16 address) ++ "  (unknown)"

/-- A header and one line for each return address, the innermost first. -/
def lines (addresses : List Nat) : List String :=
  header :: addresses.zipIdx.map fun a => frame a.2 a.1

end StackTrace
end CheckedLock
