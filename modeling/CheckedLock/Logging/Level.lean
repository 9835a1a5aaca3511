/-! Levels of log messages. Any integer is a level; six of them have names. -/
namespace CheckedLock

structure Level where
  rank : Int
  deriving DecidableEq, Repr

namespace Level

def trace : Level := ⟨0⟩
def debug : Level := ⟨1⟩
def info : Level := ⟨2⟩
def warn : Level := ⟨3⟩
def error : Level := ⟨4⟩
def system : Level := ⟨5⟩

def named : List (String × Level) :=
  [("trace", trace), ("debug", debug), ("info", info), ("warn", warn), ("warning", warn),
    ("error", error), ("system", system)]

/-- Reads a name in any letter case. -/
def ofName? (name : String) : Option Level :=
  named.lookup (name.map Char.toLower)

def tag (l : Level) : String :=
  if l = trace then "TRACE"
  else if l = debug then "DEBUG"
  else if l = info then "INFO"
  else if l = warn then "WARN"
  else if l = error then "ERROR"
  else if l = system then "SYSTEM"
  else "UNK"

/-- Messages below `trace` are never passed on, whatever the threshold. -/
def passes (l threshold : Level) : Bool :=
  decide (trace.rank ≤ l.rank) && decide (threshold.rank ≤ l.rank)

theorem passes_iff (l threshold : Level) :
    l.passes threshold = true ↔ 0 ≤ l.rank ∧ threshold.rank ≤ l.rank := by
  simp only [passes, Bool.and_eq_true, decide_eq_true_eq]
  exact Iff.rfl

end Level
end CheckedLock
