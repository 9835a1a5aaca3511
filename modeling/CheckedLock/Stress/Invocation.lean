import CheckedLock.Config.Reader
import CheckedLock.Stress.Arguments
import CheckedLock.Stress.Contention
import CheckedLock.Stress.Race
import CheckedLock.Stress.Rehearsal
/-! One run of the stress tool: what its words and its settings ask for, the checks, and what the
run leaves behind. -/
namespace CheckedLock
namespace Stress

def toolName : String := "tclock-stress"

def usage : String :=
  "Usage:\n  " ++ toolName ++ " [--config <path.json>] [--threads N] [--iterations N] " ++
  "[--policy inform|ignore|panic]\n\n" ++
  "Options:\n" ++
  "  --config <path>   JSON config (logging, poison_policy, stress)\n" ++
  "  --threads N       Contending threads (overrides stress.threads)\n" ++
  "  --iterations N    Lock cycles per thread (overrides stress.iterations)\n" ++
  "  --policy P        Poison policy used after scenario 3 (overrides poison_policy)\n" ++
  "  --help            Show this message\n"

/-- What is given on the command line replaces what the settings say. -/
def Arguments.override (a : Arguments) (c : Config) : Config where
  logging := c.logging
  policy := a.policy.getD c.policy
  stress := ⟨a.threads.getD c.stress.threads, a.iterations.getD c.stress.iterations⟩

/-- What an invocation comes to. -/
inductive Plan
  /-- the words are wrong; with the option at fault -/
  | refuse (e : ArgError) (word : String)
  | showHelp
  | misconfigured (p : Config.Problem)
  | check (c : Config)
  deriving DecidableEq, Repr

namespace Plan

/-- The word at a position, counted from 1. -/
def wordAt (words : List String) (i : Int) : String :=
  words[(i - 1).toNat]?.getD ""

/-- Settings from the file at `path`, or from the text of an empty object if none is named. -/
def settings (parse : Json.Parser) (envLevel : Option String)
    (read : String → Except OpenError String) (path : String) : Config.Checked Config :=
  if path = "" then Config.ofText parse envLevel Json.emptyText
  else Config.ofContents parse envLevel path (read path)

def make (parse : Json.Parser) (envLevel : Option String)
    (read : String → Except OpenError String) (words : List String) : Plan :=
  match Arguments.parse words with
  | .failure e i => .refuse e (wordAt words i)
  | .ok a =>
    if a.showHelp then .showHelp
    else match settings parse envLevel read a.configPath with
      | .error p => .misconfigured p
      | .ok c => .check (a.override c)

end Plan

/-- Everything the checks say, given how the contention and the race end. -/
def fullReport (policy : PoisonPolicy) (rounds elapsed : Nat) (s : Contention) {n : Nat}
    (r : Race n) : Report :=
  Rehearsal.reentry.report ++ s.report ++ (Rehearsal.poisoning policy).report ++
    r.report rounds elapsed

/-- What a run leaves behind: a code, text on the two streams, and calls of the logger, whose
messages follow the text on the error stream. -/
structure Transcript (κ : Type) where
  exitCode : Nat
  output : String := ""
  complaint : String := ""
  calls : List (Logging.Call κ) := []

/-- The last message of the checks. -/
def summary (failures : Nat) : Level × String :=
  if failures = 0 then (.info, "All checks passed")
  else (.error, toString failures ++ " check(s) failed")

def greeting (h : Host) : Level × String :=
  (.info, toolName ++ " " ++ Host.version ++ " (pid " ++ toString h.pid ++ ")")

/-- A run that gets as far as the checks. -/
def Transcript.ofReport {κ : Type} (h : Host) (c : Config) (r : Report) : Transcript κ where
  exitCode := if r.failures = 0 then 0 else 1
  calls := c.loggingCalls ++
    (greeting h :: r.messages h ++ [summary r.failures]).map (fun m => .log m.1 m.2) ++ [.shutdown]

namespace Plan

/-- Milliseconds between the first two readings of the steady clock. -/
def elapsed (h : Host) : Nat := (h.steady 1 - h.steady 0) / 1000000

/-- The run of a plan; in the checks the workers of the race follow one another. -/
def transcript {κ : Type} (h : Host) : Plan → Transcript κ
  | .refuse e word => {
      exitCode := 2
      output := usage
      complaint := "Error: " ++ e.message ++ " '" ++ word ++ "'\n\n"
      calls := [.shutdown] }
  | .showHelp => { exitCode := 0, output := usage, calls := [.shutdown] }
  | .misconfigured p =>
    { exitCode := 2, complaint := "Config error: " ++ p.message ++ "\n", calls := [.shutdown] }
  | .check c => .ofReport h c (fullReport c.policy c.stress.iterations (elapsed h)
      Contention.outcome (Race.outcome c.stress.threads c.stress.iterations))

end Plan
end Stress
end CheckedLock
