import Std.Time.DateTime
import CheckedLock.Json.Reader
import CheckedLock.Logging.Session
import CheckedLock.Stress.Invocation
/-! The stress tool as a program: reads its settings, runs the checks, and writes what the run
leaves behind to the streams and to the log file. -/
namespace CheckedLock
namespace Program

open Logging

/-- Lines for one log file, the latest first; `refusal` says why it cannot be opened. -/
structure LogFile where
  refusal : Option String
  lines : List (Record Unit) := []

/-- The console takes every message, and the log file too if it is open. -/
def outlet : Outlet Unit LogFile where
  openLog f _ := match f.refusal with
    | some reason => .error reason
    | none => .ok f
  write f sink r := match sink with
    | .console => .ok f
    | .file _ _ => .ok { f with lines := r :: f.lines }
  flush f _ := .ok f

/-- Why the system refused, in its own words. -/
def reason : IO.Error → String
  | .noFileOrDirectory _ _ details => details
  | .inappropriateType _ _ details => details
  | .permissionDenied _ _ details => details
  | .invalidArgument _ _ details => details
  | .resourceExhausted _ _ details => details
  | .otherError _ details => details
  | e => toString e

/-- The system's number for a directory in the place of a file. -/
def directoryCode : UInt32 := 21

/-- The text of a file; bytes that are no text read as nothing. -/
def readText (path : String) : IO (Except OpenError String) := do
  try
    let bytes ← IO.FS.readBinFile path
    return .ok ((String.fromUTF8? bytes).getD "")
  catch e =>
    match e with
    | .inappropriateType _ code _ =>
      return .error (if code = directoryCode then .isDirectory else .notDirectory)
    | _ => return .error .noEntry

def appendTo (path : String) : IO (Except String IO.FS.Handle) := do
  try
    return .ok (← IO.FS.Handle.mk path .append)
  catch e =>
    return .error (reason e)

/-- The log file that the settings name, opened. -/
def logHandle (c : Config) : IO (Except String (Option IO.FS.Handle)) :=
  match c.logging.sink with
  | .console => return .ok none
  | .file => do return (← appendTo c.logging.file).map some

/-- The machine at hand, with the readings of the steady clock around the race. -/
def host (start finish : Nat) : IO Host := do
  let now ← Std.Time.Timestamp.now
  let thread := (← IO.getTID).toNat
  return { Host.still with
    pid := thread
    threadNumber := fun t => thread + t
    steady := fun i => if i = 0 then start else finish
    now := ⟨now.toNanosecondsSinceUnixEpoch.val⟩ }

/-- Puts out what a run leaves behind. -/
def emit (h : Host) (handle : Except String (Option IO.FS.Handle)) (t : Stress.Transcript Handler) :
    IO UInt32 := do
  let refusal := match handle with
    | .ok _ => none
    | .error reason => some reason
  let s := (Session.start { refusal := refusal }).calls outlet Handler.react t.calls
  (← IO.getStdout).putStr t.output
  (← IO.getStderr).putStr (t.complaint ++ s.errorText h.stamp fun _ => true)
  if let .ok (some file) := handle then
    for r in s.logger.store.lines.reverse do
      file.putStr (r.line h.stamp)
    file.flush
  return t.exitCode.toUInt32

end Program
end CheckedLock

open CheckedLock in
def main (words : List String) : IO UInt32 := do
  let path := match Stress.Arguments.parse words with
    | .ok a => a.configPath
    | .failure _ _ => ""
  let contents ← if path = "" then pure (.error .noEntry) else Program.readText path
  let plan := Stress.Plan.make Json.read (← IO.getEnv Config.levelVariable) (fun _ => contents) words
  let start ← IO.monoNanosNow
  match plan with
  | .check c =>
    let race := Stress.Race.outcome c.stress.threads c.stress.iterations
    unless race.isOver do throw (IO.userError "the race did not end")
    let h ← Program.host start (← IO.monoNanosNow)
    let report := Stress.fullReport c.policy c.stress.iterations (Stress.Plan.elapsed h)
      Stress.Contention.outcome race
    Program.emit h (← Program.logHandle c) (.ofReport h c report)
  | p => Program.emit (← Program.host start start) (.ok none) (p.transcript Host.still)
