import CheckedLock.Lock.Policy
import CheckedLock.Logging.Machine
import CheckedLock.Files.Store
/-! Settings of the lock tools, and what may be wrong with them. -/
namespace CheckedLock

/-- Which kind of sink the settings ask for. -/
inductive SinkKind
  | console | file
  deriving DecidableEq, Repr

namespace SinkKind

def name : SinkKind → String
  | .console => "console"
  | .file => "file"

def ofName? (s : String) : Option SinkKind :=
  [console, file].find? (·.name == s)

end SinkKind

structure LoggingSettings where
  level : Level := .info
  sink : SinkKind := .console
  file : String := ""
  exclusive : Bool := false
  deriving DecidableEq, Repr

structure StressSettings where
  threads : Nat := 4
  iterations : Nat := 10000
  deriving DecidableEq, Repr

structure Config where
  logging : LoggingSettings := {}
  policy : PoisonPolicy := .inform
  stress : StressSettings := {}
  deriving DecidableEq, Repr

namespace Config

/-- Why settings are refused; keys are written with their section. -/
inductive Problem
  | unreadable (path : String)
  /-- a directory in the place of the file -/
  | directory
  /-- not JSON; the path of the file, if it was one, and where the reader stopped -/
  | malformed (path : Option String) (detail : String)
  /-- JSON that the reader refuses, in its own words -/
  | refused (message : String)
  | notObject
  | loggingNotObject
  | notString (key : String)
  | badLevel (key value : String)
  | badSink (value : String)
  | flockNotBoolean
  | fileMissing
  | badPolicy (value : String)
  | stressNotObject
  | badCount (key : String)
  deriving DecidableEq, Repr

/-- Largest number of threads or iterations. -/
def largestCount : Nat := 100000000

/-- The variable that overrides the level. -/
def levelVariable : String := "TCLOCK_LOG_LEVEL"

namespace Problem

def quoted (s : String) : String := "'" ++ s ++ "'"

def headed (s : String) : String := "Lock config: " ++ s

def fullText : Problem → String
  | .unreadable path => headed ("cannot open file: " ++ path)
  | .directory => "basic_filebuf::underflow error reading the file: " ++
      OpenError.isDirectory.message
  | .malformed none detail => headed ("JSON parse error: " ++ detail)
  | .malformed (some path) detail =>
    headed ("JSON parse error in " ++ quoted path ++ ": " ++ detail)
  | .refused message => message
  | .notObject => headed "top-level JSON value must be an object"
  | .loggingNotObject => headed "'logging' must be an object"
  | .notString key => headed (quoted key ++ " must be a string")
  | .badLevel key value => headed ("invalid " ++ quoted key ++ " = " ++ quoted value ++
      " (must be 'trace', 'debug', 'info', 'warn', 'error' or 'system')")
  | .badSink value => headed ("invalid 'logging.sink' = " ++ quoted value ++
      " (must be 'console' or 'file')")
  | .flockNotBoolean => headed "'logging.flock' must be a boolean"
  | .fileMissing => headed "'logging.file' is required when 'logging.sink' is 'file'"
  | .badPolicy value => headed ("invalid 'poison_policy' = " ++ quoted value ++
      " (must be 'inform', 'ignore' or 'panic')")
  | .stressNotObject => headed "'stress' must be an object"
  | .badCount key => headed (quoted key ++ " must be an integer between 1 and " ++
      toString largestCount)

def message (p : Problem) : String := Terminated.ofText p.fullText

end Problem

/-- What the level and sink settings ask of the logger. -/
def loggingCalls {κ : Type} (c : Config) : List (Logging.Call κ) :=
  [.setLevel c.logging.level,
    match c.logging.sink with
    | .console => .console
    | .file => .logfile c.logging.file c.logging.exclusive,
    .log .debug ("Logging configured: level=" ++ c.logging.level.tag ++ " sink=" ++
      match c.logging.sink with
      | .console => "console"
      | .file => c.logging.file)]

end Config
end CheckedLock
