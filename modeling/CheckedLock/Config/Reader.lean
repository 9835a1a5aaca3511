import CheckedLock.Config.Basic
import CheckedLock.Json.Value
/-! Settings from a JSON document, its text or a file. The first problem found is the one
reported; the level variable is looked at last. -/
namespace CheckedLock
namespace Config

abbrev Checked := Except Problem

def levelNamed (key value : String) : Checked Level :=
  match Level.ofName? value with
  | some l => .ok l
  | none => .error (.badLevel key value)

def sinkNamed (value : String) : Checked SinkKind :=
  match SinkKind.ofName? value with
  | some s => .ok s
  | none => .error (.badSink value)

def policyNamed (value : String) : Checked PoisonPolicy :=
  match PoisonPolicy.ofName? value with
  | some p => .ok p
  | none => .error (.badPolicy value)

/-- The string at `name`, or `fallback` if there is no such member. -/
def textMember (j : Json) (name key fallback : String) : Checked String :=
  match j.member? name with
  | none => .ok fallback
  | some (.string s) => .ok s
  | some _ => .error (.notString key)

/-- The string at `name`, read as the name of something. -/
def namedMember {α : Type} (j : Json) (name key fallback : String) (named : String → Checked α) :
    Checked α := do
  let value ← textMember j name key fallback
  named value

def flagMember (j : Json) (name : String) (fallback : Bool) : Checked Bool :=
  match j.member? name with
  | none => .ok fallback
  | some (.bool b) => .ok b
  | some _ => .error .flockNotBoolean

/-- An integer from 1 to `largestCount`, as far as a signed number of 64 bits shows it. -/
def countMember (j : Json) (name key : String) (fallback : Nat) : Checked Nat :=
  match j.member? name with
  | none => .ok fallback
  | some member => match member.integer? with
    | none => .error (.badCount key)
    | some n =>
      if Json.signed 64 n < 1 ∨ largestCount < Json.signed 64 n then .error (.badCount key)
      else .ok (Json.signed 32 n).toNat

def loggingSettings (j : Json) : Checked LoggingSettings := do
  unless j.isObject do throw .loggingNotObject
  let l ← namedMember j "level" "logging.level" "info" (levelNamed "logging.level")
  let s ← namedMember j "sink" "logging.sink" "console" sinkNamed
  let file ← textMember j "file" "logging.file" ""
  let exclusive ← flagMember j "flock" false
  if s = .file ∧ file = "" then throw .fileMissing
  return ⟨l, s, file, exclusive⟩

def stressSettings (j : Json) : Checked StressSettings := do
  unless j.isObject do throw .stressNotObject
  let threads ← countMember j "threads" "stress.threads" ({} : StressSettings).threads
  let iterations ← countMember j "iterations" "stress.iterations" ({} : StressSettings).iterations
  return ⟨threads, iterations⟩

/-- Reads a member with `read`, or takes `fallback` if there is none. -/
def section? {α : Type} (j : Json) (name : String) (fallback : α) (read : Json → Checked α) :
    Checked α :=
  match j.member? name with
  | none => .ok fallback
  | some member => read member

def policyMember (j : Json) : Checked PoisonPolicy :=
  namedMember j "poison_policy" "poison_policy" "inform" policyNamed

/-- A variable that is set and not empty replaces the level. -/
def override (envLevel : Option String) (c : Config) : Checked Config :=
  match envLevel with
  | none => .ok c
  | some value =>
    if value = "" then .ok c
    else do
      let l ← levelNamed levelVariable value
      return { c with logging := { c.logging with level := l } }

def ofJson (envLevel : Option String) (j : Json) : Checked Config := do
  unless j.isObject do throw .notObject
  let logging ← section? j "logging" {} loggingSettings
  let policy ← policyMember j
  let stress ← section? j "stress" {} stressSettings
  override envLevel ⟨logging, policy, stress⟩

/-- Settings from a text that is, or is not, the text of a file. -/
def parsed (parse : Json.Parser) (envLevel : Option String) (path : Option String) (s : String) :
    Checked Config :=
  match parse s with
  | .ok j => ofJson envLevel j
  | .error (.malformed detail) => .error (.malformed path detail)
  | .error (.refused message) => .error (.refused message)

def ofText (parse : Json.Parser) (envLevel : Option String) (s : String) : Checked Config :=
  parsed parse envLevel none s

/-- Settings from what reading a file came to. -/
def ofContents (parse : Json.Parser) (envLevel : Option String) (path : String) :
    Except OpenError String → Checked Config
  | .error .isDirectory => .error .directory
  | .error _ => .error (.unreadable path)
  | .ok s => parsed parse envLevel (some path) s

def ofFile {ρ : Type} (parse : Json.Parser) (envLevel : Option String) (files : FileStore ρ)
    (path : String) : Checked Config :=
  ofContents parse envLevel path (files.read path)

end Config
end CheckedLock
