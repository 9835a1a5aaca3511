import CheckedLock.Text.Terminated
/-! A tree of append-only files: looking up a path, opening for append, appending. -/
namespace CheckedLock

/-- Names from the root down. -/
abbrev FilePath := List String

/-- Why a path cannot be opened. -/
inductive OpenError
  | noEntry | notDirectory | isDirectory | nameTooLong
  deriving DecidableEq, Repr

namespace OpenError

def message : OpenError → String
  | .noEntry => "No such file or directory"
  | .notDirectory => "Not a directory"
  | .isDirectory => "Is a directory"
  | .nameTooLong => "File name too long"

end OpenError

inductive Device
  /-- takes every write and keeps nothing -/
  | null
  /-- has no room: every write fails -/
  | full
  deriving DecidableEq, Repr

/-- Text that was there at first, and the entries appended since, the newest first. -/
structure Contents (ρ : Type) where
  text : String
  appended : List ρ
  deriving DecidableEq, Repr

structure FileStore (ρ : Type) where
  directories : List FilePath
  devices : List (FilePath × Device)
  files : List (FilePath × Contents ρ)
  /-- where relative paths start -/
  here : FilePath

/-- What stands at a path. -/
inductive Node
  | directory | device (d : Device) | file
  deriving DecidableEq, Repr

namespace FileStore

variable {ρ : Type}

def longestName : Nat := 255
def longestPath : Nat := 4095

/-- Directories that every root has. -/
def commonDirectories : List FilePath :=
  ["bin", "boot", "dev", "etc", "home", "lib", "lib64", "media", "mnt", "opt", "proc", "root",
    "run", "sbin", "srv", "sys", "tmp", "usr", "var"].map ([·]) ++
  ["bin", "lib", "local", "share"].map (["usr", ·]) ++
  ["lib", "log", "tmp"].map (["var", ·])

/-- A root with the two devices, and an own directory that holds the given files. -/
def initial (files : List (String × String)) : FileStore ρ where
  directories := [] :: commonDirectories ++ [["work"], ["work", "run"]]
  devices := [(["dev", "null"], .null), (["dev", "full"], .full)]
  files := files.map fun f => (["work", "run", f.1], ⟨f.2, []⟩)
  here := ["work", "run"]

def contents? (s : FileStore ρ) (p : FilePath) : Option (Contents ρ) :=
  s.files.lookup p

def node? (s : FileStore ρ) (p : FilePath) : Option Node :=
  if p ∈ s.directories then some .directory
  else match s.devices.lookup p with
    | some d => some (.device d)
    | none => (s.contents? p).map fun _ => .file

/-- The last step of a look-up: a path that names something, or a free name in a directory. -/
inductive Place
  | found (path : FilePath) (node : Node)
  | free (path : FilePath)
  deriving DecidableEq, Repr

def enter (s : FileStore ρ) (dir : FilePath) (name : String) : Except OpenError Place :=
  if s.node? dir ≠ some .directory then .error .notDirectory
  else if name = "." then .ok (.found dir .directory)
  else if name = ".." then .ok (.found dir.dropLast .directory)
  else if longestName < name.utf8ByteSize then .error .nameTooLong
  else match s.node? (dir ++ [name]) with
    | some n => .ok (.found (dir ++ [name]) n)
    | none => .ok (.free (dir ++ [name]))

def walk (s : FileStore ρ) (dir : FilePath) : List String → Except OpenError Place
  | [] => .ok (.found dir .directory)
  | [name] => s.enter dir name
  | name :: rest => match s.enter dir name with
    | .error e => .error e
    | .ok (.free _) => .error .noEntry
    | .ok (.found p _) => walk s p rest

def names (path : List Char) : List String :=
  ((path.splitOn '/').filter (· ≠ [])).map String.ofList

/-- Looks up the names of a path; `adjust` gets them first. -/
def follow (s : FileStore ρ) (adjust : List String → List String) (path : List Char) :
    Except OpenError Place :=
  if path = [] then .error .noEntry
  else if longestPath < (String.ofList path).utf8ByteSize then .error .nameTooLong
  else s.walk (if path.head? = some '/' then [] else s.here) (adjust (names path))

/-- A slash at the end is for directories only. -/
def slashed (path : List Char) : Bool := path.getLast? = some '/'

/-- Looks a path up that names something. -/
def find (s : FileStore ρ) (path : String) : Except OpenError (FilePath × Node) :=
  let cs := Terminated.ofChars path.toList
  match s.follow id cs with
  | .error e => .error e
  | .ok (.free _) => .error .noEntry
  | .ok (.found p n) => if slashed cs ∧ n ≠ .directory then .error .notDirectory else .ok (p, n)

/-- Looks a path up that may be new. Of a path that ends in a slash only the directory around it is
looked up. -/
def findOrFree (s : FileStore ρ) (path : String) : Except OpenError Place :=
  let cs := Terminated.ofChars path.toList
  s.follow (fun names => if slashed cs then names.dropLast ++ ["."] else names) cs

/-- Opens for append; a free name becomes an empty file. -/
def openAppend (s : FileStore ρ) (path : String) : Except OpenError (FileStore ρ) :=
  match s.findOrFree path with
  | .error e => .error e
  | .ok (.found _ .directory) => .error .isDirectory
  | .ok (.found _ _) => .ok s
  | .ok (.free p) => .ok { s with files := s.files ++ [(p, ⟨"", []⟩)] }

/-- The file's contents as text; a device reads as nothing or as a blank. -/
def read (s : FileStore ρ) (path : String) : Except OpenError String :=
  match s.find path with
  | .error e => .error e
  | .ok (_, .directory) => .error .isDirectory
  | .ok (_, .device .null) => .ok ""
  | .ok (_, .device .full) => .ok "\x00"
  | .ok (p, .file) => match s.contents? p with
    | some c => .ok c.text
    | none => .error .noEntry

def extend (p : FilePath) (r : ρ) : List (FilePath × Contents ρ) → List (FilePath × Contents ρ)
  | [] => []
  | f :: rest =>
    if f.1 = p then (f.1, { f.2 with appended := r :: f.2.appended }) :: rest
    else f :: extend p r rest

/-- Appends to a path that was opened before; `none` if the write fails. -/
def append (s : FileStore ρ) (path : String) (r : ρ) : Option (FileStore ρ) :=
  match s.find path with
  | .ok (p, .file) => some { s with files := extend p r s.files }
  | .ok (_, .device .null) => some s
  | _ => none

/-- The files directly in the own directory, by name. -/
def own (s : FileStore ρ) : List (String × Contents ρ) :=
  s.files.filterMap fun f =>
    if f.1.dropLast = s.here then f.1.getLast?.map (·, f.2) else none

end FileStore
end CheckedLock
