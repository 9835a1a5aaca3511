import CheckedLock.Json.Reader
import CheckedLock.Stress.Invocation
import CheckedLock.Proofs.Config.Validation
import CheckedLock.Proofs.Logging.Untouched
import CheckedLock.Proofs.Stress.CommandLine

/-! What goes before what in the stress tool. Wrong words go before a request for help, that goes
before wrong settings, and each of these ends the run before anything is checked. Else the words go
before the document and the variable before its level. -/
namespace CheckedLock
namespace Stress

open Config

/-- The document of the settings: what the file says, or an empty object if no file is named. -/
inductive Loads (parse : Json.Parser) (read : String → Except OpenError String) :
    String → Json → Prop
  | unnamed : Loads parse read "" (.object [])
  | file {path text : String} {j : Json} : path ≠ "" → read path = .ok text →
    parse text = .ok j → Loads parse read path j

/-- A value by its name, if one is given, or from elsewhere. -/
def Chosen {α : Type} (name? : Option String) (names : String → α → Prop) (otherwise : α → Prop)
    (x : α) : Prop :=
  match name? with
  | some name => names name x
  | none => otherwise x

/-- The settings of a run: of several sources for a field the first one counts. -/
structure Takes (env : Option String) (j : Json) (items : List Item) (c : Config) : Prop where
  threads : Chosen (latest? .threads items) WritesCount
    (Given (setting? j "stress" "threads") ReadsCount 4) c.stress.threads
  iterations : Chosen (latest? .iterations items) WritesCount
    (Given (setting? j "stress" "iterations") ReadsCount 10000) c.stress.iterations
  policy : Chosen (latest? .policy items) (fun name p => name = p.name)
    (Given (j.member? "poison_policy") ReadsPolicy .inform) c.policy
  /-- An empty variable is none. -/
  level : Chosen (env.filter (· ≠ "")) NamesLevel
    (Given (setting? j "logging" "level") ReadsLevel .info) c.logging.level
  sink : Given (setting? j "logging" "sink") ReadsSink .console c.logging.sink
  file : Given (setting? j "logging" "file") ReadsText "" c.logging.file
  exclusive : Given (setting? j "logging" "flock") ReadsFlag false c.logging.exclusive

/-- The path in the last item that names one. -/
def configPath (items : List Item) : String := (latest? .config items).getD ""

namespace Plan

end Plan

/-! ### Loading -/

variable {parse : Json.Parser} {env : Option String} {read : String → Except OpenError String}
  {path : String} {words : List String} {items : List Item}

theorem Loads.unique {j j' : Json} (h : Loads parse read path j)
    (h' : Loads parse read path j') : j = j' := by
  cases h with
  | unnamed =>
    cases h' with
    | unnamed => rfl
    | file hne => exact absurd rfl hne
  | file hne hread hj =>
    cases h' with
    | unnamed => exact absurd rfl hne
    | file _ hread' hj' =>
      obtain rfl := Except.ok.inj (hread.symm.trans hread')
      exact Except.ok.inj (hj.symm.trans hj')

theorem chosen_getD {α : Type} {name? : Option String} {names : String → α → Prop}
    {otherwise : α → Prop} {given : Option α} {x : α} (h : Option.Rel names name? given)
    (hx : otherwise x) : Chosen name? names otherwise (given.getD x) := by
  cases h with
  | none => exact hx
  | some h => exact h

/-- The words go before the settings, and in these the variable before the document. -/
theorem Says.takes {a : Arguments} {j : Json} {c : Config} (ha : Says items a)
    (hc : Follows env j c) : Takes env j items (a.override c) where
  threads := chosen_getD ha.threads hc.threads
  iterations := chosen_getD ha.iterations hc.iterations
  policy := chosen_getD ha.policy hc.policy
  level := by
    show Chosen _ _ _ c.logging.level
    cases env with
    | none => exact hc.level (.inl rfl)
    | some s =>
      by_cases hs : s = ""
      · subst hs
        exact hc.level (.inr rfl)
      · have hfilter : (some s).filter (· ≠ "") = some s := by simp [Option.filter, hs]
        rw [hfilter]
        exact hc.overridden s rfl hs
  sink := hc.sink
  file := hc.file
  exclusive := hc.exclusive

namespace Plan

/-- Help goes before settings that cannot be read, and wrong words go before help. A number without
room in floating point ends the run, whatever it stands for. -/
example : make Json.read (some "loud") (fun _ => .error .noEntry) ["--config", "x", "-h"] =
      .showHelp ∧
    make Json.read none (fun _ => .error .noEntry) ["-h", "--threads", "0"] =
      .refuse .invalidNumber "--threads" ∧
    make Json.read none (fun _ => .ok "\x7b\"x\": [1e999]\x7d") ["--config", "x"] =
      .misconfigured
        (.refused "[json.exception.out_of_range.406] number overflow parsing '1e999'") := by
  decide +kernel

end Plan
end Stress
end CheckedLock
