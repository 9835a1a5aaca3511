import CheckedLock.Config.Reader
import Mathlib.Data.List.Forall2
import Mathlib.Tactic.SplitIfs

/-! What settings a document may hold. Each item is described by what may stand there, however it is
read; a reader is right about some items if it takes what is in order and names the first item that
is not. -/
namespace CheckedLock

/-! ### Words in any letter case -/

/-- The letters of `name`, each as it is or as a capital. -/
def Spells (value name : String) : Prop :=
  List.Forall₂ (fun c d => c = d ∨ c = d.toUpper) value.toList name.toList

theorem toLower_eq_iff {c d : Char} (hd : d.isLower = true) :
    c.toLower = d ↔ c = d ∨ c = d.toUpper := by
  have ha : 'a'.val.toNat = 97 := rfl
  have hz : 'z'.val.toNat = 122 := rfl
  have hA : 'A'.val.toNat = 65 := rfl
  have hZ : 'Z'.val.toNat = 90 := rfl
  have hlt := c.val.toNat_lt
  have hrange : (decide ('a'.val ≤ d.val) && decide (d.val ≤ 'z'.val)) = true := hd
  simp only [Bool.and_eq_true, decide_eq_true_eq, UInt32.le_iff_toNat_le, ha, hz] at hrange
  unfold Char.toLower Char.toUpper
  split_ifs with h₁ h₂ h₂ <;>
    simp only [ge_iff_le, UInt32.le_iff_toNat_le, ha, hz, hA, hZ] at h₁ h₂ <;>
    simp only [Char.ext_iff, ← UInt32.toNat_inj, UInt32.toNat_add, UInt32.toNat_sub, ha, hA] <;>
    omega

theorem map_toLower_eq_iff {xs ys : List Char} (hys : ∀ d ∈ ys, d.isLower = true) :
    xs.map Char.toLower = ys ↔ List.Forall₂ (fun c d => c = d ∨ c = d.toUpper) xs ys := by
  induction xs generalizing ys with
  | nil => cases ys <;> simp
  | cons c xs ih =>
    cases ys with
    | nil => simp
    | cons d ys =>
      rw [List.map_cons, List.cons_eq_cons, List.forall₂_cons,
        toLower_eq_iff (hys d List.mem_cons_self),
        ih fun e he => hys e (List.mem_cons_of_mem d he)]

theorem spells_iff {value name : String} (hname : name.toList.all Char.isLower = true) :
    Spells value name ↔ value.map Char.toLower = name := by
  rw [Spells, ← map_toLower_eq_iff (List.all_eq_true.mp hname), ← String.toList_inj,
    String.toList_map]

namespace Config

/-- Which level a word names. -/
inductive NamesLevel (value : String) : Level → Prop
  | trace (h : Spells value "trace") : NamesLevel value .trace
  | debug (h : Spells value "debug") : NamesLevel value .debug
  | info (h : Spells value "info") : NamesLevel value .info
  | warn (h : Spells value "warn") : NamesLevel value .warn
  | warning (h : Spells value "warning") : NamesLevel value .warn
  | error (h : Spells value "error") : NamesLevel value .error
  | system (h : Spells value "system") : NamesLevel value .system

theorem namesLevel_iff {value : String} {l : Level} :
    NamesLevel value l ↔ Level.ofName? value = some l := by
  have hlower : ∀ n ∈ Level.named, n.1.toList.all Char.isLower = true := by decide
  constructor
  · intro h
    cases h with
    | _ h =>
      rw [spells_iff (by decide)] at h
      rw [Level.ofName?, h]
      rfl
  · intro h
    obtain ⟨l₁, l₂, hsplit, -⟩ := List.lookup_eq_some_iff.mp h
    have hmem : (value.map Char.toLower, l) ∈ Level.named := by
      rw [hsplit]
      exact List.mem_append_right _ List.mem_cons_self
    have hspells : Spells value (value.map Char.toLower) := (spells_iff (hlower _ hmem)).mpr rfl
    simp only [Level.named, List.mem_cons, Prod.mk.injEq, List.not_mem_nil, or_false] at hmem
    obtain ⟨hn, rfl⟩ | ⟨hn, rfl⟩ | ⟨hn, rfl⟩ | ⟨hn, rfl⟩ | ⟨hn, rfl⟩ | ⟨hn, rfl⟩ | ⟨hn, rfl⟩ :=
      hmem <;> rw [hn] at hspells
    · exact .trace hspells
    · exact .debug hspells
    · exact .info hspells
    · exact .warn hspells
    · exact .warning hspells
    · exact .error hspells
    · exact .system hspells

/-! ### What may stand in a document -/

variable {α β : Type}

def ReadsText (v : Json) (s : String) : Prop := v = .string s

def ReadsFlag (v : Json) (b : Bool) : Prop := v = .bool b

def ReadsLevel (v : Json) (l : Level) : Prop := ∃ s, v = .string s ∧ NamesLevel s l

def ReadsSink (v : Json) : SinkKind → Prop
  | .console => v = .string "console"
  | .file => v = .string "file"

def ReadsPolicy (v : Json) : PoisonPolicy → Prop
  | .inform => v = .string "inform"
  | .ignore => v = .string "ignore"
  | .panic => v = .string "panic"

def ReadsCount (v : Json) (n : Nat) : Prop :=
  v = .number (.integer n) ∧ 1 ≤ n ∧ n ≤ 100000000

/-- A member of a section; there is none if there is no such section or it is no object. -/
def setting? (j : Json) (section_ key : String) : Option Json :=
  (j.member? section_).bind (Json.member? key)

/-- What stands here, if anything does, can be read. -/
def Sound (v? : Option Json) (reads : Json → α → Prop) : Prop := ∀ v, v? = some v → ∃ x, reads v x

/-- What stands here, or the default. -/
def Given (v? : Option Json) (reads : Json → α → Prop) (default x : α) : Prop :=
  match v? with
  | none => x = default
  | some v => reads v x

/-- What may be wrong with settings, each with its own report. -/
inductive Item
  | topLevel | logging | level | sink | file | flock | missingFile | policy | stress | threads
  | iterations | levelVariable
  deriving DecidableEq, Repr

namespace Item

/-- In the order in which they are looked at. -/
def all : List Item :=
  [topLevel, logging, level, sink, file, flock, missingFile, policy, stress, threads, iterations,
    levelVariable]

def ofLogging : List Item := [logging, level, sink, file, flock, missingFile]

def ofStress : List Item := [stress, threads, iterations]

theorem mem_all (i : Item) : i ∈ all := by cases i <;> decide

/-- What a report says of the item first. -/
def subject : Item → String
  | topLevel => "top-level JSON value"
  | logging => "'logging'"
  | level => "'logging.level'"
  | sink => "'logging.sink'"
  | file => "'logging.file' must be a string"
  | flock => "'logging.flock'"
  | missingFile => "'logging.file' is required"
  | policy => "'poison_policy'"
  | stress => "'stress'"
  | threads => "'stress.threads'"
  | iterations => "'stress.iterations'"
  | levelVariable => "'TCLOCK_LOG_LEVEL'"

def NamedIn (i : Item) (message : String) : Prop :=
  ∃ rest, message = "Lock config: " ++ i.subject ++ rest ∨
    message = "Lock config: invalid " ++ i.subject ++ rest

end Item

/-- The item is in order, whatever the others are. -/
def InOrder (env : Option String) (j : Json) : Item → Prop
  | .topLevel => ∃ members, j = .object members
  | .logging => ∀ v, j.member? "logging" = some v → ∃ members, v = .object members
  | .level => Sound (setting? j "logging" "level") ReadsLevel
  | .sink => Sound (setting? j "logging" "sink") ReadsSink
  | .file => Sound (setting? j "logging" "file") ReadsText
  | .flock => Sound (setting? j "logging" "flock") ReadsFlag
  | .missingFile => setting? j "logging" "sink" = some (.string "file") →
    ∃ s, setting? j "logging" "file" = some (.string s) ∧ s ≠ ""
  | .policy => Sound (j.member? "poison_policy") ReadsPolicy
  | .stress => ∀ v, j.member? "stress" = some v → ∃ members, v = .object members
  | .threads => Sound (setting? j "stress" "threads") ReadsCount
  | .iterations => Sound (setting? j "stress" "iterations") ReadsCount
  | .levelVariable => ∀ s, env = some s → s ≠ "" → ∃ l, NamesLevel s l

/-- Each field has what stands in the document, or its default; the variable goes before. -/
structure Follows (env : Option String) (j : Json) (c : Config) : Prop where
  overridden : ∀ s, env = some s → s ≠ "" → NamesLevel s c.logging.level
  level : env = none ∨ env = some "" →
    Given (setting? j "logging" "level") ReadsLevel .info c.logging.level
  sink : Given (setting? j "logging" "sink") ReadsSink .console c.logging.sink
  file : Given (setting? j "logging" "file") ReadsText "" c.logging.file
  exclusive : Given (setting? j "logging" "flock") ReadsFlag false c.logging.exclusive
  policy : Given (j.member? "poison_policy") ReadsPolicy .inform c.policy
  threads : Given (setting? j "stress" "threads") ReadsCount 4 c.stress.threads
  iterations : Given (setting? j "stress" "iterations") ReadsCount 10000 c.stress.iterations

/-- Of these items, the first that is not in order. -/
def FirstWrong (env : Option String) (j : Json) (is : List Item) (i : Item) : Prop :=
  ∃ before after, is = before ++ i :: after ∧ (∀ i' ∈ before, InOrder env j i') ∧ ¬ InOrder env j i

/-- A reader is right about these items: it finds what is good if all are in order, and else
reports the first that is not. -/
def Vets (env : Option String) (j : Json) (is : List Item) (good : α → Prop) : Checked α → Prop
  | .ok x => (∀ i ∈ is, InOrder env j i) ∧ good x
  | .error p => ∃ i, FirstWrong env j is i ∧ i.NamedIn p.message

variable {env : Option String} {j : Json} {is is' : List Item} {good : α → Prop} {good' : β → Prop}

theorem FirstWrong.not_inOrder {i : Item} (h : FirstWrong env j is i) : ¬ InOrder env j i := by
  obtain ⟨before, after, -, -, hi⟩ := h
  exact hi

theorem FirstWrong.append_right {i : Item} (h : FirstWrong env j is i) :
    FirstWrong env j (is ++ is') i := by
  obtain ⟨before, after, rfl, hbefore, hi⟩ := h
  exact ⟨before, after ++ is', by simp, hbefore, hi⟩

theorem FirstWrong.append_left {i : Item} (h : FirstWrong env j is' i)
    (his : ∀ i ∈ is, InOrder env j i) : FirstWrong env j (is ++ is') i := by
  obtain ⟨before, after, rfl, hbefore, hi⟩ := h
  exact ⟨is ++ before, after, by simp, List.forall_mem_append.mpr ⟨his, hbefore⟩, hi⟩

/-- One reader after the other. -/
theorem Vets.bind {r : Checked α} {f : α → Checked β} (h : Vets env j is good r)
    (hf : ∀ x, good x → Vets env j is' good' (f x)) : Vets env j (is ++ is') good' (r >>= f) := by
  cases r with
  | error p =>
    obtain ⟨i, hi, hp⟩ := h
    exact ⟨i, hi.append_right, hp⟩
  | ok x =>
    obtain ⟨his, hx⟩ := h
    have hrest := hf x hx
    show Vets env j (is ++ is') good' (f x)
    cases hfx : f x with
    | error p =>
      rw [hfx] at hrest
      obtain ⟨i, hi, hp⟩ := hrest
      exact ⟨i, hi.append_left his, hp⟩
    | ok y =>
      rw [hfx] at hrest
      exact ⟨List.forall_mem_append.mpr ⟨his, hrest.1⟩, hrest.2⟩

theorem Vets.cons {i : Item} {r : Checked α} {f : α → Checked β} (h : Vets env j [i] good r)
    (hf : ∀ x, good x → Vets env j is' good' (f x)) : Vets env j (i :: is') good' (r >>= f) :=
  h.bind hf

/-- A reader of one member. -/
theorem Vets.of_member {i : Item} {r : Checked α} {v? : Option Json} {reads : Json → α → Prop}
    {default : α} (hi : InOrder env j i ↔ Sound v? reads)
    (hok : ∀ x, r = .ok x → Given v? reads default x)
    (herror : ∀ p, r = .error p → (∃ v, v? = some v ∧ ∀ x, ¬ reads v x) ∧ i.NamedIn p.message) :
    Vets env j [i] (Given v? reads default) r := by
  cases hr : r with
  | ok x =>
    have hgiven := hok x hr
    refine ⟨List.forall_mem_singleton.mpr (hi.mpr ?_), hgiven⟩
    rintro v rfl
    exact ⟨x, hgiven⟩
  | error p =>
    obtain ⟨⟨v, hv, hnone⟩, hp⟩ := herror p hr
    refine ⟨i, ⟨[], [], rfl, nofun, fun hsound => ?_⟩, hp⟩
    obtain ⟨x, hx⟩ := hi.mp hsound v hv
    exact hnone x hx

end Config
end CheckedLock
