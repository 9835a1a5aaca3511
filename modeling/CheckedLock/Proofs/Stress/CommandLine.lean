import CheckedLock.Stress.Arguments
import Mathlib.Data.List.Induction
import Mathlib.Data.Nat.Digits.Defs
import Mathlib.Data.Option.Basic

/-! The grammar of the command line. It is read from left to right as items of one or two words;
what it says is what the last item of each option says, and the first item that is none is reported
with the position of its first word. -/
namespace CheckedLock
namespace Stress

/-! ### Numbers -/

/-- A number in decimal digits, and nothing else. -/
structure Writes (s : String) (n : Nat) : Prop where
  nonempty : s ≠ ""
  digits : ∀ c ∈ s.toList, '0' ≤ c ∧ c ≤ '9'
  value : Nat.ofDigits 10 (s.toList.reverse.map fun c => c.toNat - '0'.toNat) = n

/-- A positive number of 32 bits, in decimal digits. -/
def WritesCount (s : String) (n : Nat) : Prop := Writes s n ∧ 1 ≤ n ∧ n ≤ 2147483647

variable {s : String} {n : Nat}

theorem isDigit_iff {c : Char} : c.isDigit = true ↔ '0' ≤ c ∧ c ≤ '9' := by
  simp [Char.isDigit, Char.le_def, UInt32.le_iff_toNat_le]

/-- The digits are read from the left. -/
theorem foldl_digits (cs : List Char) :
    cs.foldl (fun n c => 10 * n + (c.toNat - '0'.toNat)) 0 =
      Nat.ofDigits 10 (cs.reverse.map fun c => c.toNat - '0'.toNat) := by
  rw [Nat.ofDigits_eq_foldr, List.foldr_map, List.foldr_reverse]
  congr 1
  funext n c
  exact Nat.add_comm _ _

theorem decimal?_eq_some : decimal? s.toList = some n ↔ Writes s n := by
  have hempty : s = "" ↔ s.toList = [] := String.toList_eq_nil_iff.symm
  constructor
  · intro h
    unfold decimal? at h
    split at h
    · cases h
    next hne =>
    split at h
    · next hall =>
      obtain rfl := Option.some.inj h
      refine ⟨fun he => hne (hempty.mp he), fun c hc => ?_, (foldl_digits _).symm⟩
      exact isDigit_iff.mp (List.all_eq_true.mp hall c hc)
    · cases h
  · rintro ⟨hne, hdigits, hvalue⟩
    unfold decimal?
    split
    · next he => exact absurd (hempty.mpr he) hne
    · have hall : s.toList.all Char.isDigit = true :=
        List.all_eq_true.mpr fun c hc => isDigit_iff.mpr (hdigits c hc)
      rw [if_pos hall, foldl_digits, hvalue]

theorem parsePositive_eq_some : parsePositive s = some n ↔ WritesCount s n := by
  unfold parsePositive WritesCount
  rw [← decimal?_eq_some]
  cases decimal? s.toList with
  | none => simp
  | some k =>
    by_cases hk : 1 ≤ k ∧ k ≤ largest
    · simp only [hk, and_self, if_true, Option.some.injEq]
      refine ⟨?_, fun h => h.1⟩
      rintro rfl
      exact ⟨rfl, hk⟩
    · simp only [hk, if_false, reduceCtorEq, Option.some.injEq, false_iff]
      rintro ⟨rfl, hk'⟩
      exact hk hk'

/-! ### Items -/

/-- The word of an option. -/
def Setting.word : Setting → String
  | .config => "--config"
  | .threads => "--threads"
  | .iterations => "--iterations"
  | .policy => "--policy"

/-- What can follow the word. -/
def Setting.Accepts : Setting → String → Prop
  | .config, _ => True
  | .threads, value | .iterations, value => ∃ n, WritesCount value n
  | .policy, value => ∃ p : PoisonPolicy, value = p.name

/-- What is said by one word or two. -/
inductive Item
  | help (word : String) (h : word = "--help" ∨ word = "-h")
  /-- The value is taken as it is, also if it looks like an option. -/
  | given (t : Setting) (value : String)

namespace Item

def words : Item → List String
  | .help word _ => [word]
  | .given t value => [t.word, value]

def Valid : Item → Prop
  | .help _ _ => True
  | .given t value => t.Accepts value

def isHelp : Item → Bool
  | .help _ _ => true
  | .given _ _ => false

/-- The value, if the item is of this option. -/
def valueOf? (t : Setting) : Item → Option String
  | .help _ _ => none
  | .given u value => if u = t then some value else none

end Item

/-- The value in the last item of an option. -/
def latest? (t : Setting) (items : List Item) : Option String :=
  (items.filterMap (Item.valueOf? t)).getLast?

/-- What the items say together. -/
structure Says (items : List Item) (a : Arguments) : Prop where
  showHelp : a.showHelp = items.any Item.isHelp
  configPath : a.configPath = (latest? .config items).getD ""
  threads : Option.Rel WritesCount (latest? .threads items) a.threads
  iterations : Option.Rel WritesCount (latest? .iterations items) a.iterations
  policy : Option.Rel (fun value (p : PoisonPolicy) => value = p.name) (latest? .policy items)
    a.policy

/-- What does not begin with an item, whatever follows. -/
inductive Bad : List String → ArgError → Prop
  | unknown {word : String} {rest : List String} : word ≠ "--help" → word ≠ "-h" →
    (∀ t : Setting, word ≠ t.word) → Bad (word :: rest) .unknownArgument
  | missing (t : Setting) : Bad [t.word] .missingValue
  | number {t : Setting} {value : String} {rest : List String} : t = .threads ∨ t = .iterations →
    ¬ t.Accepts value → Bad (t.word :: value :: rest) .invalidNumber
  | policy {value : String} {rest : List String} : ¬ Setting.policy.Accepts value →
    Bad (Setting.policy.word :: value :: rest) .invalidPolicy

/-- The words begin with these items. -/
structure Begins (words : List String) (items : List Item) (rest : List String) : Prop where
  words_eq : words = items.flatMap Item.words ++ rest
  valid : ∀ i ∈ items, i.Valid

/-- What the command line comes to. -/
structure Understood (words : List String) : Prop where
  succeeds : (∃ a, Arguments.parse words = .ok a) ↔ ∃ items, Begins words items []
  accepted : ∀ a, Arguments.parse words = .ok a ↔ ∃ items, Begins words items [] ∧ Says items a
  /-- The words before the first one that is wrong are counted, and so is the program's name. -/
  rejected : ∀ e i, Arguments.parse words = .failure e i ↔
    ∃ items rest, Begins words items rest ∧ Bad rest e ∧
      i = 1 + ((items.flatMap Item.words).length : Int)
  /-- The position is that of a word. -/
  position : ∀ e i, Arguments.parse words = .failure e i → 1 ≤ i ∧ i < words.length + 1
  /-- Behind words that are in order others are read as if they were alone. -/
  composes : ∀ a, Arguments.parse words = .ok a → ∀ more e i,
    Arguments.parse (words ++ more) = .failure e (i + words.length) ↔
      Arguments.parse more = .failure e i

theorem Item.length_words_pos (x : Item) : 0 < x.words.length := by cases x <;> simp [Item.words]

theorem Begins.cons {words rest : List String} {items : List Item} {x : Item} (hx : x.Valid)
    (h : Begins words items rest) : Begins (x.words ++ words) (x :: items) rest where
  words_eq := by rw [h.words_eq, List.flatMap_cons, List.append_assoc]
  valid := List.forall_mem_cons.mpr ⟨hx, h.valid⟩

namespace Arguments

variable {a b : Arguments} {i : Nat} {rest words : List String} {items : List Item} {e : ArgError}
  {t : Setting} {value : String}

theorem isHelp_iff {word : String} : isHelp word = true ↔ word = "--help" ∨ word = "-h" := by
  simp [isHelp]

theorem isHelp_word (t : Setting) : isHelp t.word = false := by cases t <;> rfl

theorem ofWord?_word (t : Setting) : Setting.ofWord? t.word = some t := by cases t <;> rfl

theorem ofWord?_eq_none {word : String} : Setting.ofWord? word = none ↔ ∀ t : Setting,
    word ≠ t.word := by
  constructor
  · rintro h t rfl
    rw [ofWord?_word] at h
    cases h
  · intro h
    unfold Setting.ofWord?
    split
    · exact absurd rfl (h .config)
    · exact absurd rfl (h .threads)
    · exact absurd rfl (h .iterations)
    · exact absurd rfl (h .policy)
    · rfl

theorem word_of_ofWord? {word : String} (h : Setting.ofWord? word = some t) : word = t.word := by
  unfold Setting.ofWord? at h
  split at h
  · obtain rfl := Option.some.inj h; rfl
  · obtain rfl := Option.some.inj h; rfl
  · obtain rfl := Option.some.inj h; rfl
  · obtain rfl := Option.some.inj h; rfl
  · cases h

/-- What an item adds to what was said before. -/
def take? (a : Arguments) : Item → Option Arguments
  | .help _ _ => some { a with showHelp := true }
  | .given t value => a.set? value t

theorem set?_isSome_iff : (a.set? value t).isSome = true ↔ t.Accepts value := by
  cases t with
  | config => simp [set?, Setting.Accepts]
  | threads | iterations =>
    simp only [set?, Setting.Accepts, Option.isSome_map, Option.isSome_iff_exists,
      parsePositive_eq_some]
  | policy =>
    simp only [set?, Setting.Accepts, Option.isSome_map, Option.isSome_iff_exists,
      PoisonPolicy.ofName?_eq_some]

theorem take?_isSome_iff {x : Item} : (a.take? x).isSome = true ↔ x.Valid := by
  cases x with
  | help => simp [take?, Item.Valid]
  | given t value => exact set?_isSome_iff

theorem parseFrom_item {x : Item} (h : a.take? x = some b) :
    parseFrom i a (x.words ++ rest) = parseFrom (i + x.words.length) b rest := by
  cases x with
  | help word hw =>
    obtain rfl := Option.some.inj h
    simp [Item.words, parseFrom, isHelp_iff.mpr hw]
  | given t value =>
    have hset : a.set? value t = some b := h
    simp [Item.words, parseFrom, isHelp_word, ofWord?_word, hset]

theorem parseFrom_bad (h : Bad rest e) : parseFrom i a rest = .failure e i := by
  cases h with
  | @unknown word rest h₁ h₂ hword =>
    have hhelp : isHelp word = false := Bool.eq_false_iff.mpr (by simp [isHelp_iff, h₁, h₂])
    simp [parseFrom, hhelp, ofWord?_eq_none.mpr hword]
  | missing t => simp [parseFrom, isHelp_word, ofWord?_word]
  | @number t value rest ht hv =>
    have hset : a.set? value t = none := by
      rwa [← Option.not_isSome_iff_eq_none, set?_isSome_iff]
    obtain rfl | rfl := ht <;> simp [parseFrom, isHelp_word, ofWord?_word, hset, Setting.complaint]
  | @policy value rest hv =>
    have hset : a.set? value .policy = none := by
      rwa [← Option.not_isSome_iff_eq_none, set?_isSome_iff]
    simp [parseFrom, isHelp_word, ofWord?_word, hset, Setting.complaint]

/-- Words begin with an item or are bad. -/
theorem next_item (words : List String) : words = [] ∨ (∃ e, Bad words e) ∨
    ∃ (x : Item) (rest : List String), words = x.words ++ rest ∧ x.Valid := by
  cases words with
  | nil => exact .inl rfl
  | cons word rest =>
    right
    by_cases hhelp : word = "--help" ∨ word = "-h"
    · exact .inr ⟨.help word hhelp, rest, rfl, trivial⟩
    cases ht : Setting.ofWord? word with
    | none =>
      obtain ⟨h₁, h₂⟩ := not_or.mp hhelp
      exact .inl ⟨_, .unknown h₁ h₂ (ofWord?_eq_none.mp ht)⟩
    | some t =>
      obtain rfl := word_of_ofWord? ht
      cases rest with
      | nil => exact .inl ⟨_, .missing t⟩
      | cons value rest =>
        by_cases hv : t.Accepts value
        · exact .inr ⟨.given t value, rest, rfl, hv⟩
        · left
          cases t with
          | config => exact absurd trivial hv
          | threads => exact ⟨_, .number (.inl rfl) hv⟩
          | iterations => exact ⟨_, .number (.inr rfl) hv⟩
          | policy => exact ⟨_, .policy hv⟩

/-- Words are items up to the end or up to a bad one. -/
theorem exists_items (words : List String) : ∃ items rest, Begins words items rest ∧
    (rest = [] ∨ ∃ e, Bad rest e) := by
  induction hlen : words.length using Nat.strong_induction_on generalizing words with
  | _ k ih =>
  obtain rfl | hbad | ⟨x, more, rfl, hx⟩ := next_item words
  · exact ⟨[], [], ⟨rfl, nofun⟩, .inl rfl⟩
  · exact ⟨[], words, ⟨rfl, nofun⟩, .inr hbad⟩
  · have hlt : more.length < k := by
      have hpos := x.length_words_pos
      rw [List.length_append] at hlen
      omega
    obtain ⟨items, rest, hb, hend⟩ := ih more.length hlt more rfl
    exact ⟨x :: items, rest, .cons hx hb, hend⟩

/-- Valid items are all taken, and the words behind them are read as words from there on. -/
theorem exists_taken (hv : ∀ x ∈ items, x.Valid) (a : Arguments) :
    ∃ b, items.foldlM take? a = some b ∧ ∀ i rest,
      parseFrom i a (items.flatMap Item.words ++ rest) =
        parseFrom (i + (items.flatMap Item.words).length) b rest := by
  induction items generalizing a with
  | nil => exact ⟨a, rfl, fun _ _ => rfl⟩
  | cons x items ih =>
    obtain ⟨hx, hitems⟩ := List.forall_mem_cons.mp hv
    obtain ⟨c, hc⟩ := Option.isSome_iff_exists.mp (take?_isSome_iff (a := a).mpr hx)
    obtain ⟨b, hb, hparse⟩ := ih hitems c
    refine ⟨b, by simpa [hc] using hb, fun i rest => ?_⟩
    rw [List.flatMap_cons, List.append_assoc, parseFrom_item hc, hparse, List.length_append,
      Nat.add_assoc]

theorem parseFrom_ok_iff : parseFrom i a words = .ok b ↔
    ∃ items, Begins words items [] ∧ items.foldlM take? a = some b := by
  constructor
  · intro h
    obtain ⟨items, rest, hb, hend⟩ := exists_items words
    obtain ⟨c, hc, hparse⟩ := exists_taken hb.valid a
    rw [hb.words_eq, hparse] at h
    obtain rfl | ⟨e, hbad⟩ := hend
    · rw [parseFrom] at h
      obtain rfl := Outcome.ok.inj h
      exact ⟨items, hb, hc⟩
    · rw [parseFrom_bad hbad] at h
      cases h
  · rintro ⟨items, hb, hc⟩
    obtain ⟨d, hd, hparse⟩ := exists_taken hb.valid a
    obtain rfl := Option.some.inj (hc.symm.trans hd)
    rw [hb.words_eq, hparse, parseFrom]

/-- Which error is found, and where, does not depend on what was said before. -/
theorem parseFrom_failure_iff {k : Int} : parseFrom i a words = .failure e k ↔
    ∃ items rest, Begins words items rest ∧ Bad rest e ∧
      k = i + ((items.flatMap Item.words).length : Int) := by
  constructor
  · intro h
    obtain ⟨items, rest, hb, hend⟩ := exists_items words
    obtain ⟨c, -, hparse⟩ := exists_taken hb.valid a
    rw [hb.words_eq, hparse] at h
    obtain rfl | ⟨e', hbad⟩ := hend
    · rw [parseFrom] at h
      cases h
    · rw [parseFrom_bad hbad] at h
      obtain ⟨rfl, rfl⟩ := Outcome.failure.inj h
      exact ⟨items, rest, hb, hbad, Int.natCast_add _ _⟩
  · rintro ⟨items, rest, hb, hbad, rfl⟩
    obtain ⟨c, -, hparse⟩ := exists_taken hb.valid a
    rw [hb.words_eq, hparse, parseFrom_bad hbad, Int.natCast_add]

end Arguments

/-! ### What the items say -/

variable {a b : Arguments} {items : List Item}

theorem latest?_concat (t : Setting) (items : List Item) (x : Item) :
    latest? t (items ++ [x]) = (x.valueOf? t).or (latest? t items) := by
  cases hx : x.valueOf? t <;> simp [latest?, List.filterMap_append, hx]

theorem says_nil : Says [] {} := ⟨rfl, rfl, .none, .none, .none⟩

/-- One more item. -/
theorem Says.concat {x : Item} (h : Says items a) (hx : a.take? x = some b) :
    Says (items ++ [x]) b := by
  obtain ⟨hhelp, hconfig, hthreads, hiterations, hpolicy⟩ := h
  cases x with
  | help word hw =>
    obtain rfl := Option.some.inj hx
    constructor <;> simp_all [latest?_concat, Item.valueOf?, Item.isHelp]
  | given t value =>
    cases t with
    | config =>
      obtain rfl := Option.some.inj hx
      constructor <;> simp_all [latest?_concat, Item.valueOf?, Item.isHelp]
    | threads =>
      obtain ⟨n, hn, rfl⟩ := Option.map_eq_some_iff.mp hx
      have hcount := parsePositive_eq_some.mp hn
      constructor <;> simp_all [latest?_concat, Item.valueOf?, Item.isHelp]
    | iterations =>
      obtain ⟨n, hn, rfl⟩ := Option.map_eq_some_iff.mp hx
      have hcount := parsePositive_eq_some.mp hn
      constructor <;> simp_all [latest?_concat, Item.valueOf?, Item.isHelp]
    | policy =>
      obtain ⟨p, hp, rfl⟩ := Option.map_eq_some_iff.mp hx
      have hname := PoisonPolicy.ofName?_eq_some.mp hp
      constructor <;> simp_all [latest?_concat, Item.valueOf?, Item.isHelp]

theorem says_of_taken (h : items.foldlM Arguments.take? {} = some a) : Says items a := by
  induction items using List.reverseRecOn generalizing a with
  | nil =>
    obtain rfl := Option.some.inj h
    exact says_nil
  | append_singleton items x ih =>
    rw [List.foldlM_append] at h
    obtain ⟨c, hc, hx⟩ := Option.bind_eq_some_iff.mp h
    exact (ih hc).concat (by simpa using hx)

theorem eq_of_rel {α β : Type} {r : α → β → Prop} (hr : ∀ v x y, r v x → r v y → x = y)
    {v? : Option α} {x y : Option β} (hx : Option.Rel r v? x) (hy : Option.Rel r v? y) : x = y := by
  cases hx with
  | none =>
    cases hy
    rfl
  | some hx =>
    cases hy with
    | some hy => rw [hr _ _ _ hx hy]

theorem Says.unique (ha : Says items a) (hb : Says items b) : a = b := by
  have count : ∀ v x y, WritesCount v x → WritesCount v y → x = y := by
    intro v x y hx hy
    rw [← hx.1.value, ← hy.1.value]
  have policy : ∀ v (x y : PoisonPolicy), v = x.name → v = y.name → x = y := by
    intro v x y hx hy
    rw [← PoisonPolicy.ofName?_eq_some] at hx hy
    exact Option.some.inj (hx.symm.trans hy)
  cases a
  cases b
  simp only [Arguments.mk.injEq]
  exact ⟨ha.configPath.trans hb.configPath.symm, eq_of_rel count ha.threads hb.threads,
    eq_of_rel count ha.iterations hb.iterations, eq_of_rel policy ha.policy hb.policy,
    ha.showHelp.trans hb.showHelp.symm⟩

/-- The whole line is items, and they say what is taken. -/
theorem parse_ok_iff {words : List String} : Arguments.parse words = .ok a ↔
    ∃ items, Begins words items [] ∧ Says items a := by
  rw [Arguments.parse, Arguments.parseFrom_ok_iff]
  constructor
  · rintro ⟨items, hb, htaken⟩
    exact ⟨items, hb, says_of_taken htaken⟩
  · rintro ⟨items, hb, hsays⟩
    obtain ⟨c, htaken, -⟩ := Arguments.exists_taken hb.valid {}
    exact ⟨items, hb, hsays.unique (says_of_taken htaken) ▸ htaken⟩

theorem Begins.exists_parse {words : List String} (h : Begins words items []) :
    ∃ a, Says items a ∧ Arguments.parse words = .ok a := by
  obtain ⟨a, htaken, -⟩ := Arguments.exists_taken h.valid {}
  have hsays := says_of_taken htaken
  exact ⟨a, hsays, parse_ok_iff.mpr ⟨items, h, hsays⟩⟩

theorem parse_failure_iff {words : List String} {e : ArgError} {i : Int} :
    Arguments.parse words = .failure e i ↔ ∃ items rest, Begins words items rest ∧ Bad rest e ∧
      i = 1 + ((items.flatMap Item.words).length : Int) := Arguments.parseFrom_failure_iff

theorem Bad.length_pos {rest : List String} {e : ArgError} (h : Bad rest e) : 0 < rest.length := by
  cases h <;> simp

/-- Every command line is understood as its items, up to the first bad one. -/
theorem understood (words : List String) : Understood words := by
  constructor
  case accepted => exact fun a => parse_ok_iff
  case rejected => exact fun e i => parse_failure_iff
  case succeeds =>
    constructor
    · rintro ⟨a, h⟩
      obtain ⟨items, hb, -⟩ := parse_ok_iff.mp h
      exact ⟨items, hb⟩
    · rintro ⟨items, hb⟩
      obtain ⟨a, -, hparse⟩ := hb.exists_parse
      exact ⟨a, hparse⟩
  case position =>
    intro e i h
    obtain ⟨items, rest, hb, hbad, rfl⟩ := parse_failure_iff.mp h
    have hpos := hbad.length_pos
    rw [hb.words_eq, List.length_append]
    omega
  case composes =>
    intro a h more e i
    obtain ⟨items, hb, -⟩ := parse_ok_iff.mp h
    obtain ⟨c, -, hparse⟩ := Arguments.exists_taken hb.valid {}
    have hwords : words = items.flatMap Item.words := by rw [hb.words_eq, List.append_nil]
    rw [Arguments.parse, Arguments.parse, hwords, hparse, Arguments.parseFrom_failure_iff,
      Arguments.parseFrom_failure_iff]
    refine exists_congr fun _ => exists_congr fun _ => and_congr_right fun _ =>
      and_congr_right fun _ => ?_
    omega

/-- A help word in the place of a value does not ask for help. -/
example : Arguments.parse ["--config", "--help", "--threads", "007"] =
    .ok { configPath := "--help", threads := some 7 } := by decide

end Stress
end CheckedLock
