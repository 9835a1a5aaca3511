import CheckedLock.Lock.Payload
import Mathlib.Data.List.Forall2
import Mathlib.Data.Option.Basic

/-! Values as documents. Which documents are read as a value of a kind, and what is written of a
value that was read: the document again, with integers of 32 bits in the place of its numbers. -/
namespace CheckedLock

/-- An integer of 32 bits. -/
def HasRoom (n : Int) : Prop := -2147483648 ≤ n ∧ n ≤ 2147483647

instance (n : Int) : Decidable (HasRoom n) := inferInstanceAs (Decidable (_ ∧ _))

/-- `a` is what becomes of `n` in 32 bits. -/
def Wraps (a n : Int) : Prop := HasRoom a ∧ (4294967296 : Int) ∣ n - a

theorem Wraps.eq_iff {a n : Int} (h : Wraps a n) : a = n ↔ HasRoom n := by
  obtain ⟨ha, k, hk⟩ := h
  unfold HasRoom at ha ⊢
  omega

namespace Json

/-- Neither an array nor an object. -/
def isSingle : Json → Bool
  | .array _ | .object _ => false
  | _ => true

/-- Two documents of one form whose single values are related. An object is what its keys lead to,
in whatever order its members are written. -/
inductive Like (r : Json → Json → Prop) : Json → Json → Prop
  | single {i j : Json} : i.isSingle = true → r i j → Like r i j
  | array {xs ys : List Json} : List.Forall₂ (Like r) xs ys → Like r (.array xs) (.array ys)
  | object {xs ys : List (String × Json)} :
    (∀ key, Option.Rel (Like r) (xs.lookup key) (ys.lookup key)) → Like r (.object xs) (.object ys)

/-- One document, apart from the order of members. A number that is written otherwise, or a truth
value in its place, makes another document. -/
abbrev Same : Json → Json → Prop := Like Eq

/-- What stands in the place of a single value once it was read and written again. -/
inductive Rewritten (cut : Numeral → Int) : Json → Json → Prop
  | bool (b : Bool) : Rewritten cut (.number (.integer b.toInt)) (.bool b)
  | integer {j : Json} {a n : Int} : j.integer? = some n → Wraps a n →
    Rewritten cut (.number (.integer a)) j
  /-- a number in floating point -/
  | float {x : Numeral} {a : Int} : (Json.number x).integer? = none → Wraps a (cut x) →
    Rewritten cut (.number (.integer a)) (.number x)
  | string (s : String) : Rewritten cut (.string s) (.string s)

/-- All single values of the document are texts, or integers that have room in 32 bits. -/
inductive Fits : Json → Prop
  | integer {n : Int} : HasRoom n → Fits (.number (.integer n))
  | string (s : String) : Fits (.string s)
  | array {items : List Json} : (∀ j ∈ items, Fits j) → Fits (.array items)
  | object {members : List (String × Json)} :
    (∀ key j, members.lookup key = some j → Fits j) → Fits (.object members)

variable {r : Json → Json → Prop}

theorem like_array {xs ys : List Json} :
    Like r (.array xs) (.array ys) ↔ List.Forall₂ (Like r) xs ys :=
  ⟨fun | .array h => h, .array⟩

theorem like_object {xs ys : List (String × Json)} : Like r (.object xs) (.object ys) ↔
    ∀ key, Option.Rel (Like r) (xs.lookup key) (ys.lookup key) :=
  ⟨fun | .object h => h, .object⟩

theorem same_array {xs ys : List Json} : Same (.array xs) (.array ys) ↔ List.Forall₂ Same xs ys :=
  like_array

theorem same_object {xs ys : List (String × Json)} : Same (.object xs) (.object ys) ↔
    ∀ key, Option.Rel Same (xs.lookup key) (ys.lookup key) := like_object

theorem same_integer {n : Int} {j : Json} :
    Same (.number (.integer n)) j ↔ j = .number (.integer n) :=
  ⟨fun | .single _ h => h.symm, fun h => .single rfl h.symm⟩

theorem fits_array {items : List Json} : Fits (.array items) ↔ ∀ j ∈ items, Fits j :=
  ⟨fun | .array h => h, .array⟩

theorem fits_object {members : List (String × Json)} :
    Fits (.object members) ↔ ∀ key j, members.lookup key = some j → Fits j :=
  ⟨fun | .object h => h, .object⟩

end Json

namespace Payload

/-- The form of the documents that are values of a kind. -/
inductive Shaped : PayloadKind → Json → Prop
  | truth (b : Bool) : Shaped .int (.bool b)
  | number (x : Numeral) : Shaped .int (.number x)
  | text (s : String) : Shaped .text (.string s)
  | list {items : List Json} : (∀ j ∈ items, Shaped .int j) → Shaped .list (.array items)
  | table {members : List (String × Json)} :
    (∀ m ∈ members, Shaped .int m.2) → Shaped .table (.object members)

/-- Integers of 32 bits, and tables in the order of their keys, each key once. -/
def Proper : Payload → Prop
  | .int n => HasRoom n
  | .text _ => True
  | .list items => ∀ n ∈ items, HasRoom n
  | .table members => members.Pairwise (·.1 < ·.1) ∧ ∀ m ∈ members, HasRoom m.2

instance (p : Payload) : Decidable p.Proper := by
  cases p <;> unfold Proper <;> infer_instance

variable {cut : Numeral → Int} {k : PayloadKind} {j : Json} {p : Payload} {n : Int}

/-! ### Integers -/

theorem hasRoom_narrow (n : Int) : HasRoom (narrow n) := by
  have hle : -(((4294967296 : Nat) : Int) / 2) ≤ n.bmod 4294967296 := Int.le_bmod (by decide)
  have hlt : n.bmod 4294967296 < (((4294967296 : Nat) : Int) + 1) / 2 := Int.bmod_lt (by decide)
  unfold HasRoom narrow
  omega

theorem wraps_narrow (n : Int) : Wraps (narrow n) n := ⟨hasRoom_narrow n, Int.dvd_self_sub_bmod⟩

theorem narrow_of_hasRoom (h : HasRoom n) : narrow n = n := (wraps_narrow n).eq_iff.mpr h

theorem int?_cases (h : int? cut j = some n) : (∃ b, j = .bool b ∧ n = b.toInt) ∨
    ∃ x, j = .number x ∧ n = narrow ((Json.number x).integer?.getD (cut x)) := by
  unfold int? at h
  split at h
  case h_1 b => exact .inl ⟨b, rfl, (Option.some.inj h).symm⟩
  case h_2 x => exact .inr ⟨x, rfl, (Option.some.inj h).symm⟩
  case h_3 => cases h

theorem hasRoom_of_int? (h : int? cut j = some n) : HasRoom n := by
  obtain ⟨b, rfl, rfl⟩ | ⟨x, rfl, rfl⟩ := int?_cases h
  · cases b <;> decide
  · exact hasRoom_narrow _

theorem int?_toJson (h : HasRoom n) : int? cut (.number (.integer n)) = some n := by
  have hkept : (Json.number (.integer n)).integer? = some n := by
    unfold HasRoom at h
    simp only [Json.integer?]
    rw [if_pos (by omega)]
  rw [int?, hkept, Option.getD_some, narrow_of_hasRoom h]

theorem rewritten_of_int? (h : int? cut j = some n) :
    Json.Rewritten cut (.number (.integer n)) j := by
  obtain ⟨b, rfl, rfl⟩ | ⟨x, rfl, rfl⟩ := int?_cases h
  · exact .bool b
  · cases hx : (Json.number x).integer? with
    | some m => exact .integer hx (wraps_narrow m)
    | none => exact .float hx (wraps_narrow (cut x))

/-- What is read as an integer stands for one, and for itself if it has room. -/
theorem like_of_int? (h : int? cut j = some n) :
    (Json.number (.integer n)).Like (Json.Rewritten cut) j ∧
      ((Json.number (.integer n)).Same j ↔ j.Fits) := by
  refine ⟨.single rfl (rewritten_of_int? h), Json.same_integer.trans ⟨?_, fun hfits => ?_⟩⟩
  · rintro rfl
    exact .integer (hasRoom_of_int? h)
  · cases hfits with
    | integer hm => rw [Option.some.inj ((int?_toJson hm).symm.trans h)]
    | string | array | object => cases h

theorem int?_isSome_iff : (int? cut j).isSome = true ↔ Shaped .int j := by
  rw [Option.isSome_iff_exists]
  constructor
  · rintro ⟨n, hn⟩
    obtain ⟨b, rfl, -⟩ | ⟨x, rfl, -⟩ := int?_cases hn
    · exact .truth b
    · exact .number x
  · rintro (b | x) <;> exact ⟨_, rfl⟩

/-! ### Lists -/

theorem items?_eq_some {js : List Json} {ns : List Int} :
    items? cut js = some ns ↔ List.Forall₂ (fun n j => int? cut j = some n) ns js := by
  induction js generalizing ns with
  | nil => cases ns <;> simp [items?]
  | cons j js ih =>
    cases ns with
    | nil => simp [items?, Option.bind_eq_some_iff]
    | cons n ns => simp [items?, Option.bind_eq_some_iff, ih]

theorem items?_isSome_iff {js : List Json} :
    (items? cut js).isSome = true ↔ ∀ j ∈ js, Shaped .int j := by
  induction js with
  | nil => simp [items?]
  | cons j js ih =>
    rw [List.forall_mem_cons, ← ih, ← int?_isSome_iff]
    cases hj : int? cut j <;> cases hjs : items? cut js <;> simp [items?, hj, hjs]

theorem hasRoom_of_items? {js : List Json} {ns : List Int} (h : items? cut js = some ns) :
    ∀ n ∈ ns, HasRoom n := by
  have hread := items?_eq_some.mp h
  clear h
  induction hread with
  | nil => simp
  | cons hj _ ih =>
    exact List.forall_mem_cons.mpr ⟨hasRoom_of_int? hj, ih⟩

theorem like_of_items? {js : List Json} {ns : List Int} (h : items? cut js = some ns) :
    (toJson (.list ns)).Like (Json.Rewritten cut) (.array js) ∧
      ((toJson (.list ns)).Same (.array js) ↔ (Json.array js).Fits) := by
  have hread := items?_eq_some.mp h
  rw [toJson, Json.like_array, Json.same_array, Json.fits_array, List.forall₂_map_left_iff,
    List.forall₂_map_left_iff]
  refine ⟨hread.imp fun n j hj => (like_of_int? hj).1, ?_⟩
  clear h
  induction hread with
  | nil => simp
  | cons hj _ ih => rw [List.forall₂_cons, List.forall_mem_cons, (like_of_int? hj).2, ih]

/-! ### Tables -/

theorem lookup_cons_eq {α : Type} (key : String) (m : String × α) (ms : List (String × α)) :
    (m :: ms).lookup key = if key = m.1 then some m.2 else ms.lookup key := by
  rw [List.lookup_cons]
  split <;> simp_all

theorem lookup_map_snd {α β : Type} (f : α → β) (ms : List (String × α)) (key : String) :
    (ms.map fun m => (m.1, f m.2)).lookup key = (ms.lookup key).map f := by
  induction ms with
  | nil => rfl
  | cons m ms ih =>
    rw [List.map_cons, lookup_cons_eq, lookup_cons_eq, ih]
    split <;> rfl

theorem lookup_insert (key i : String) (n : Int) (ns : List (String × Int)) :
    (insert key n ns).lookup i = if i = key then some n else ns.lookup i := by
  induction ns with
  | nil => exact lookup_cons_eq i (key, n) []
  | cons m ns ih =>
    unfold insert
    split
    · exact lookup_cons_eq i (key, n) (m :: ns)
    · split
      · next heq =>
        rw [lookup_cons_eq, lookup_cons_eq, heq]
        split <;> rfl
      · next hne =>
        rw [lookup_cons_eq, lookup_cons_eq, ih]
        by_cases hi : i = m.1
        · rw [if_pos hi, if_neg (hi ▸ Ne.symm hne), if_pos hi]
        · rw [if_neg hi, if_neg hi]

/-- Of several members with one key the first one counts. -/
theorem lookup_of_members? {ms : List (String × Json)} {ns : List (String × Int)}
    (h : members? cut ms = some ns) (key : String) : ns.lookup key = (ms.lookup key).bind (int? cut) := by
  induction ms generalizing ns with
  | nil =>
    obtain rfl := Option.some.inj h
    rfl
  | cons m ms ih =>
    simp only [members?, Option.bind_eq_bind, Option.bind_eq_some_iff] at h
    obtain ⟨n, hn, ns', hns', he⟩ := h
    obtain rfl := Option.some.inj he
    rw [lookup_insert, ih hns', lookup_cons_eq]
    split
    · exact hn.symm
    · rfl

theorem members?_isSome_iff {ms : List (String × Json)} :
    (members? cut ms).isSome = true ↔ ∀ m ∈ ms, Shaped .int m.2 := by
  induction ms with
  | nil => simp [members?]
  | cons m ms ih =>
    rw [List.forall_mem_cons, ← ih, ← int?_isSome_iff]
    cases hm : int? cut m.2 <;> cases hms : members? cut ms <;> simp [members?, hm, hms]

/-- Each key leads to an integer on both sides or to nothing. -/
theorem lookup_cases {ms : List (String × Json)} {ns : List (String × Int)}
    (h : members? cut ms = some ns) (key : String) :
    ms.lookup key = none ∧ ns.lookup key = none ∨
      ∃ n j, ms.lookup key = some j ∧ ns.lookup key = some n ∧ int? cut j = some n := by
  have hread := lookup_of_members? h key
  cases hj : ms.lookup key with
  | none =>
    rw [hj] at hread
    exact .inl ⟨rfl, hread⟩
  | some j =>
    obtain ⟨l₁, l₂, rfl, -⟩ := List.lookup_eq_some_iff.mp hj
    have hshaped := members?_isSome_iff.mp (Option.isSome_of_eq_some h) (key, j) (by simp)
    obtain ⟨n, hn⟩ := Option.isSome_iff_exists.mp (int?_isSome_iff.mpr hshaped)
    rw [hj, Option.bind_some, hn] at hread
    exact .inr ⟨n, j, rfl, hread, hn⟩

theorem like_of_members? {ms : List (String × Json)} {ns : List (String × Int)}
    (h : members? cut ms = some ns) :
    (toJson (.table ns)).Like (Json.Rewritten cut) (.object ms) ∧
      ((toJson (.table ns)).Same (.object ms) ↔ (Json.object ms).Fits) := by
  rw [toJson, Json.like_object, Json.same_object, Json.fits_object]
  simp only [lookup_map_snd (fun n => Json.number (.integer n)) ns]
  constructor
  · intro key
    obtain ⟨hj, hn⟩ | ⟨n, j, hj, hn, hint⟩ := lookup_cases h key
    · rw [hj, hn]
      exact .none
    · rw [hj, hn]
      exact .some (like_of_int? hint).1
  · refine forall_congr' fun key => ?_
    obtain ⟨hj, hn⟩ | ⟨n, j, hj, hn, hint⟩ := lookup_cases h key
    · rw [hj, hn]
      exact ⟨fun _ => nofun, fun _ => .none⟩
    · rw [hj, hn, Option.map_some, Option.rel_some_some, (like_of_int? hint).2]
      exact ⟨fun hf i hi => Option.some.inj hi ▸ hf, fun hf => hf j rfl⟩

/-- Where all keys come later the member goes to the front. -/
theorem insert_of_lt {key : String} {ns : List (String × Int)} (h : ∀ m ∈ ns, key < m.1) :
    insert key n ns = (key, n) :: ns := by
  cases ns with
  | nil => rfl
  | cons m ns => simp [insert, h m List.mem_cons_self]

theorem forall_mem_insert {key : String} {ns : List (String × Int)} {q : String × Int → Prop}
    (hkey : q (key, n)) (h : ∀ m ∈ ns, q m) : ∀ m ∈ insert key n ns, q m := by
  induction ns with
  | nil => simpa [insert] using hkey
  | cons m ns ih =>
    obtain ⟨hm, hns⟩ := List.forall_mem_cons.mp h
    unfold insert
    split
    · exact List.forall_mem_cons.mpr ⟨hkey, h⟩
    · split
      · exact List.forall_mem_cons.mpr ⟨hkey, hns⟩
      · exact List.forall_mem_cons.mpr ⟨hm, ih hns⟩

theorem pairwise_insert {key : String} {ns : List (String × Int)}
    (h : ns.Pairwise (·.1 < ·.1)) : (insert key n ns).Pairwise (·.1 < ·.1) := by
  induction ns with
  | nil => simp [insert]
  | cons m ns ih =>
    obtain ⟨hm, hns⟩ := List.pairwise_cons.mp h
    unfold insert
    split
    · next hlt =>
      refine List.pairwise_cons.mpr ⟨List.forall_mem_cons.mpr ⟨hlt, fun i hi => ?_⟩, h⟩
      exact String.lt_trans hlt (hm i hi)
    · next hlt =>
      split
      · next heq => exact List.pairwise_cons.mpr ⟨heq ▸ hm, hns⟩
      · next hne =>
        have hgt : m.1 < key := by
          by_contra hgt
          exact hne (String.le_antisymm (String.not_lt.mp hgt) (String.not_lt.mp hlt))
        exact List.pairwise_cons.mpr ⟨forall_mem_insert hgt hm, ih hns⟩

theorem proper_of_members? {ms : List (String × Json)} {ns : List (String × Int)}
    (h : members? cut ms = some ns) : (table ns).Proper := by
  induction ms generalizing ns with
  | nil =>
    obtain rfl := Option.some.inj h
    exact ⟨.nil, nofun⟩
  | cons m ms ih =>
    simp only [members?, Option.bind_eq_bind, Option.bind_eq_some_iff] at h
    obtain ⟨n, hn, ns', hns', he⟩ := h
    obtain rfl := Option.some.inj he
    exact ⟨pairwise_insert (ih hns').1, forall_mem_insert (hasRoom_of_int? hn) (ih hns').2⟩

theorem members?_toJson {ns : List (String × Int)} (h : (table ns).Proper) :
    members? cut (ns.map fun m => (m.1, .number (.integer m.2))) = some ns := by
  obtain ⟨hsorted, hroom⟩ := h
  induction ns with
  | nil => rfl
  | cons m ns ih =>
    obtain ⟨hm, hns⟩ := List.pairwise_cons.mp hsorted
    obtain ⟨hmroom, hnsroom⟩ := List.forall_mem_cons.mp hroom
    simp [members?, int?_toJson hmroom, ih hns hnsroom, insert_of_lt hm]

/-! ### Values -/

theorem ofJson?_isSome_iff : (ofJson? cut k j).isSome = true ↔ Shaped k j := by
  constructor
  · intro h
    unfold ofJson? at h
    split at h
    · rw [Option.isSome_map] at h
      exact int?_isSome_iff.mp h
    · exact .text _
    · rw [Option.isSome_map] at h
      exact .list (items?_isSome_iff.mp h)
    · rw [Option.isSome_map] at h
      exact .table (members?_isSome_iff.mp h)
    · cases h
  · rintro (b | x | s | hitems | hmembers)
    · rfl
    · rfl
    · rfl
    · simpa [ofJson?] using items?_isSome_iff.mpr hitems
    · simpa [ofJson?] using members?_isSome_iff.mpr hmembers

theorem ofJson?_eq_none_iff : ofJson? cut k j = none ↔ ¬ Shaped k j := by
  rw [← ofJson?_isSome_iff, Option.not_isSome_iff_eq_none]

/-- What was read has its kind, and its integers have room. -/
theorem proper_of_ofJson? (h : ofJson? cut k j = some p) : p.kind = k ∧ p.Proper := by
  unfold ofJson? at h
  split at h
  · obtain ⟨n, hn, rfl⟩ := Option.map_eq_some_iff.mp h
    exact ⟨rfl, hasRoom_of_int? hn⟩
  · obtain rfl := Option.some.inj h
    exact ⟨rfl, trivial⟩
  · obtain ⟨ns, hns, rfl⟩ := Option.map_eq_some_iff.mp h
    exact ⟨rfl, hasRoom_of_items? hns⟩
  · obtain ⟨ns, hns, rfl⟩ := Option.map_eq_some_iff.mp h
    exact ⟨rfl, proper_of_members? hns⟩
  · cases h

/-- What was written of a value is read as the value. -/
theorem ofJson?_toJson (h : p.Proper) : ofJson? cut p.kind p.toJson = some p := by
  cases p with
  | int n => simp [kind, toJson, ofJson?, int?_toJson h]
  | text s => rfl
  | list items =>
    have hitems : items? cut (items.map fun n => .number (.integer n)) = some items := by
      rw [items?_eq_some, List.forall₂_map_right_iff, List.forall₂_same]
      exact fun n hn => int?_toJson (h n hn)
    simp [kind, toJson, ofJson?, hitems]
  | table members => simp [kind, toJson, ofJson?, members?_toJson h]

/-- What is written of a value that was read is the document, as far as its integers have room. -/
theorem toJson_like (h : ofJson? cut k j = some p) :
    p.toJson.Like (Json.Rewritten cut) j ∧ (p.toJson.Same j ↔ j.Fits) := by
  unfold ofJson? at h
  split at h
  case h_1 =>
    obtain ⟨n, hn, rfl⟩ := Option.map_eq_some_iff.mp h
    exact like_of_int? hn
  case h_2 s =>
    obtain rfl := Option.some.inj h
    exact ⟨.single rfl (.string s), fun _ => .string s, fun _ => .single rfl rfl⟩
  case h_3 =>
    obtain ⟨ns, hns, rfl⟩ := Option.map_eq_some_iff.mp h
    exact like_of_items? hns
  case h_4 =>
    obtain ⟨ns, hns, rfl⟩ := Option.map_eq_some_iff.mp h
    exact like_of_members? hns
  case h_5 => cases h

end Payload
end CheckedLock
