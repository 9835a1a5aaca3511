import CheckedLock.Text.FileName
import Mathlib.Data.List.Basic

/-! The last component of a path, said of the text alone: it is cut off behind a separator or is the
whole path, and it has no separator in it. The later of two searches is where it begins. -/
namespace CheckedLock
namespace FileName

def IsSeparator (c : Char) : Prop := c = '/' ∨ c = '\\'

/-- No separator occurs. -/
def Plain (r : List Char) : Prop := ∀ c ∈ r, ¬ IsSeparator c

/-- What may stand in front of the last component. -/
def Leads (q : List Char) : Prop := q = [] ∨ ∃ d s, IsSeparator s ∧ q = d ++ [s]

/-- `r` is what follows the last separator of `p`. -/
structure LastComponent (p r : List Char) : Prop where
  cut : ∃ q, p = q ++ r ∧ Leads q
  plain : Plain r

variable {c : Char} {i : Nat} {p q r : List Char}

/-! ### The searches -/

theorem lastIndex?_eq_none : lastIndex? c p = none ↔ c ∉ p := by
  induction p with
  | nil => simp
  | cons d rest ih =>
    cases h : lastIndex? c rest with
    | some i => simpa [lastIndex?, h] using fun _ => ih.not.mp (by simp [h])
    | none =>
      by_cases hd : d = c
      · simp [lastIndex?, h, hd]
      · simp [lastIndex?, h, hd, ih.mp h, Ne.symm hd]

/-- The last occurrence: there it is, and behind it there is none. -/
theorem lastIndex?_eq_some (h : lastIndex? c p = some i) : p[i]? = some c ∧ c ∉ p.drop (i + 1) := by
  induction p generalizing i with
  | nil => cases h
  | cons d rest ih =>
    rw [lastIndex?] at h
    cases hrest : lastIndex? c rest with
    | some j =>
      rw [hrest] at h
      obtain rfl := Option.some.inj h
      exact ih hrest
    | none =>
      rw [hrest] at h
      by_cases hd : d = c
      · obtain rfl : 0 = i := by simpa [hd] using h
        exact ⟨by simp [hd], lastIndex?_eq_none.mp hrest⟩
      · simp [hd] at h

theorem not_mem_drop_of_le {j : Nat} (h : c ∉ p.drop i) (hij : i ≤ j) : c ∉ p.drop j :=
  fun hc => h ((List.drop_subset_drop_left p hij) hc)

theorem lastSeparator?_eq_none (h : lastSeparator? p = none) : Plain p := by
  unfold lastSeparator? at h
  split at h
  · next hslash =>
    rintro c hc (rfl | rfl)
    · exact lastIndex?_eq_none.mp hslash hc
    · exact lastIndex?_eq_none.mp h hc
  · cases h
  · cases h

/-- Of two last occurrences the later one is the last separator. -/
theorem lastSeparator?_eq_some (h : lastSeparator? p = some i) :
    (∃ s, IsSeparator s ∧ p[i]? = some s) ∧ Plain (p.drop (i + 1)) := by
  unfold lastSeparator? at h
  split at h
  · next hslash =>
    obtain ⟨hat, hbehind⟩ := lastIndex?_eq_some h
    refine ⟨⟨_, .inr rfl, hat⟩, ?_⟩
    rintro c hc (rfl | rfl)
    · exact lastIndex?_eq_none.mp hslash (List.mem_of_mem_drop hc)
    · exact hbehind hc
  · next hslash hback =>
    obtain ⟨hat, hbehind⟩ := lastIndex?_eq_some hslash
    obtain rfl := Option.some.inj h
    refine ⟨⟨_, .inl rfl, hat⟩, ?_⟩
    rintro c hc (rfl | rfl)
    · exact hbehind hc
    · exact lastIndex?_eq_none.mp hback (List.mem_of_mem_drop hc)
  · next j k hslash hback =>
    obtain ⟨hat, hbehind⟩ := lastIndex?_eq_some hslash
    obtain ⟨hat', hbehind'⟩ := lastIndex?_eq_some hback
    obtain rfl : max j k = i := Option.some.inj h
    constructor
    · obtain hle | hle := Nat.le_total k j
      · exact ⟨_, .inl rfl, by rw [Nat.max_eq_left hle]; exact hat⟩
      · exact ⟨_, .inr rfl, by rw [Nat.max_eq_right hle]; exact hat'⟩
    · rintro c hc (rfl | rfl)
      · exact not_mem_drop_of_le hbehind (Nat.succ_le_succ (Nat.le_max_left j k)) hc
      · exact not_mem_drop_of_le hbehind' (Nat.succ_le_succ (Nat.le_max_right j k)) hc

/-! ### The component -/

theorem lastComponent_ofChars (p : List Char) : LastComponent p (ofChars p) := by
  unfold ofChars
  cases h : lastSeparator? p with
  | none => exact ⟨⟨[], rfl, .inl rfl⟩, lastSeparator?_eq_none h⟩
  | some i =>
    obtain ⟨⟨s, hs, hat⟩, hplain⟩ := lastSeparator?_eq_some h
    have hcut : p.take (i + 1) = p.take i ++ [s] := by rw [List.take_add_one, hat]; rfl
    exact ⟨⟨p.take (i + 1), (List.take_append_drop _ p).symm, .inr ⟨_, s, hs, hcut⟩⟩, hplain⟩

/-- A suffix without separators does not reach beyond what a separator leads to. -/
theorem suffix_of_leads {q' r' : List Char} (h : q ++ r = q' ++ r') (hq : Leads q)
    (hr' : Plain r') : r' <:+ r := by
  obtain rfl | ⟨d, s, hs, rfl⟩ := hq
  · exact ⟨q', h.symm⟩
  have hr : r <:+ q' ++ r' := ⟨d ++ [s], h⟩
  obtain hlt | hle := Nat.lt_or_ge r.length r'.length
  · exfalso
    have hcut : s :: r <:+ q' ++ r' := ⟨d, by rw [← h, List.append_assoc]; rfl⟩
    have hlong : s :: r <:+ r' := List.suffix_of_suffix_length_le hcut ⟨q', rfl⟩ hlt
    exact hr' s (hlong.subset List.mem_cons_self) hs
  · exact List.suffix_of_suffix_length_le ⟨q', rfl⟩ hr hle

theorem LastComponent.unique {r' : List Char} (h : LastComponent p r) (h' : LastComponent p r') :
    r = r' := by
  obtain ⟨q, hp, hq⟩ := h.cut
  obtain ⟨q', hp', hq'⟩ := h'.cut
  have hle : r'.length ≤ r.length := (suffix_of_leads (hp.symm.trans hp') hq h'.plain).length_le
  exact (suffix_of_leads (hp'.symm.trans hp) hq' h.plain).eq_of_length_le hle

theorem ofChars_eq_iff : ofChars p = r ↔ LastComponent p r := by
  constructor
  · rintro rfl
    exact lastComponent_ofChars p
  · exact (lastComponent_ofChars p).unique

/-- Whatever stands in front of a separator has no part in it. -/
theorem LastComponent.under {d : List Char} {s : Char} (h : LastComponent p r) (hs : IsSeparator s) :
    LastComponent (d ++ [s] ++ p) r := by
  obtain ⟨q, rfl, hq⟩ := h.cut
  refine ⟨⟨d ++ [s] ++ q, by simp only [List.append_assoc], .inr ?_⟩, h.plain⟩
  obtain rfl | ⟨d', s', hs', rfl⟩ := hq
  · exact ⟨d, s, hs, List.append_nil _⟩
  · exact ⟨d ++ [s] ++ d', s', hs', by simp only [List.append_assoc]⟩

theorem LastComponent.again (h : LastComponent p r) : LastComponent r r :=
  ⟨⟨[], rfl, .inl rfl⟩, h.plain⟩

/-- What the file name of a path is. -/
structure NamesFile (p : String) : Prop where
  exactly : ∀ r : String, ofPath p = r ↔ LastComponent p.toList r.toList
  longest : ∀ q r : String, p = q ++ r → Plain r.toList → r.length ≤ (ofPath p).length
  again : ofPath (ofPath p) = ofPath p
  under : ∀ (d : String) (s : Char), IsSeparator s → ofPath (d ++ String.singleton s ++ p) = ofPath p

/-- For any mixture of separators the file name is the last component. -/
theorem namesFile (p : String) : NamesFile p := by
  have hlast : LastComponent p.toList (ofPath p).toList := by
    rw [toList_ofPath]
    exact lastComponent_ofChars p.toList
  have exactly : ∀ p r : String, ofPath p = r ↔ LastComponent p.toList r.toList := by
    intro p r
    rw [← ofChars_eq_iff, ← toList_ofPath, String.toList_inj]
  constructor
  case exactly => exact exactly p
  case longest =>
    intro q r hp hr
    obtain ⟨q', hcut, hq'⟩ := hlast.cut
    have hsplit : q' ++ (ofPath p).toList = q.toList ++ r.toList := by
      rw [← hcut, ← String.toList_append, ← hp]
    rw [← String.length_toList, ← String.length_toList]
    exact (suffix_of_leads hsplit hq' hr).length_le
  case again => exact (exactly _ _).mpr hlast.again
  case under =>
    intro d s hs
    refine (exactly _ _).mpr ?_
    simpa using hlast.under (d := d.toList) hs

end FileName
end CheckedLock
