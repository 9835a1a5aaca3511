import CheckedLock.Text.Numeral
import CheckedLock.Proofs.Stress.CommandLine

/-! Counts on the command line are exactly the positive numbers of 32 bits in decimal digits. They
come to the same as signed numbers that are read digit by digit and given up once they get past
their range, if the text ends with the number and the number is at least 1. -/
namespace CheckedLock
namespace Numeral

variable {limit : Nat} {cs : List Char}

theorem le_ofDigitChars (cs : List Char) (k : Nat) : k ≤ Nat.ofDigitChars 10 cs k := by
  induction cs generalizing k with
  | nil => simp
  | cons c cs ih =>
    rw [Nat.ofDigitChars_cons]
    exact Nat.le_trans (by omega) (ih _)

theorem digits_none (hd : cs.all Char.isDigit = true) : digits limit none cs = (none, []) := by
  induction cs with
  | nil => rfl
  | cons c cs ih =>
    obtain ⟨hc, hcs⟩ : c.isDigit = true ∧ cs.all Char.isDigit = true := by simpa using hd
    rw [digits, if_pos hc]
    exact ih hcs

/-- The limit that is looked at with each digit is a limit on the whole number: it only grows. -/
theorem digits_some (hd : cs.all Char.isDigit = true) {k : Nat} (hk : k ≤ limit) :
    digits limit (some k) cs =
      (if Nat.ofDigitChars 10 cs k ≤ limit then some (Nat.ofDigitChars 10 cs k) else none, []) := by
  induction cs generalizing k with
  | nil => simp [digits, hk]
  | cons c cs ih =>
    obtain ⟨hc, hcs⟩ : c.isDigit = true ∧ cs.all Char.isDigit = true := by simpa using hd
    rw [digits, if_pos hc, Option.bind_some, Nat.ofDigitChars_cons]
    by_cases hle : 10 * k + digit c ≤ limit
    · rw [extend, if_pos hle]
      exact ih hcs hle
    · have hpast : ¬ Nat.ofDigitChars 10 cs (10 * k + digit c) ≤ limit := fun h =>
        hle (Nat.le_trans (le_ofDigitChars cs _) h)
      rw [extend, if_neg hle, digits_none hcs]
      exact congrArg (·, []) (if_neg hpast).symm

/-- Another character is left where it stands. -/
theorem digits_rest (hd : cs.all Char.isDigit = false) (n : Option Nat) :
    (digits limit n cs).2 ≠ [] := by
  induction cs generalizing n with
  | nil => cases hd
  | cons c cs ih =>
    by_cases hc : c.isDigit = true
    · rw [digits, if_pos hc]
      exact ih (by simpa [hc] using hd) _
    · rw [digits, if_neg hc]
      exact List.cons_ne_nil c cs

theorem count?_of_rest {r : Reading} (h : r.rest ≠ []) : r.count? = none := by
  cases hr : r.rest with
  | nil => exact absurd hr h
  | cons c rest => cases hn : r.number <;> simp [Reading.count?, hr, hn]

theorem rest_unsigned {negative : Bool} {text : List Char} (htext : text ≠ [])
    (hd : cs.all Char.isDigit = false) : (unsigned negative text cs).rest ≠ [] := by
  cases cs with
  | nil => cases hd
  | cons c rest =>
    have hrest : (digits (most negative) (some 0) (c :: rest)).2 ≠ [] := digits_rest hd _
    rw [unsigned]
    split
    · split
      · next heq => simpa [heq] using hrest
      · next heq => simpa [heq] using hrest
    · exact htext

/-- A negative number is no count, however it is written. -/
theorem count?_negative (text cs : List Char) (htext : text ≠ []) :
    (unsigned true text cs).count? = none := by
  cases hd : cs.all Char.isDigit with
  | false => exact count?_of_rest (rest_unsigned htext hd)
  | true =>
    cases cs with
    | nil => rfl
    | cons c rest =>
      have hc : c.isDigit = true := by simp_all
      rw [unsigned, if_pos hc, digits_some hd (Nat.zero_le _)]
      split
      · next n rest heq =>
        have hneg : ¬ (1 : Int) ≤ signed true n := by
          simp only [signed, if_true]
          omega
        cases rest <;> simp [Reading.count?, hneg]
      · rfl

theorem count?_of_digits (hne : cs ≠ []) (hd : cs.all Char.isDigit = true) :
    (read cs).count? = if 1 ≤ Nat.ofDigitChars 10 cs 0 ∧ Nat.ofDigitChars 10 cs 0 ≤ 2147483647 then
      some (Nat.ofDigitChars 10 cs 0) else none := by
  cases cs with
  | nil => exact absurd rfl hne
  | cons c rest =>
    have hc : c.isDigit = true := by simp_all
    have hminus : c ≠ '-' := by
      rintro rfl
      cases hc
    have hread : read (c :: rest) = unsigned false (c :: rest) (c :: rest) := by
      unfold read
      split
      · next heq => exact absurd (List.cons.inj heq).1 hminus
      · rfl
    rw [hread, unsigned, if_pos hc, digits_some hd (Nat.zero_le _)]
    generalize Nat.ofDigitChars 10 (c :: rest) 0 = n
    by_cases hle : n ≤ 2147483647
    · by_cases hpos : 1 ≤ n
      · simp [most, hle, hpos, Reading.count?, signed]
      · simp [most, Reading.count?, signed, Nat.eq_zero_of_not_pos hpos]
    · simp [most, hle, Reading.count?]

theorem count?_of_other (hd : cs.all Char.isDigit = false) : (read cs).count? = none := by
  have hne : cs ≠ [] := by
    rintro rfl
    cases hd
  unfold read
  split
  · exact count?_negative _ _ (List.cons_ne_nil _ _)
  · exact count?_of_rest (rest_unsigned hne hd)

end Numeral

namespace Stress

variable {s : String} {n : Nat}

theorem ofDigits_eq (cs : List Char) :
    Nat.ofDigits 10 (cs.reverse.map fun c => c.toNat - '0'.toNat) = Nat.ofDigitChars 10 cs 0 := by
  rw [← foldl_digits, Nat.ofDigitChars_eq_foldl]

/-- Nothing but a count is accepted, and every count is. -/
theorem parsePositive_eq_none : parsePositive s = none ↔ ∀ n, ¬ WritesCount s n := by
  rw [Option.eq_none_iff_forall_ne_some]
  exact forall_congr' fun n => not_congr parsePositive_eq_some

theorem writes_unique {m : Nat} (h : Writes s n) (h' : Writes s m) : n = m := by
  rw [← h.value, ← h'.value]

theorem parsePositive_eq_count? (s : String) :
    parsePositive s = (Numeral.read s.toList).count? := by
  cases hd : s.toList.all Char.isDigit with
  | false =>
    rw [Numeral.count?_of_other hd, parsePositive_eq_none]
    rintro n ⟨⟨-, hdigits, -⟩, -⟩
    have hall : s.toList.all Char.isDigit = true :=
      List.all_eq_true.mpr fun c hc => isDigit_iff.mpr (hdigits c hc)
    rw [hall] at hd
    cases hd
  | true =>
    by_cases hempty : s.toList = []
    · simp [parsePositive, decimal?, hempty, Numeral.read, Numeral.unsigned, Numeral.Reading.count?]
    · have hdec : decimal? s.toList = some (Nat.ofDigitChars 10 s.toList 0) := by
        rw [decimal?_eq_some]
        exact ⟨fun h => hempty (String.toList_eq_nil_iff.mpr h),
          fun c hc => isDigit_iff.mp (List.all_eq_true.mp hd c hc), ofDigits_eq _⟩
      rw [Numeral.count?_of_digits hempty hd, parsePositive, hdec]
      rfl

/-- Zeros in front of the digits do not count. -/
theorem Writes.zeros (h : Writes s n) (k : Nat) :
    Writes (String.ofList (List.replicate k '0') ++ s) n where
  nonempty he := h.nonempty (String.append_eq_empty_iff.mp he).2
  digits c hc := by
    rw [String.toList_append, String.toList_ofList, List.mem_append] at hc
    obtain hc | hc := hc
    · obtain rfl := List.eq_of_mem_replicate hc
      decide
    · exact h.digits c hc
  value := by
    have hvalue := h.value
    rw [ofDigits_eq] at hvalue ⊢
    rw [String.toList_append, String.toList_ofList, Nat.ofDigitChars_append,
      Nat.ofDigitChars_replicate_zero, Nat.mul_zero, hvalue]

theorem writes_toString (n : Nat) : Writes (toString n) n := by
  have hlist : (toString n).toList = Nat.toDigits 10 n := by
    rw [Nat.toString_eq_ofList_toDigits, String.toList_ofList]
  refine ⟨fun h => ?_, fun c hc => ?_, ?_⟩
  · rw [← String.toList_eq_nil_iff, hlist] at h
    exact Nat.toDigits_ne_nil h
  · rw [hlist] at hc
    exact isDigit_iff.mp (Nat.isDigit_of_mem_toDigits (by decide) (by decide) hc)
  · rw [hlist, ofDigits_eq, Nat.ofDigitChars_ten_toDigits]

/-- What is read as a count. -/
structure ReadsCounts (s : String) : Prop where
  accepted : ∀ n, parsePositive s = some n ↔ WritesCount s n
  refused : parsePositive s = none ↔ ∀ n, ¬ WritesCount s n
  /-- Whatever stands there beside digits, a sign or a blank, too. -/
  others : ∀ c ∈ s.toList, ¬ ('0' ≤ c ∧ c ≤ '9') → parsePositive s = none
  /-- Of any length. -/
  excess : ∀ n, Writes s n → 2147483647 < n → parsePositive s = none
  zeros : ∀ k n, parsePositive s = some n →
    parsePositive (String.ofList (List.replicate k '0') ++ s) = some n
  /-- The sign, the loop over the digits and the end of the text come to this. -/
  scanned : parsePositive s = (Numeral.read s.toList).count?
  printed : ∀ n, 1 ≤ n → n ≤ 2147483647 → parsePositive (toString n) = some n

theorem readsCounts (s : String) : ReadsCounts s where
  accepted _ := parsePositive_eq_some
  refused := parsePositive_eq_none
  others c hc hother := parsePositive_eq_none.mpr fun _ h => hother (h.1.digits c hc)
  excess n hn hlarge := parsePositive_eq_none.mpr fun m h => by
    obtain rfl := writes_unique hn h.1
    exact Nat.not_le_of_lt hlarge h.2.2
  zeros k n h := by
    obtain ⟨hwrites, hrange⟩ := parsePositive_eq_some.mp h
    exact parsePositive_eq_some.mpr ⟨hwrites.zeros k, hrange⟩
  scanned := parsePositive_eq_count? s
  printed n hpos hle := parsePositive_eq_some.mpr ⟨writes_toString n, hpos, hle⟩

/-- The range ends here, and zeros in front change nothing. -/
example : parsePositive "002147483647" = some 2147483647 ∧ parsePositive "2147483648" = none ∧
    parsePositive "-0" = none := by decide

end Stress
end CheckedLock
