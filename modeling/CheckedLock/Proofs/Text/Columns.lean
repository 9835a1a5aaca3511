import CheckedLock.Text.Column
import Mathlib.Data.List.Forall2
import Mathlib.Data.String.Basic
import Mathlib.Tactic.IntervalCases
/-! Rows of numbers in columns of fixed width: what is read from them, and their order. -/
namespace CheckedLock
namespace Column

theorem toNat_digitChar (n : Nat) (hn : n < 10) : (Nat.digitChar n).toNat - '0'.toNat = n := by
  interval_cases n <;> rfl

theorem digitChar_lt (n m : Nat) (h : n < m) (hm : m < 10) :
    Nat.digitChar n < Nat.digitChar m := by
  interval_cases m <;> interval_cases n <;> decide

theorem all_isDigit_digits (width n : Nat) : (digits width n).all Char.isDigit := by
  induction width generalizing n with
  | zero => rfl
  | succ width ih => simp [digits, ih, Nat.isDigit_digitChar, Nat.mod_lt]

/-- The number that a row of decimal digits stands for. -/
def value (cs : List Char) : Nat :=
  Nat.ofDigitChars 10 cs 0

theorem value_digits (width n : Nat) (hn : n < 10 ^ width) : value (digits width n) = n := by
  induction width generalizing n with
  | zero => simp_all [digits, value]
  | succ width ih =>
    have hdiv : n / 10 < 10 ^ width := by
      rw [Nat.pow_succ] at hn
      omega
    have hlast := toNat_digitChar (n % 10) (Nat.mod_lt _ (by omega))
    have hinit := ih (n / 10) hdiv
    unfold value at hinit ⊢
    rw [digits, Nat.ofDigitChars_append, hinit, Nat.ofDigitChars_cons, hlast]
    exact Nat.div_add_mod n 10

theorem append_lt_append {as bs : List Char} (hlen : as.length = bs.length) (h : as < bs)
    (xs ys : List Char) : as ++ xs < bs ++ ys := by
  induction as generalizing bs with
  | nil =>
    cases bs with
    | nil => exact absurd h (List.lt_irrefl _)
    | cons b bs => simp at hlen
  | cons a as ih =>
    cases bs with
    | nil => simp at hlen
    | cons b bs =>
      rw [List.cons_append, List.cons_append, List.cons_lt_cons_iff]
      rcases List.cons_lt_cons_iff.1 h with hlt | ⟨heq, hlt⟩
      · exact Or.inl hlt
      · exact Or.inr ⟨heq, ih (by simpa using hlen) hlt⟩

theorem digits_lt (width n m : Nat) (h : n < m) (hm : m < 10 ^ width) :
    digits width n < digits width m := by
  induction width generalizing n m with
  | zero => omega
  | succ width ih =>
    have hdiv : m / 10 < 10 ^ width := by
      rw [Nat.pow_succ] at hm
      omega
    by_cases hq : n / 10 < m / 10
    · exact append_lt_append (by simp) (ih _ _ hq hdiv) _ _
    · have hsame : n / 10 = m / 10 := by omega
      have hlast := digitChar_lt (n % 10) (m % 10) (by omega) (by omega)
      rw [digits, digits, hsame]
      exact List.append_left_lt (List.cons_lt_cons_iff.2 (Or.inl hlast))

/-- Numbers in columns of the given widths, each with the mark behind it. -/
def row : List (Nat × String) → List Nat → List Char
  | (width, mark) :: layout, n :: ns => digits width n ++ (mark.toList ++ row layout ns)
  | _, _ => []

def Fits (layout : List (Nat × String)) (ns : List Nat) : Prop :=
  List.Forall₂ (fun column n => n < 10 ^ column.1) layout ns

/-- Reads columns of exactly the given widths and their marks, up to the end of the text. -/
def readRow : List (Nat × String) → List Char → Option (List Nat)
  | [], cs => if cs = [] then some [] else none
  | (width, mark) :: layout, cs =>
    if (cs.take width).length = width ∧ (cs.take width).all Char.isDigit ∧
        mark.toList <+: cs.drop width then
      (readRow layout (cs.drop (width + mark.length))).map (value (cs.take width) :: ·)
    else none

theorem readRow_row {layout : List (Nat × String)} {ns : List Nat} (h : Fits layout ns) :
    readRow layout (row layout ns) = some ns := by
  induction h with
  | nil => rfl
  | @cons column n layout ns hn _ ih =>
    obtain ⟨width, mark⟩ := column
    have htake : (digits width n ++ (mark.toList ++ row layout ns)).take width =
        digits width n := by
      rw [List.take_append_of_le_length (by simp), List.take_of_length_le (by simp)]
    have hdrop : (digits width n ++ (mark.toList ++ row layout ns)).drop width =
        mark.toList ++ row layout ns := by
      rw [List.drop_left' (by simp)]
    have hrest : (digits width n ++ (mark.toList ++ row layout ns)).drop (width + mark.length) =
        row layout ns := by
      rw [← List.drop_drop, hdrop, List.drop_left' String.length_toList]
    rw [row, readRow, htake, hdrop, hrest, ih, value_digits width n hn, if_pos]
    · rfl
    · exact ⟨by simp, all_isDigit_digits width n, List.prefix_append _ _⟩

theorem row_lt_of_lt {layout : List (Nat × String)} {ns ms : List Nat} (hm : Fits layout ms)
    (hlen : ns.length = ms.length) (h : ns < ms) : row layout ns < row layout ms := by
  induction hm generalizing ns with
  | nil => simp_all
  | @cons column m layout ms hm _ ih =>
    cases ns with
    | nil => simp at hlen
    | cons n ns =>
      rcases List.cons_lt_cons_iff.1 h with hlt | ⟨rfl, hlt⟩
      · exact append_lt_append (by simp) (digits_lt _ _ _ hlt hm) _ _
      · apply List.append_left_lt
        apply List.append_left_lt
        exact ih (by simpa using hlen) hlt

theorem row_lt_iff {layout : List (Nat × String)} {ns ms : List Nat} (hn : Fits layout ns)
    (hm : Fits layout ms) : row layout ns < row layout ms ↔ ns < ms := by
  have hlen : ns.length = ms.length := hn.length_eq.symm.trans hm.length_eq
  constructor
  · intro h
    rcases lt_trichotomy ns ms with hlt | rfl | hgt
    · exact hlt
    · exact absurd h (lt_irrefl _)
    · exact absurd h (lt_asymm (row_lt_of_lt hn hlen.symm hgt))
  · exact row_lt_of_lt hm hlen

end Column
end CheckedLock
