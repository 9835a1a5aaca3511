/-! Fixed-width columns: text padded with blanks, numbers padded with zeros. -/
namespace CheckedLock
namespace Column

/-- `s` followed by blanks up to `width` characters. -/
def left (width : Nat) (s : String) : String :=
  s ++ String.ofList (List.replicate (width - s.length) ' ')

/-- `s` preceded by blanks up to `width` characters. -/
def right (width : Nat) (s : String) : String :=
  String.ofList (List.replicate (width - s.length) ' ') ++ s

/-- Decimal digits of `n`, the most significant first; exactly `width` of them. -/
def digits : Nat → Nat → List Char
  | 0, _ => []
  | width + 1, n => digits width (n / 10) ++ [Nat.digitChar (n % 10)]

@[simp] theorem length_digits (width n : Nat) : (digits width n).length = width := by
  induction width generalizing n with
  | zero => rfl
  | succ width ih => simp [digits, ih]

def number (width n : Nat) : String :=
  String.ofList (digits width n)

end Column
end CheckedLock
