import CheckedLock.Json.Token
import Mathlib.Algebra.Order.Field.Power
import Mathlib.Data.Nat.Digits.Defs
import Mathlib.Tactic.GCongr
import Mathlib.Tactic.NormNum

/-! The numbers that a reader refuses are those that round to no finite number of 64 bits. The
shortcut by the places of a number is sound, since the least of these numbers has 309 of them. -/
namespace CheckedLock
namespace Json
namespace Literal

/-- The magnitude that a literal writes. -/
def magnitude (x : Literal) : ℚ := count x.digits * 10 ^ x.scale

theorem le_firstInfinite : (10 : ℚ) ^ (308 : ℤ) ≤ firstInfinite := by
  have h : 10 ^ 308 ≤ firstInfinite := by decide +kernel
  exact_mod_cast h

theorem firstInfinite_le : (firstInfinite : ℚ) ≤ 10 ^ (309 : ℤ) := by
  have h : firstInfinite ≤ 10 ^ 309 := by decide +kernel
  exact_mod_cast h

/-- A number lies between the powers of ten that its places name. -/
theorem places_spec {n : Nat} (hn : n ≠ 0) :
    (10 : ℚ) ^ ((Nat.toDigits 10 n).length - 1 : ℤ) ≤ n ∧
      (n : ℚ) < 10 ^ ((Nat.toDigits 10 n).length : ℤ) := by
  have hiff : ∀ {k : Nat}, 0 < k → ((Nat.toDigits 10 n).length ≤ k ↔ n < 10 ^ k) :=
    Nat.length_toDigits_le_iff (by decide)
  have hpos : 0 < (Nat.toDigits 10 n).length := Nat.length_toDigits_pos
  generalize (Nat.toDigits 10 n).length = k at hiff hpos ⊢
  constructor
  · obtain ⟨k, rfl⟩ := Nat.exists_eq_succ_of_ne_zero hpos.ne'
    have hle : 10 ^ k ≤ n := by
      obtain rfl | hk := Nat.eq_zero_or_pos k
      · omega
      · exact Nat.not_lt.mp fun hlt => absurd ((hiff hk).mpr hlt) (Nat.not_succ_le_self k)
    simpa using (show ((10 ^ k : Nat) : ℚ) ≤ n by exact_mod_cast hle)
  · have hlt : n < 10 ^ k := (hiff hpos).mp le_rfl
    exact_mod_cast hlt

theorem overflows_iff (x : Literal) : x.overflows = true ↔ (firstInfinite : ℚ) ≤ x.magnitude := by
  have hleast := le_firstInfinite
  have hmost := firstInfinite_le
  unfold overflows magnitude
  dsimp only
  generalize firstInfinite = bound at hleast hmost ⊢
  generalize count x.digits = n
  generalize x.scale = s
  by_cases hn : n = 0
  · have hpos : (0 : ℚ) < bound := lt_of_lt_of_le (by positivity) hleast
    simp only [hn, true_or, if_true, Bool.false_eq_true, Nat.cast_zero, zero_mul, false_iff]
    exact not_le.mpr hpos
  obtain ⟨hlow, hhigh⟩ := places_spec hn
  generalize (Nat.toDigits 10 n).length = k at hlow hhigh ⊢
  have hten : (0 : ℚ) < 10 ^ s := by positivity
  by_cases hsmall : (k : ℤ) + s < 309
  · have hlt : (n : ℚ) * 10 ^ s < bound :=
      calc (n : ℚ) * 10 ^ s < 10 ^ (k : ℤ) * 10 ^ s := by gcongr
        _ = 10 ^ ((k : ℤ) + s) := (zpow_add₀ (by norm_num) _ _).symm
        _ ≤ 10 ^ (308 : ℤ) := zpow_le_zpow_right₀ (by norm_num) (by omega)
        _ ≤ bound := hleast
    rw [if_pos (.inr hsmall)]
    exact iff_of_false Bool.false_ne_true (not_le.mpr hlt)
  rw [if_neg (not_or.mpr ⟨hn, hsmall⟩)]
  by_cases hlarge : 309 < (k : ℤ) + s
  · have hle : (bound : ℚ) ≤ n * 10 ^ s :=
      calc (bound : ℚ) ≤ 10 ^ (309 : ℤ) := hmost
        _ ≤ 10 ^ ((k : ℤ) - 1 + s) := zpow_le_zpow_right₀ (by norm_num) (by omega)
        _ = 10 ^ ((k : ℤ) - 1) * 10 ^ s := zpow_add₀ (by norm_num) _ _
        _ ≤ n * 10 ^ s := by gcongr
    rw [if_pos hlarge]
    exact iff_of_true rfl hle
  -- as many places as the bound: the two are compared, scaled to integers
  have hscale : (10 : ℚ) ^ s * 10 ^ (-s).toNat = 10 ^ s.toNat := by
    rw [← zpow_natCast, ← zpow_natCast, ← zpow_add₀ (by norm_num)]
    congr 1
    omega
  rw [if_neg hlarge, decide_eq_true_eq, Nat.pow_eq, Nat.pow_eq,
    ← mul_le_mul_iff_left₀ (show (0 : ℚ) < 10 ^ (-s).toNat by positivity), mul_assoc, hscale]
  exact_mod_cast Iff.rfl

end Literal
end Json
end CheckedLock
