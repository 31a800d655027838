import Mathlib.Algebra.Order.Field.Power
import Mathlib.Algebra.Order.Ring.Rat
import Mathlib.Tactic.Positivity
import Offside.Number.Rounding

/-!
# Ratios and their last places

What the parts of rounding compute: the integer nearest to a ratio, a ratio times a power of two,
the binary logarithm of a ratio, and the exponent of the last place that a double has near it.
-/

namespace Offside

/-- The remainder says which of the two integers next to a ratio is nearer. -/
theorem roundHalfEven_spec (n d : Nat) : ∃ t, roundHalfEven n d = n / d + t ∧
    (t = 0 ∧ 2 * (n % d) ≤ d ∨ t = 1 ∧ d ≤ 2 * (n % d)) ∧
      (2 * (n % d) = d → Even (n / d + t)) := by
  rw [roundHalfEven]
  rcases Nat.lt_trichotomy (2 * (n % d)) d with h | h | h
  · exact ⟨0, if_pos h, .inl ⟨rfl, h.le⟩, fun htie ↦ absurd htie h.ne⟩
  · rw [if_neg h.not_lt, if_neg h.not_gt]
    refine ⟨n / d % 2, rfl, ?_, fun _ ↦ ?_⟩
    · exact (Nat.mod_two_eq_zero_or_one _).imp (⟨·, h.le⟩) (⟨·, h.ge⟩)
    · rw [Nat.even_add, Nat.even_iff, Nat.even_iff, Nat.mod_mod]
  · rw [if_neg h.not_gt, if_pos h]
    exact ⟨1, rfl, .inr ⟨rfl, h.le⟩, fun htie ↦ absurd htie h.ne'⟩

variable {num den : Nat}

theorem scaleRatio_pos (num : Nat) (hden : 0 < den) (k : Int) : 0 < (scaleRatio num den k).2 := by
  cases k with
  | ofNat k => exact hden
  | negSucc k => exact Nat.mul_pos hden (Nat.two_pow_pos _)

theorem scaleRatio_eq (num den : Nat) (k : Int) :
    ((scaleRatio num den k).1 : ℚ) / (scaleRatio num den k).2 = num / den * 2 ^ k := by
  cases k with
  | ofNat k =>
      show ((num * 2 ^ k : ℕ) : ℚ) / den = num / den * 2 ^ (k : ℤ)
      rw [Nat.cast_mul, Nat.cast_pow, Nat.cast_ofNat, zpow_natCast, mul_div_right_comm]
  | negSucc k =>
      show (num : ℚ) / (den * 2 ^ (k + 1) : ℕ) = num / den * 2 ^ Int.negSucc k
      rw [Nat.cast_mul, Nat.cast_pow, Nat.cast_ofNat, zpow_negSucc, ← div_div, div_eq_mul_inv]

/-- Scaled to one, a ratio is compared with a power of two. -/
theorem scaleRatio_lt_iff (hden : 0 < den) (k : Int) :
    (scaleRatio num den (-k)).1 < (scaleRatio num den (-k)).2 ↔ (num / den : ℚ) < 2 ^ k := by
  have hpos : (0 : ℚ) < (scaleRatio num den (-k)).2 := Nat.cast_pos.mpr (scaleRatio_pos num hden _)
  rw [← Nat.cast_lt (α := ℚ), ← div_lt_one hpos, scaleRatio_eq, zpow_neg, ← div_eq_mul_inv,
    div_lt_one (zpow_pos two_pos k)]

theorem two_pow_log2_le (hnum : 0 < num) : (2 : ℚ) ^ num.log2 ≤ num := by
  exact_mod_cast Nat.log2_self_le hnum.ne'

theorem lt_two_pow_log2 (num : Nat) : (num : ℚ) < 2 ^ (num.log2 + 1) := by
  exact_mod_cast Nat.lt_log2_self

theorem ratioLog2_spec (hnum : 0 < num) (hden : 0 < den) :
    (2 : ℚ) ^ ratioLog2 num den ≤ num / den ∧ (num / den : ℚ) < 2 ^ (ratioLog2 num den + 1) := by
  have hden' : (0 : ℚ) < den := Nat.cast_pos.mpr hden
  have hlow : (2 : ℚ) ^ ((num.log2 : ℤ) - den.log2 - 1) ≤ num / den := by
    rw [sub_sub, zpow_sub₀ two_ne_zero, ← Nat.cast_succ, zpow_natCast, zpow_natCast]
    exact div_le_div₀ (Nat.cast_nonneg _) (two_pow_log2_le hnum) hden' (lt_two_pow_log2 den).le
  have hhigh : (num / den : ℚ) < 2 ^ ((num.log2 : ℤ) - den.log2 + 1) := by
    rw [sub_add_eq_add_sub, zpow_sub₀ two_ne_zero, ← Nat.cast_succ, zpow_natCast, zpow_natCast]
    exact div_lt_div₀ (lt_two_pow_log2 num) (two_pow_log2_le hden) (by positivity) (by positivity)
  have hlog : ratioLog2 num den =
      if (num / den : ℚ) < 2 ^ ((num.log2 : ℤ) - den.log2) then (num.log2 : ℤ) - den.log2 - 1
      else (num.log2 : ℤ) - den.log2 := by
    simp only [← scaleRatio_lt_iff hden]
    rfl
  rw [hlog]
  split
  · next h => exact ⟨hlow, by rwa [sub_add_cancel]⟩
  · next h => exact ⟨not_lt.mp h, hhigh⟩

namespace Binary64

/-- Counted in units of the last place, a ratio is a significand, and it has its leading bit unless
the unit is the least one. -/
theorem unitExponent_spec (hnum : 0 < num) (hden : 0 < den) :
    (num / den : ℚ) < 2 ^ (unitExponent num den + 53) ∧
      (unitExponent num den = -1074 ∨ (2 : ℚ) ^ (unitExponent num den + 52) ≤ num / den) := by
  obtain ⟨hlow, hhigh⟩ := ratioLog2_spec hnum hden
  rw [unitExponent]
  refine ⟨hhigh.trans_le (zpow_le_zpow_right₀ one_le_two (by omega)), ?_⟩
  rcases le_total (ratioLog2 num den - 52) (-1074) with h | h
  · exact .inl (max_eq_right h)
  · rw [max_eq_left h, sub_add_cancel]
    exact .inr hlow

end Binary64
end Offside
