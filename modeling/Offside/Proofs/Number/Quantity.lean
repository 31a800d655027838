import Mathlib.Algebra.Order.Field.Power
import Mathlib.Algebra.Order.Ring.Rat
import Mathlib.Tactic.Ring
import Offside.Number.Binary64

/-!
# What doubles stand for

A double is an infinity, a rational number or not a number. Equality of doubles is equality of what
they stand for: apart from the two zeros, different finite doubles have different values. Without
their signs, finite doubles are ordered as their bits are.
-/

namespace Offside
namespace Binary64

/-- The value of a finite double. -/
def value (x : Binary64) : ℚ :=
  (if x.isNegative then -1 else 1) * (x.significand * 2 ^ x.exponent)

inductive Quantity where
  | infinite (negative : Bool)
  | finite (value : ℚ)

/-- What the double stands for, unless it is not a number. -/
def quantity? (x : Binary64) : Option Quantity :=
  if x.isNaN then none
  else if x.isInfinite then some (.infinite x.isNegative)
  else some (.finite x.value)

/-- Equality as IEEE 754 has it: both stand for the same. What is not a number equals nothing. -/
def Equals (x y : Binary64) : Prop :=
  ∃ q, x.quantity? = some q ∧ y.quantity? = some q

/-- The number without a sign that has these bits, in units of the least positive double. Behind
those of the doubles the bits go on, and the numbers with them. -/
def unitsOf (magnitude : Nat) : Nat :=
  (if magnitude / hiddenBit = 0 then magnitude % hiddenBit else magnitude % hiddenBit + hiddenBit) *
    2 ^ (magnitude / hiddenBit - 1)

/-- One more than the greatest significand is the least one with twice the unit. -/
theorem unitsOf_eq {e s : Nat} (hs : e = 0 ∨ hiddenBit ≤ s) (hle : s ≤ 2 * hiddenBit) :
    unitsOf (e * hiddenBit + s) = s * 2 ^ e := by
  have hpos : 0 < hiddenBit := by decide
  rcases Nat.lt_trichotomy s hiddenBit with hlt | rfl | hgt
  · obtain rfl := hs.resolve_right (Nat.not_le.mpr hlt)
    rw [Nat.zero_mul, Nat.zero_add, unitsOf, Nat.div_eq_of_lt hlt, Nat.mod_eq_of_lt hlt, if_pos rfl]
  · rw [unitsOf, ← Nat.succ_mul, Nat.mul_div_left _ hpos, Nat.mul_mod_left, if_neg e.succ_ne_zero,
      Nat.zero_add, Nat.succ_sub_one]
  · obtain rfl | hlt := hle.eq_or_lt
    · rw [unitsOf, ← Nat.add_mul, Nat.mul_div_left _ hpos, Nat.mul_mod_left,
        if_neg (Nat.succ_ne_zero _), Nat.zero_add, show e + 2 - 1 = e + 1 from rfl]
      ring
    · obtain ⟨f, rfl⟩ := Nat.exists_eq_add_of_lt hgt
      have hf : f + 1 < hiddenBit := by omega
      have hsplit : e * hiddenBit + (hiddenBit + f + 1) = (f + 1) + hiddenBit * (e + 1) := by ring
      rw [unitsOf, hsplit, Nat.add_mul_div_left _ _ hpos, Nat.add_mul_mod_self_left,
        Nat.div_eq_of_lt hf, Nat.mod_eq_of_lt hf, Nat.zero_add, if_neg e.succ_ne_zero,
        Nat.add_sub_cancel]
      ring

/-- All bits are those of a significand and a unit. -/
theorem exists_eq_significand (m : Nat) : ∃ e s, m = e * hiddenBit + s ∧
    (e = 0 ∨ hiddenBit ≤ s) ∧ s < 2 * hiddenBit := by
  refine ⟨m / hiddenBit - 1, m - (m / hiddenBit - 1) * hiddenBit, ?_⟩
  simp only [hiddenBit]
  omega

/-- The greater number has the greater bits. -/
theorem strictMono_unitsOf : StrictMono unitsOf := by
  refine strictMono_nat_of_lt_succ fun m ↦ ?_
  obtain ⟨e, s, rfl, hs, hlt⟩ := exists_eq_significand m
  rw [unitsOf_eq hs hlt.le, Nat.add_assoc, unitsOf_eq (hs.imp_right Nat.le_succ_of_le) hlt]
  exact Nat.mul_lt_mul_of_pos_right (Nat.lt_succ_self s) (Nat.two_pow_pos e)

variable {x y : Binary64}

theorem value_eq (x : Binary64) :
    x.value = ((if x.isNegative then -1 else 1) * unitsOf x.magnitude : ℤ) * 2 ^ (-1074 : ℤ) := by
  have hexponent : x.exponent = (x.biasedExponent - 1 : ℕ) + (-1074 : ℤ) := by
    rw [exponent]
    omega
  have hunits : unitsOf x.magnitude = x.significand * 2 ^ (x.biasedExponent - 1) := rfl
  rw [value, hexponent, zpow_add₀ two_ne_zero, zpow_natCast, hunits]
  generalize (2 : ℚ) ^ (-1074 : ℤ) = unit
  push_cast
  ring

theorem unitsOf_eq_zero_iff : unitsOf x.magnitude = 0 ↔ x.isZero = true := by
  rw [show 0 = unitsOf 0 from rfl, strictMono_unitsOf.injective.eq_iff, isZero, decide_eq_true_iff]

/-- A double is its sign and its magnitude. -/
theorem eq_iff_sign : x = y ↔ x.isNegative = y.isNegative ∧ x.magnitude = y.magnitude := by
  refine ⟨fun h ↦ h ▸ ⟨rfl, rfl⟩, fun ⟨hsign, hmagnitude⟩ ↦ ?_⟩
  have hx := x.bits.toNat_lt
  have hy := y.bits.toNat_lt
  obtain ⟨b⟩ := x
  obtain ⟨c⟩ := y
  have hbits : b.toNat = c.toNat := by
    rw [isNegative, isNegative, decide_eq_decide] at hsign
    simp only [magnitude, signBit] at *
    omega
  rw [UInt64.toNat_inj.mp hbits]

/-- The two zeros have the same value, and no other different doubles. -/
theorem value_inj : x.value = y.value ↔ x = y ∨ x.isZero ∧ y.isZero := by
  have hunit : (2 : ℚ) ^ (-1074 : ℤ) ≠ 0 := zpow_ne_zero _ two_ne_zero
  rw [value_eq, value_eq, mul_left_inj' hunit, Int.cast_inj, eq_iff_sign,
    ← strictMono_unitsOf.injective.eq_iff, ← unitsOf_eq_zero_iff, ← unitsOf_eq_zero_iff]
  cases x.isNegative <;> cases y.isNegative <;> simp <;> omega

theorem isInfinite_iff : x.isInfinite = true ↔ x.magnitude = infinityBits :=
  decide_eq_true_iff

theorem isZero_eq_false (h : x.isInfinite = true) : x.isZero = false := by
  rw [isZero, isInfinite_iff.mp h]
  rfl

/-- Numbers that stand for the same are the same, or both are zeros. -/
theorem quantity?_inj (hx : x.isNaN = false) (hy : y.isNaN = false) :
    x.quantity? = y.quantity? ↔ x = y ∨ x.isZero ∧ y.isZero := by
  cases hinfx : x.isInfinite <;> cases hinfy : y.isInfinite
  · simp [quantity?, hx, hy, hinfx, hinfy, value_inj]
  · have hne : x ≠ y := fun h ↦ by simp [h, hinfy] at hinfx
    simp [quantity?, hx, hy, hinfx, hinfy, hne, isZero_eq_false hinfy]
  · have hne : x ≠ y := fun h ↦ by simp [h, hinfy] at hinfx
    simp [quantity?, hx, hy, hinfx, hinfy, hne, isZero_eq_false hinfx]
  · have hmagnitude : x.magnitude = y.magnitude := by
      rw [isInfinite_iff.mp hinfx, isInfinite_iff.mp hinfy]
    simp [quantity?, hx, hy, hinfx, hinfy, eq_iff_sign, hmagnitude, isZero_eq_false hinfx]

/-- The comparison of doubles is that of IEEE 754. -/
theorem same_iff_equals : x.same y = true ↔ x.Equals y := by
  cases hx : x.isNaN
  · cases hy : y.isNaN
    · obtain ⟨q, hq⟩ : ∃ q, x.quantity? = some q := by
        cases hinfinite : x.isInfinite <;> simp [quantity?, hx, hinfinite]
      calc x.same y = true ↔ x = y ∨ x.isZero ∧ y.isZero := by simp [same, hx, hy]
        _ ↔ x.quantity? = y.quantity? := (quantity?_inj hx hy).symm
        _ ↔ x.Equals y := ⟨fun h ↦ ⟨q, hq, h ▸ hq⟩, fun ⟨_, h, h'⟩ ↦ h.trans h'.symm⟩
    · simp [same, Equals, quantity?, hy]
  · simp [same, Equals, quantity?, hx]

end Binary64
end Offside
