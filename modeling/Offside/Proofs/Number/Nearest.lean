import Mathlib.Tactic.Linarith
import Offside.Proofs.Number.Quantity
import Offside.Proofs.Number.Rounding

/-!
# What a number rounds to

A number rounds to the nearest double, and to the one with the even significand if two are equally
near. From the middle between the greatest finite double and the next power of two on, it rounds to
infinity. That determines the double, and the one that is computed for a decimal meets it.
-/

namespace Offside
namespace Binary64

/-- The middle between the greatest finite double and the power of two behind it. -/
def overflow : ℚ := 2 ^ 1024 - 2 ^ 970

/-- The double is what the number `q` rounds to. Its sign is given, as `q` or the double may be
zero. -/
inductive Rounds (negative : Bool) (q : ℚ) (x : Binary64) : Prop
  | infinite (hq : overflow ≤ |q|) (hx : x.quantity? = some (.infinite negative))
  | finite {v : ℚ} (hq : |q| < overflow) (hsign : x.isNegative = negative)
      (hx : x.quantity? = some (.finite v))
      (hnearest : ∀ y w, quantity? y = some (.finite w) → |v - q| ≤ |w - q|)
      (heven : ∀ y w, quantity? y = some (.finite w) → |w - q| = |v - q| →
        w = v ∨ Even x.significand)

section Distances

variable {a b r : ℚ}

/-- Of two numbers the lower one is nearer to what is not above their middle. -/
theorem abs_sub_le_abs_sub_iff (h : a < b) : |a - r| ≤ |b - r| ↔ 2 * r ≤ a + b := by
  rw [← sq_le_sq, ← sub_nonneg, show (b - r) ^ 2 - (a - r) ^ 2 = (b - a) * (a + b - 2 * r) by ring,
    mul_nonneg_iff_of_pos_left (sub_pos.mpr h), sub_nonneg]

theorem abs_sub_le_abs_sub_iff' (h : a < b) : |b - r| ≤ |a - r| ↔ a + b ≤ 2 * r := by
  rw [← sq_le_sq, ← sub_nonneg,
    show (a - r) ^ 2 - (b - r) ^ 2 = (b - a) * (2 * r - (a + b)) by ring,
    mul_nonneg_iff_of_pos_left (sub_pos.mpr h), sub_nonneg]

end Distances

/-- The number that has the magnitude `r` and this sign. -/
def signed (negative : Bool) (r : ℚ) : ℚ :=
  if negative then -r else r

section Signs

variable {negative : Bool} {a r : ℚ}

theorem signed_signed (negative : Bool) (r : ℚ) : signed negative (signed negative r) = r := by
  cases negative <;> simp [signed]

theorem abs_signed (negative : Bool) (r : ℚ) : |signed negative r| = |r| := by
  cases negative <;> simp [signed]

theorem abs_signed_sub_signed (negative : Bool) (a r : ℚ) :
    |signed negative a - signed negative r| = |a - r| := by
  cases negative
  · rfl
  · rw [signed, signed, if_pos rfl, if_pos rfl, neg_sub_neg, abs_sub_comm]

/-- With the other sign a number is as far away as zero and the number together. -/
theorem abs_signed_sub_of_ne {other : Bool} (h : other ≠ negative) (ha : 0 ≤ a) (hr : 0 ≤ r) :
    |signed other a - signed negative r| = a + r := by
  have hneg : signed other a = signed negative (-a) := by
    obtain rfl := Bool.eq_not_of_ne h
    cases negative <;> simp [signed]
  rw [hneg, abs_signed_sub_signed, ← abs_neg, neg_sub, sub_neg_eq_add, add_comm,
    abs_of_nonneg (add_nonneg ha hr)]

end Signs

/-- The least positive double. -/
def leastUnit : ℚ := 2 ^ (-1074 : ℤ)

theorem leastUnit_pos : 0 < leastUnit :=
  zpow_pos two_pos _

theorem two_pow_mul_leastUnit (e : Nat) : 2 ^ (e + 1074) * leastUnit = 2 ^ e := by
  rw [leastUnit, zpow_neg, zpow_ofNat, pow_add, mul_inv_cancel_right₀ (pow_ne_zero _ two_ne_zero)]

/-- The middle in which overflow begins, in terms of the bits around it. -/
theorem middle_eq_overflow :
    (unitsOf (infinityBits - 1) + unitsOf infinityBits : ℚ) * leastUnit = 2 * overflow := by
  have hgreatest : infinityBits - 1 = (971 + 1074) * hiddenBit + 9007199254740991 := by decide
  have hinfinity : infinityBits = (971 + 1074) * hiddenBit + 9007199254740992 := by decide
  have hpow := two_pow_mul_leastUnit 971
  have hoverflow : overflow = 2 ^ (54 + 970) - 2 ^ 970 := rfl
  rw [pow_add] at hoverflow
  have hdouble : (2 : ℚ) ^ 971 = 2 ^ 970 * 2 := pow_succ 2 970
  rw [hgreatest, hinfinity, unitsOf_eq (.inr (by decide)) (by decide),
    unitsOf_eq (.inr (by decide)) (by decide), hoverflow, Nat.cast_mul, Nat.cast_mul, Nat.cast_pow,
    Nat.cast_ofNat, Nat.cast_ofNat, Nat.cast_ofNat, ← add_mul, mul_assoc, hpow, hdouble]
  generalize (2 : ℚ) ^ 970 = unit
  ring

variable {x y : Binary64} {negative : Bool} {m k : Nat} {q r : ℚ}

theorem value_eq_signed (x : Binary64) :
    x.value = signed x.isNegative (unitsOf x.magnitude * leastUnit) := by
  rw [value_eq, signed, leastUnit]
  cases x.isNegative <;> simp

theorem abs_value_sub (h : x.isNegative = negative) (r : ℚ) :
    |x.value - signed negative (r * leastUnit)| = |unitsOf x.magnitude - r| * leastUnit := by
  rw [value_eq_signed, h, abs_signed_sub_signed, ← sub_mul, abs_mul, abs_of_pos leastUnit_pos]

theorem abs_value_sub_of_ne (h : x.isNegative ≠ negative) (hr : 0 ≤ r) :
    |x.value - signed negative (r * leastUnit)| = (unitsOf x.magnitude + r) * leastUnit := by
  have hunit := leastUnit_pos.le
  rw [value_eq_signed, abs_signed_sub_of_ne h (mul_nonneg (Nat.cast_nonneg _) hunit)
    (mul_nonneg hr hunit), ← add_mul]

theorem quantity?_eq_finite_iff {v : ℚ} :
    x.quantity? = some (.finite v) ↔ x.magnitude < infinityBits ∧ x.value = v := by
  rw [quantity?, isNaN, isInfinite]
  rcases Nat.lt_trichotomy x.magnitude infinityBits with h | h | h
  · simp [h, h.le, h.ne]
  · simp [h]
  · simp [h, h.le]

theorem quantity?_eq_infinite_iff {b : Bool} :
    x.quantity? = some (.infinite b) ↔ x.magnitude = infinityBits ∧ x.isNegative = b := by
  rw [quantity?, isNaN, isInfinite]
  rcases Nat.lt_trichotomy x.magnitude infinityBits with h | h | h
  · simp [h.le, h.ne]
  · simp [h]
  · simp [h, h.ne']

theorem ofMagnitude_spec (hm : m ≤ infinityBits) (negative : Bool) :
    (ofMagnitude negative m).isNegative = negative ∧ (ofMagnitude negative m).magnitude = m := by
  have hsign : m < signBit := hm.trans_lt (by decide)
  have hbits : (ofMagnitude negative m).bits.toNat = m + if negative then signBit else 0 := by
    refine UInt64.toNat_ofNat_of_lt' ?_
    simp only [signBit] at hsign ⊢
    simp only [UInt64.size]
    split <;> omega
  rw [isNegative, magnitude, hbits]
  cases negative
  · simp [hsign, Nat.mod_eq_of_lt hsign]
  · simp [Nat.mod_eq_of_lt hsign]

theorem even_hiddenBit : Even hiddenBit := by
  decide

/-- The last bit of a double is that of its significand. -/
theorem even_significand_iff : Even x.significand ↔ Even x.magnitude := by
  rw [Nat.even_iff, Nat.even_iff, significand, fraction, hiddenBit]
  split <;> omega

theorem magnitude_eq_of_value (h : x.value = y.value) : x.magnitude = y.magnitude := by
  rcases value_inj.mp h with rfl | ⟨hx, hy⟩
  · rfl
  · rw [isZero, decide_eq_true_iff] at hx hy
    exact hx.trans hy.symm

/-- No bits of a finite double are those of a nearer number, nor of one as near if these are odd. -/
def IsNearest (m : Nat) (r : ℚ) : Prop :=
  ∀ k < infinityBits, |unitsOf m - r| ≤ |unitsOf k - r| ∧
    (|unitsOf k - r| = |unitsOf m - r| → k = m ∨ Even m)

theorem Rounds.isNearest (h : Rounds negative (signed negative (r * leastUnit)) x)
    (hr : |r * leastUnit| < overflow) :
    x.magnitude < infinityBits ∧ x.isNegative = negative ∧ IsNearest x.magnitude r := by
  cases h with
  | infinite hq _ => exact absurd hr (by rwa [abs_signed, ← not_lt] at hq)
  | finite _ hsign hx hnearest heven =>
      obtain ⟨hm, rfl⟩ := quantity?_eq_finite_iff.mp hx
      refine ⟨hm, hsign, fun k hk ↦ ?_⟩
      obtain ⟨hsign', hmagnitude⟩ := ofMagnitude_spec hk.le negative
      generalize ofMagnitude negative k = y at *
      have hy : y.quantity? = some (.finite y.value) :=
        quantity?_eq_finite_iff.mpr ⟨hmagnitude ▸ hk, rfl⟩
      have hnearest := hnearest y _ hy
      have heven := heven y _ hy
      rw [abs_value_sub hsign, abs_value_sub hsign', hmagnitude] at hnearest heven
      refine ⟨le_of_mul_le_mul_right hnearest leastUnit_pos, fun hequal ↦ ?_⟩
      rw [even_significand_iff, hequal] at heven
      exact (heven rfl).imp_left fun hvalue ↦ hmagnitude ▸ magnitude_eq_of_value hvalue

theorem Rounds.infinite_of_le (h : Rounds negative (signed negative r) x) (hr : overflow ≤ |r|) :
    x.magnitude = infinityBits ∧ x.isNegative = negative := by
  cases h with
  | infinite _ hx => exact quantity?_eq_infinite_iff.mp hx
  | finite hq _ _ _ _ => exact absurd hr (by rwa [abs_signed, ← not_le] at hq)

/-- The bits are those of the number nearest to `r` units, or of the even one of two that are
equally near: `r` lies between the middles to the numbers below and above. -/
structure NearestBits (m : Nat) (r : ℚ) : Prop where
  below : ∀ k < m, unitsOf k + unitsOf m ≤ 2 * r ∧ (unitsOf k + unitsOf m = 2 * r → Even m)
  above : ∀ k > m, 2 * r ≤ unitsOf m + unitsOf k ∧ (2 * r = unitsOf m + unitsOf k → Even m)

namespace NearestBits

theorem cast_lt (h : k < m) : (unitsOf k : ℚ) < unitsOf m :=
  Nat.cast_lt.mpr (strictMono_unitsOf h)

theorem abs_sub_le (h : NearestBits m r) (k : Nat) : |unitsOf m - r| ≤ |unitsOf k - r| ∧
    (|unitsOf k - r| = |unitsOf m - r| → k = m ∨ Even m) := by
  rcases Nat.lt_trichotomy k m with hk | rfl | hk
  · obtain ⟨hle, heven⟩ := h.below k hk
    refine ⟨(abs_sub_le_abs_sub_iff' (cast_lt hk)).mpr hle, fun hequal ↦ .inr (heven ?_)⟩
    exact hle.antisymm ((abs_sub_le_abs_sub_iff (cast_lt hk)).mp hequal.le)
  · exact ⟨le_rfl, fun _ ↦ .inl rfl⟩
  · obtain ⟨hle, heven⟩ := h.above k hk
    refine ⟨(abs_sub_le_abs_sub_iff (cast_lt hk)).mpr hle, fun hequal ↦ .inr (heven ?_)⟩
    exact hle.antisymm ((abs_sub_le_abs_sub_iff' (cast_lt hk)).mp hequal.le)

/-- The lower one of two neighbours is the result up to their middle. -/
theorem of_lower (hlow : unitsOf m ≤ r) (hmiddle : 2 * r ≤ unitsOf m + unitsOf (m + 1))
    (heven : 2 * r = unitsOf m + unitsOf (m + 1) → Even m) : NearestBits m r where
  below k hk := by
    have hlt := cast_lt hk
    exact ⟨by linarith only [hlt, hlow], fun h ↦ by linarith only [hlt, hlow, h]⟩
  above k hk := by
    have hle : (unitsOf (m + 1) : ℚ) ≤ unitsOf k := Nat.cast_le.mpr (strictMono_unitsOf.monotone hk)
    exact ⟨by linarith only [hle, hmiddle], fun h ↦ heven (by linarith only [hle, hmiddle, h])⟩

theorem of_upper (hhigh : r ≤ unitsOf (m + 1)) (hmiddle : unitsOf m + unitsOf (m + 1) ≤ 2 * r)
    (heven : unitsOf m + unitsOf (m + 1) = 2 * r → Even (m + 1)) : NearestBits (m + 1) r where
  below k hk := by
    have hle : (unitsOf k : ℚ) ≤ unitsOf m :=
      Nat.cast_le.mpr (strictMono_unitsOf.monotone (Nat.le_of_lt_succ hk))
    exact ⟨by linarith only [hle, hmiddle], fun h ↦ heven (by linarith only [hle, hmiddle, h])⟩
  above k hk := by
    have hlt := cast_lt hk
    exact ⟨by linarith only [hlt, hhigh], fun h ↦ by linarith only [hlt, hhigh, h]⟩

/-- Between two neighbours it depends on the fraction behind the lower one. -/
theorem of_fraction {e s t : Nat} {f : ℚ} (hs : e = 0 ∨ hiddenBit ≤ s) (hs' : s < 2 * hiddenBit)
    (hf : 0 ≤ f) (hf' : f ≤ 1) (ht : t = 0 ∧ 2 * f ≤ 1 ∨ t = 1 ∧ 1 ≤ 2 * f)
    (heven : 2 * f = 1 → Even (s + t)) :
    NearestBits (e * hiddenBit + (s + t)) ((s + f) * 2 ^ e) := by
  have hunit : (0 : ℚ) < 2 ^ e := pow_pos two_pos e
  have hlow : (unitsOf (e * hiddenBit + s) : ℚ) = s * 2 ^ e := by
    rw [unitsOf_eq hs hs'.le, Nat.cast_mul, Nat.cast_pow, Nat.cast_ofNat]
  have hhigh : (unitsOf (e * hiddenBit + s + 1) : ℚ) = (s + 1) * 2 ^ e := by
    rw [Nat.add_assoc, unitsOf_eq (hs.imp_right Nat.le_succ_of_le) hs', Nat.cast_mul, Nat.cast_pow,
      Nat.cast_ofNat, Nat.cast_succ]
  have hmiddle : 2 * ((s + f) * 2 ^ e) - (s * 2 ^ e + (s + 1) * 2 ^ e) = (2 * f - 1) * 2 ^ e := by
    ring
  have htie (h : (2 * f - 1) * 2 ^ e = 0) : Even (e * hiddenBit + (s + t)) := by
    have hhalf := (mul_eq_zero_iff_right hunit.ne').mp h
    exact (even_hiddenBit.mul_left e).add (heven (sub_eq_zero.mp hhalf))
  rcases ht with ⟨rfl, hle⟩ | ⟨rfl, hle⟩
  · have hneg := mul_nonpos_of_nonpos_of_nonneg (sub_nonpos.mpr hle) hunit.le
    rw [Nat.add_zero] at htie ⊢
    refine of_lower ?_ ?_ fun h ↦ htie ?_
    · rw [hlow]
      exact mul_le_mul_of_nonneg_right (le_add_of_nonneg_right hf) hunit.le
    · rw [hlow, hhigh]
      linarith only [hmiddle, hneg]
    · rw [hlow, hhigh] at h
      linarith only [hmiddle, h]
  · have hpos := mul_nonneg (sub_nonneg.mpr hle) hunit.le
    rw [← Nat.add_assoc] at htie ⊢
    refine of_upper ?_ ?_ fun h ↦ htie ?_
    · rw [hhigh]
      exact mul_le_mul_of_nonneg_right (add_le_add_right hf' _) hunit.le
    · rw [hlow, hhigh]
      linarith only [hmiddle, hpos]
    · rw [hlow, hhigh] at h
      linarith only [hmiddle, h]

/-- Rounding to an integer number of units rounds to a double, if the units are those of its last
place. -/
theorem of_quotient {n d e : Nat} (hd : 0 < d) (hn : e = 0 ∨ hiddenBit * d ≤ n)
    (hlt : n < 2 * hiddenBit * d) :
    NearestBits (e * hiddenBit + roundHalfEven n d) (n / d * 2 ^ e) := by
  have hd' : (0 : ℚ) < d := Nat.cast_pos.mpr hd
  have hsplit : (n : ℚ) / d = (n / d : ℕ) + (n % d : ℕ) / d := by
    rw [div_eq_iff hd'.ne', add_mul, div_mul_cancel₀ _ hd'.ne']
    exact_mod_cast (Nat.div_add_mod' n d).symm
  obtain ⟨t, ht, hside, heven⟩ := roundHalfEven_spec n d
  rw [hsplit, ht]
  refine of_fraction (hn.imp_right (Nat.le_div_iff_mul_le hd).mpr)
    ((Nat.div_lt_iff_lt_mul hd).mpr hlt) (div_nonneg (Nat.cast_nonneg _) hd'.le)
    ((div_le_one hd').mpr (Nat.cast_le.mpr (Nat.mod_lt n hd).le)) ?_ fun htie ↦ heven ?_
  · rw [← mul_div_assoc, div_le_one hd', one_le_div hd']
    exact_mod_cast hside
  · rw [← mul_div_assoc, div_eq_one_iff_eq hd'.ne'] at htie
    exact_mod_cast htie

/-- From the middle behind the greatest double on the result is infinite. -/
theorem infinityBits_le_iff (h : NearestBits m r) :
    infinityBits ≤ m ↔ overflow ≤ r * leastUnit := by
  have hscale : overflow ≤ r * leastUnit ↔
      (unitsOf (infinityBits - 1) + unitsOf infinityBits : ℚ) ≤ 2 * r := by
    rw [← mul_le_mul_iff_of_pos_left (two_pos : (0 : ℚ) < 2), ← middle_eq_overflow, ← mul_assoc,
      mul_le_mul_iff_of_pos_right leastUnit_pos]
  rw [hscale]
  constructor
  · intro hm
    have hbelow := (h.below (infinityBits - 1) hm).1
    have hle : (unitsOf infinityBits : ℚ) ≤ unitsOf m :=
      Nat.cast_le.mpr (strictMono_unitsOf.monotone hm)
    linarith only [hbelow, hle]
  · intro hr
    by_contra hm
    have hm : m < infinityBits := Nat.lt_of_not_le hm
    obtain ⟨habove, heven⟩ := h.above infinityBits hm
    have hle : (unitsOf m : ℚ) ≤ unitsOf (infinityBits - 1) :=
      Nat.cast_le.mpr (strictMono_unitsOf.monotone (Nat.le_sub_one_of_lt hm))
    have hequal : (unitsOf m : ℚ) = unitsOf (infinityBits - 1) := by
      linarith only [habove, hle, hr]
    obtain rfl := strictMono_unitsOf.injective (Nat.cast_injective hequal)
    exact absurd (heven (by linarith only [habove, hr])) (by decide)

/-- No double is nearer, whatever its sign, and one that is as near is the same or the bits are
even. -/
theorem le_abs_value_sub (h : NearestBits m r) (hr : 0 ≤ r) (negative : Bool) (y : Binary64) :
    |unitsOf m - r| * leastUnit ≤ |y.value - signed negative (r * leastUnit)| ∧
      (|y.value - signed negative (r * leastUnit)| = |unitsOf m - r| * leastUnit →
        y.isNegative = negative ∧ y.magnitude = m ∨ Even m) := by
  have hpos := leastUnit_pos
  by_cases hsign : y.isNegative = negative
  · obtain ⟨hle, heven⟩ := h.abs_sub_le y.magnitude
    rw [abs_value_sub hsign, mul_left_inj' hpos.ne']
    exact ⟨mul_le_mul_of_nonneg_right hle hpos.le,
      fun hequal ↦ (heven hequal).imp_left (And.intro hsign)⟩
  · -- With the other sign, zero is at least as near as `y`.
    obtain ⟨hle, heven⟩ := h.abs_sub_le 0
    have hzero : |(unitsOf 0 : ℚ) - r| = r := by
      rw [show unitsOf 0 = 0 from rfl, Nat.cast_zero, zero_sub, abs_neg, abs_of_nonneg hr]
    have hnonneg : (0 : ℚ) ≤ unitsOf y.magnitude := Nat.cast_nonneg _
    rw [hzero] at hle heven
    rw [abs_value_sub_of_ne hsign hr, mul_left_inj' hpos.ne']
    refine ⟨mul_le_mul_of_nonneg_right (by linarith only [hle, hnonneg]) hpos.le,
      fun hequal ↦ .inr ?_⟩
    refine (heven ?_).elim (fun hm ↦ hm ▸ Even.zero) id
    linarith only [hequal, hle, hnonneg]

/-- Below the bits of infinity the result is finite, and from there on infinite. -/
theorem rounds (h : NearestBits m r) (hr : 0 ≤ r) (negative : Bool) :
    Rounds negative (signed negative (r * leastUnit))
      (ofMagnitude negative (min m infinityBits)) := by
  have habs : |signed negative (r * leastUnit)| = r * leastUnit := by
    rw [abs_signed, abs_of_nonneg (mul_nonneg hr leastUnit_pos.le)]
  obtain ⟨hsign, hmagnitude⟩ := ofMagnitude_spec (Nat.min_le_right m infinityBits) negative
  generalize ofMagnitude negative (min m infinityBits) = x at *
  rcases le_or_gt infinityBits m with hm | hm
  · rw [Nat.min_eq_right hm] at hmagnitude
    exact .infinite (by rwa [habs, ← h.infinityBits_le_iff])
      (quantity?_eq_infinite_iff.mpr ⟨hmagnitude, hsign⟩)
  rw [Nat.min_eq_left hm.le] at hmagnitude
  refine .finite (by rwa [habs, ← not_le, ← h.infinityBits_le_iff, not_le]) hsign
    (quantity?_eq_finite_iff.mpr ⟨hmagnitude ▸ hm, rfl⟩) (fun y w hy ↦ ?_) fun y w hy hequal ↦ ?_
  · obtain ⟨-, rfl⟩ := quantity?_eq_finite_iff.mp hy
    rw [abs_value_sub hsign, hmagnitude]
    exact (h.le_abs_value_sub hr negative y).1
  · obtain ⟨-, rfl⟩ := quantity?_eq_finite_iff.mp hy
    rw [abs_value_sub hsign, hmagnitude] at hequal
    rw [even_significand_iff, hmagnitude]
    refine ((h.le_abs_value_sub hr negative y).2 hequal).imp_left fun hsame ↦ ?_
    rw [value_eq_signed, value_eq_signed, hsign, hsame.1, hsame.2, hmagnitude]

end NearestBits

theorem rounds_ofRatio {num den : Nat} (hnum : 0 < num) (hden : 0 < den) (negative : Bool) :
    Rounds negative (signed negative (num / den)) (ofRatio negative num den) := by
  obtain ⟨hhigh, hlow⟩ := unitExponent_spec hnum hden
  have hpos := scaleRatio_pos num hden (-unitExponent num den)
  have hscaled := scaleRatio_eq num den (-unitExponent num den)
  have hunits : (unitExponent num den + 1074).toNat = unitExponent num den + 1074 :=
    Int.toNat_of_nonneg (by linarith only [show -1074 ≤ unitExponent num den from le_max_right _ _])
  rw [ofRatio]
  generalize unitExponent num den = u at *
  generalize scaleRatio num den (-u) = p at *
  generalize (u + 1074).toNat = e at *
  obtain ⟨n, d⟩ := p
  have hd : (0 : ℚ) < d := Nat.cast_pos.mpr hpos
  have hratio : (num / den : ℚ) = n / d * 2 ^ u := by
    rw [hscaled, mul_assoc, ← zpow_add₀ two_ne_zero, neg_add_cancel, zpow_zero, mul_one]
  have hunit : (0 : ℚ) < 2 ^ u := zpow_pos two_pos u
  have hvalue : (n / d * 2 ^ e : ℚ) * leastUnit = num / den := by
    rw [hratio, leastUnit, mul_assoc, ← zpow_natCast, ← zpow_add₀ two_ne_zero, hunits,
      add_neg_cancel_right]
  have hbit : (hiddenBit : ℚ) = 2 ^ 52 := by
    norm_num [hiddenBit]
  have hbelow : n < 2 * hiddenBit * d := by
    rw [hratio, add_comm, zpow_add₀ two_ne_zero, mul_lt_mul_iff_of_pos_right hunit,
      div_lt_iff₀ hd] at hhigh
    rw [← Nat.cast_lt (α := ℚ), Nat.cast_mul, Nat.cast_mul, hbit]
    exact hhigh.trans_eq (by norm_num)
  have habove : e = 0 ∨ hiddenBit * d ≤ n := by
    refine hlow.imp (fun hu ↦ by omega) fun hlow ↦ ?_
    rw [hratio, add_comm, zpow_add₀ two_ne_zero, mul_le_mul_iff_of_pos_right hunit,
      le_div_iff₀ hd] at hlow
    rw [← Nat.cast_le (α := ℚ), Nat.cast_mul, hbit]
    exact hlow
  have hrounds := (NearestBits.of_quotient hpos habove hbelow).rounds ?_ negative
  · rwa [hvalue] at hrounds
  · exact mul_nonneg (div_nonneg (Nat.cast_nonneg _) hd.le) (pow_nonneg two_pos.le _)

/-- What is at most half the least positive double rounds to zero. -/
theorem rounds_zero (hq : 0 ≤ q) (hsmall : 2 * q ≤ leastUnit) (negative : Bool) :
    Rounds negative (signed negative q) (ofMagnitude negative 0) := by
  have hr : 0 ≤ q / leastUnit := div_nonneg hq leastUnit_pos.le
  have hhalf : 2 * (q / leastUnit) ≤ 1 := by
    rwa [← mul_div_assoc, div_le_one leastUnit_pos]
  have hbits : NearestBits 0 (q / leastUnit) := by
    have hone : (unitsOf 0 : ℚ) + unitsOf (0 + 1) = 1 := by
      rw [show unitsOf 0 = 0 from rfl, show unitsOf (0 + 1) = 1 from rfl, Nat.cast_zero,
        Nat.cast_one, zero_add]
    exact .of_lower (by rwa [show unitsOf 0 = 0 from rfl, Nat.cast_zero]) (hone ▸ hhalf)
      fun _ ↦ Even.zero
  have hrounds := hbits.rounds hr negative
  rwa [div_mul_cancel₀ _ leastUnit_pos.ne', Nat.zero_min] at hrounds

theorem overflow_le_ten_zpow {e : Int} (he : 400 < e) : overflow ≤ (10 : ℚ) ^ e := by
  calc overflow ≤ (2 : ℚ) ^ 1024 := sub_le_self _ (pow_nonneg two_pos.le _)
    _ = 2 ^ (1024 : ℤ) := (zpow_ofNat 2 1024).symm
    _ ≤ 2 ^ (3 * e) := zpow_le_zpow_right₀ one_le_two (by omega)
    _ = (2 ^ (3 : ℤ)) ^ e := zpow_mul 2 3 e
    _ ≤ 10 ^ e := zpow_le_zpow_left₀ (by omega) (by norm_num) (by norm_num)

theorem mul_ten_zpow_le {c : Nat} {e : Int} (h : (c.log2 : Int) + 1 + 3 * e < -1100) :
    2 * (c * 10 ^ e) ≤ leastUnit := by
  obtain ⟨n, rfl⟩ := Int.exists_eq_neg_ofNat (show e ≤ 0 by omega)
  have hten : (10 : ℚ) ^ (-n : ℤ) ≤ 2 ^ (3 * (-n) : ℤ) := by
    rw [zpow_mul, zpow_neg, zpow_neg, zpow_natCast, zpow_natCast]
    exact inv_anti₀ (pow_pos (by norm_num) n) (pow_le_pow_left₀ (by norm_num) (by norm_num) n)
  calc (2 * (c * 10 ^ (-n : ℤ)) : ℚ)
    _ ≤ (2 : ℚ) ^ (1 : ℤ) * (2 ^ (c.log2 + 1 : ℤ) * 2 ^ (3 * (-n) : ℤ)) := by
        rw [zpow_one, ← Nat.cast_succ, zpow_natCast]
        exact mul_le_mul_of_nonneg_left (mul_le_mul (lt_two_pow_log2 c).le hten
          (zpow_nonneg (by norm_num) _) (pow_nonneg two_pos.le _)) two_pos.le
    _ = 2 ^ (1 + (c.log2 + 1 + 3 * (-n)) : ℤ) := by
        rw [← zpow_add₀ two_ne_zero, ← zpow_add₀ two_ne_zero]
    _ ≤ leastUnit := zpow_le_zpow_right₀ one_le_two (by omega)

/-- The double that is computed for a decimal is the one to which it rounds. -/
theorem rounds_ofDecimal (negative : Bool) (c : Nat) (e : Int) :
    Rounds negative (signed negative (c * 10 ^ e)) (ofDecimal negative c e) := by
  have hten : (0 : ℚ) < 10 ^ e := zpow_pos (by norm_num) e
  unfold ofDecimal
  split_ifs with hzero hgreat hsmall
  · rw [hzero, Nat.cast_zero, zero_mul]
    exact rounds_zero le_rfl (by rw [mul_zero]; exact leastUnit_pos.le) negative
  · have hc : (1 : ℚ) ≤ c := Nat.one_le_cast.mpr (Nat.pos_of_ne_zero hzero)
    have hle : overflow ≤ c * 10 ^ e :=
      (overflow_le_ten_zpow hgreat).trans (le_mul_of_one_le_left hten.le hc)
    obtain ⟨hsign, hmagnitude⟩ := ofMagnitude_spec le_rfl negative
    refine .infinite ?_ (quantity?_eq_infinite_iff.mpr ⟨hmagnitude, hsign⟩)
    rwa [abs_signed, abs_of_nonneg (mul_nonneg (Nat.cast_nonneg _) hten.le)]
  · exact rounds_zero (mul_nonneg (Nat.cast_nonneg _) hten.le) (mul_ten_zpow_le hsmall) negative
  · have hc : 0 < c := Nat.pos_of_ne_zero hzero
    cases e with
    | ofNat k =>
        have hpow : 0 < Nat.pow 10 k := Nat.pow_pos (by decide)
        have hrounds := rounds_ofRatio (Nat.mul_pos hc hpow) one_pos negative
        have hvalue : ((c * Nat.pow 10 k : ℕ) : ℚ) / (1 : ℕ) = c * 10 ^ Int.ofNat k := by
          rw [Nat.pow_eq, Nat.cast_mul, Nat.cast_pow, Nat.cast_one, div_one, Nat.cast_ofNat,
            Int.ofNat_eq_natCast, zpow_natCast]
        rwa [hvalue] at hrounds
    | negSucc k =>
        have hpow : 0 < Nat.pow 10 (k + 1) := Nat.pow_pos (by decide)
        have hrounds := rounds_ofRatio hc hpow negative
        have hvalue : (c : ℚ) / (Nat.pow 10 (k + 1) : ℕ) = c * 10 ^ Int.negSucc k := by
          rw [Nat.pow_eq, Nat.cast_pow, Nat.cast_ofNat, zpow_negSucc, div_eq_mul_inv]
        rwa [hvalue] at hrounds

/-- Bits that are nearest have no greater ones beside them that are so, too. -/
theorem IsNearest.not_lt (hm : IsNearest m r) (hk : IsNearest k r) (hfinite : k < infinityBits) :
    ¬ m < k := by
  intro hlt
  have hequal := (hm k hfinite).1.antisymm (hk m (hlt.trans hfinite)).1
  -- Both are even, so there are bits between them, and these are nearer than both.
  have heven := ((hm k hfinite).2 hequal.symm).resolve_left hlt.ne'
  have heven' := ((hk m (hlt.trans hfinite)).2 hequal).resolve_left hlt.ne
  have hnext : m + 1 < k := by
    rw [Nat.even_iff] at heven heven'
    omega
  have hbetween := (hm (m + 1) (hnext.trans hfinite)).1
  rw [abs_sub_le_abs_sub_iff (NearestBits.cast_lt m.lt_succ_self)] at hbetween
  have hmiddle := (abs_sub_le_abs_sub_iff' (NearestBits.cast_lt hlt)).mp hequal.ge
  have hless : (unitsOf (m + 1) : ℚ) < unitsOf k := NearestBits.cast_lt hnext
  linarith only [hbetween, hmiddle, hless]

/-- A number rounds to one double only. -/
theorem Rounds.unique (hx : Rounds negative q x) (hy : Rounds negative q y) : x = y := by
  obtain ⟨r, rfl⟩ : ∃ r, q = signed negative (r * leastUnit) :=
    ⟨signed negative q / leastUnit, by rw [div_mul_cancel₀ _ leastUnit_pos.ne', signed_signed]⟩
  rcases lt_or_ge |r * leastUnit| overflow with hr | hr
  · obtain ⟨hm, hsign, hx⟩ := hx.isNearest hr
    obtain ⟨hk, hsign', hy⟩ := hy.isNearest hr
    have hbits := (Nat.le_of_not_lt (hy.not_lt hx hm)).antisymm (Nat.le_of_not_lt (hx.not_lt hy hk))
    exact eq_iff_sign.mpr ⟨hsign.trans hsign'.symm, hbits⟩
  · obtain ⟨hm, hsign⟩ := hx.infinite_of_le hr
    obtain ⟨hk, hsign'⟩ := hy.infinite_of_le hr
    exact eq_iff_sign.mpr ⟨hsign.trans hsign'.symm, hm.trans hk.symm⟩

end Binary64
end Offside
