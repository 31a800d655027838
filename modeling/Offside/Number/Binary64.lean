/-!
# Double-precision numbers

A number of the format binary64 of IEEE 754, given by its 64 bits: one for the sign, eleven for
the exponent, 52 for the fraction. A finite number is `± significand · 2 ^ exponent`.
-/

namespace Offside

structure Binary64 where
  bits : UInt64
  deriving DecidableEq, Inhabited, Repr

namespace Binary64

/-- The bit of the sign, `2 ^ 63`. -/
def signBit : Nat := 0x8000000000000000

/-- The lowest bit of the exponent, `2 ^ 52`. It is also the leading bit of the significand of a
normal number, which is not stored. -/
def hiddenBit : Nat := 0x10000000000000

/-- The bits of infinity without its sign; greater ones are those of a NaN. -/
def infinityBits : Nat := 0x7FF * hiddenBit

def ofMagnitude (negative : Bool) (magnitude : Nat) : Binary64 :=
  ⟨UInt64.ofNat (magnitude + if negative then signBit else 0)⟩

def infinity (negative : Bool) : Binary64 :=
  ofMagnitude negative infinityBits

def nan : Binary64 :=
  ofMagnitude false (infinityBits + hiddenBit / 2)

def isNegative (x : Binary64) : Bool :=
  signBit ≤ x.bits.toNat

/-- The bits without the sign. -/
def magnitude (x : Binary64) : Nat :=
  x.bits.toNat % signBit

def isNaN (x : Binary64) : Bool :=
  infinityBits < x.magnitude

def isInfinite (x : Binary64) : Bool :=
  x.magnitude = infinityBits

def isZero (x : Binary64) : Bool :=
  x.magnitude = 0

def biasedExponent (x : Binary64) : Nat :=
  x.magnitude / hiddenBit

def fraction (x : Binary64) : Nat :=
  x.magnitude % hiddenBit

def significand (x : Binary64) : Nat :=
  if x.biasedExponent = 0 then x.fraction else x.fraction + hiddenBit

def exponent (x : Binary64) : Int :=
  (max x.biasedExponent 1 : Nat) - 1075

/-- Equality of numbers: a NaN equals nothing, and the two zeros are equal. -/
def same (x y : Binary64) : Bool :=
  !x.isNaN && !y.isNaN && (x = y || x.isZero && y.isZero)

theorem same_comm (x y : Binary64) : x.same y = y.same x := by
  simp only [same, Bool.and_comm, eq_comm]

theorem same_self_iff {x : Binary64} : x.same x = true ↔ x.isNaN = false := by
  simp [same]

end Binary64
end Offside
