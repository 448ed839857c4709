/-!
# Magnitudes of doubles

A finite double without its sign is a whole number of *units* of `2 ^ (-1074)`, the least
subnormal. Its bit pattern, read as a natural number, counts the doubles below it, so the order
of the patterns is the order of the values. Everything that needs exact arithmetic on doubles
(reading, printing, remainders) is done on units, in the natural numbers.

The patterns from `infinity` on stand for no finite value. `units` still continues the scale
through `infinity`, which puts the overflow threshold of rounding where it belongs.
-/

namespace Formulary.Number

/-- Units in the number one. -/
def one : Nat := Nat.pow 2 1074

/-- The number of bit patterns from one power of two to the next: a pattern has 52 bits for the
fraction. -/
def binade : Nat := 0x10000000000000

/-- The bit pattern of the sign. -/
def signBit : Nat := 0x8000000000000000

/-- The least bit pattern that is no finite magnitude. -/
def infinity : Nat := 2047 * binade

/-- The units of the magnitude with the given bit pattern. -/
def units (bits : Nat) : Nat :=
  if bits < binade then bits else (binade + bits % binade) * Nat.pow 2 (bits / binade - 1)

/-- The largest magnitude that has at most the given number of units. -/
def ofUnits (u : Nat) : Nat :=
  let shift := u.log2 - 52
  shift * binade + u / Nat.pow 2 shift

/-- Is the sign bit set? -/
def isNegative (x : Float) : Bool := decide (signBit ≤ x.toBits.toNat)

/-- The bit pattern without the sign bit. -/
def magnitude (x : Float) : Nat := x.toBits.toNat % signBit

/-- The double with the given sign and magnitude. -/
def ofMagnitude (negative : Bool) (bits : Nat) : Float :=
  Float.ofBits (UInt64.ofNat (if negative then signBit + bits else bits))

/-- The whole part of a finite double, cut toward zero. -/
def truncate (x : Float) : Int :=
  let whole : Nat := units (magnitude x) / one
  if isNegative x then -(whole : Int) else whole

/-- The exact remainder of a division cut toward zero; it has the sign of the dividend. -/
def remainder (x y : Float) : Float :=
  if x.isNaN || y.isNaN || x.isInf || magnitude y == 0 then Float.ofBits 0x7FF8000000000000
  else if y.isInf then x
  else ofMagnitude (isNegative x) (ofUnits (units (magnitude x) % units (magnitude y)))

/-- In the subnormal and in the first normal binade a magnitude is its own number of units. -/
theorem units_of_lt {bits : Nat} (h : bits < 2 * binade) : units bits = bits := by
  unfold units
  split
  · rfl
  · unfold binade at *
    have h1 : bits / 0x10000000000000 = 1 := by omega
    rw [h1]
    simp only [Nat.sub_self, Nat.pow_eq, Nat.pow_zero]
    omega

example : units 0x3FF0000000000000 = one := by decide +kernel
example : ofUnits one = 0x3FF0000000000000 := by decide +kernel
example : units (infinity - 1) + Nat.pow 2 2045 = units infinity := by decide +kernel

end Formulary.Number
