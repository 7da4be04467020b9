/-!
# Reals: double precision and its border to the integers

A real is an IEEE 754 double. This file fixes the two roads between reals and machine integers and
the exact reading of a double as sign, significand and power of two.

* `ofInteger`: the double nearest to an integer, a tie going to the even significand;
* `truncate`: the integer part, clamped to the machine range, with 0 for a number that is none;
* `parts`: what the 64 bits say.
-/

namespace StackLang.Real

/-! ## 1. Reals and integers -/

/-- The double nearest to an integer. -/
def ofInteger (n : Int64) : Float :=
  Float.ofInt n.toInt

/-- The nearest value of the signed 64-bit range. -/
def clamp (n : Int) : Int64 :=
  Int64.ofInt (max (-9223372036854775808) (min n 9223372036854775807))

/-- The integer part of a real: rounded toward zero, clamped to the machine range, and 0 for a
value that is not a number. -/
def truncate (r : Float) : Int64 :=
  if r < 0 then clamp (-((-r).toUInt64.toNat : Int)) else clamp r.toUInt64.toNat

/-- Inside the range, clamping changes nothing. -/
theorem clamp_toInt (n : Int64) : clamp n.toInt = n := by
  have hlo := Int64.le_toInt n
  have hhi := Int64.toInt_lt n
  have hclamp : max (-9223372036854775808) (min n.toInt 9223372036854775807) = n.toInt := by omega
  rw [clamp, hclamp, Int64.ofInt_toInt]

/-! ## 2. The parts of a double -/

/-- What a double denotes. A finite one is `significand * 2 ^ exponent` under its sign; zero has
the significand 0 and keeps its sign. -/
inductive Parts where
  | notANumber
  | infinite (negative : Bool)
  | finite (negative : Bool) (significand : Nat) (exponent : Int)
  deriving DecidableEq, Repr

/-- The leading bit of a significand, which the 64 bits of a normal double leave out. -/
def hiddenBit : Nat := 4503599627370496

/-- The parts of the double of the given bits: one bit of sign, eleven of exponent, fifty-two of
fraction. -/
def partsOfBits (bits : Nat) : Parts :=
  let negative := (bits >>> 63) % 2 = 1
  let biased : Nat := (bits >>> 52) % 2048
  let fraction : Nat := bits % hiddenBit
  if biased = 2047 then
    if fraction = 0 then .infinite negative else .notANumber
  else if biased = 0 then
    .finite negative fraction (-1074)
  else
    .finite negative (fraction + hiddenBit) (biased - 1075)

/-- The parts of a real. -/
def parts (r : Float) : Parts :=
  partsOfBits r.toBits.toNat

end StackLang.Real
