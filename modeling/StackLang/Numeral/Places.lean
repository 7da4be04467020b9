import StackLang.Numeral.Natural
import StackLang.Real

/-!
# Reals with a fixed number of places

A finite real is written with all the digits before the point and a fixed number after it, never
with an exponent. The exact value of the double is rounded, half to even on that exact value, so
the text is the nearest one of its length (`roundHalfEven`). The sign of a zero is kept.

Reals appear in output with six places (`realText`).
-/

namespace StackLang.Numeral

open StackLang.Real (Parts parts)

/-! ## 1. Rounding a quotient -/

/-- The natural number nearest to `num / den`; of two nearest the even one. -/
def roundHalfEven (num den : Nat) : Nat :=
  let quotient := num / den
  let rest := num % den
  if 2 * rest < den then quotient
  else if den < 2 * rest then quotient + 1
  else quotient + quotient % 2

/-- A whole quotient is its own rounding. -/
theorem roundHalfEven_mul (n : Nat) {den : Nat} (h : 0 < den) :
    roundHalfEven (n * den) den = n := by
  simp [roundHalfEven, Nat.mul_div_cancel n h, h]

/-- Half of an odd number of units goes to the even neighbour, downward and upward. -/
example : roundHalfEven 5 2 = 2 ∧ roundHalfEven 7 2 = 4 := by decide

/-! ## 2. Writing -/

/-- `significand * 2 ^ exponent` in units of `10 ^ -places`, rounded. -/
def inPlaces (places significand : Nat) (exponent : Int) : Nat :=
  if 0 ≤ exponent then
    significand * Nat.pow 10 places * Nat.pow 2 exponent.toNat
  else
    roundHalfEven (significand * Nat.pow 10 places) (Nat.pow 2 (-exponent).toNat)

/-- The digits of `n`, with zeros in front up to the given width. -/
def paddedDigits (width n : Nat) : List Char :=
  let ds := digits n
  List.replicate (width - ds.length) '0' ++ ds

/-- The minus sign of a negative number. -/
def signChars (negative : Bool) : List Char :=
  if negative then ['-'] else []

/-- A real with `places` digits after the point. -/
def placesChars (places : Nat) : Parts → List Char
  | .notANumber => "NaN".toList
  | .infinite negative => signChars negative ++ "inf".toList
  | .finite negative significand exponent =>
    let n := inPlaces places significand exponent
    signChars negative ++ digits (n / Nat.pow 10 places) ++ '.' ::
      paddedDigits places (n % Nat.pow 10 places)

/-- The text of a real: six places. -/
def realText (r : Float) : String :=
  String.ofList (placesChars 6 (parts r))

end StackLang.Numeral
