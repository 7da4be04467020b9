import StackLang.Numeral.Natural

/-!
# Reals in decimal

A real numeral is an optional sign and then

* digits with a point before, among or after them, or without one, and at least one digit;
  then, if wanted, `e` or `E` and a signed whole exponent; or
* one of the words `inf`, `infinity`, `nan`, in letters of either case.

Its value is the double nearest to the decimal number, a tie going to the even significand; a
number beyond the doubles is infinite.
-/

namespace StackLang.Numeral

/-! ## 1. The grammar -/

/-- A decimal number: digits as one whole number, times a power of ten. -/
structure Decimal where
  digits : List Char
  exponent : Int
  deriving DecidableEq, Repr

/-- A whole exponent with its sign. -/
def exponent? : List Char → Option Int
  | '-' :: ds => (natural? ds).map fun n => -(n : Int)
  | '+' :: ds => (natural? ds).map Int.ofNat
  | ds => (natural? ds).map Int.ofNat

/-- What follows the digits: nothing, or an exponent behind its letter. -/
def scale? : List Char → Option Int
  | [] => some 0
  | 'e' :: cs => exponent? cs
  | 'E' :: cs => exponent? cs
  | _ => none

/-- The digits behind a point, if there is a point, and the rest. -/
def fraction : List Char → List Char × List Char
  | '.' :: cs => (cs.takeWhile Char.isDigit, cs.dropWhile Char.isDigit)
  | cs => ([], cs)

/-- The decimal number that a numeral without sign denotes. -/
def decimal? (cs : List Char) : Option Decimal :=
  let whole := cs.takeWhile Char.isDigit
  let (places, rest) := fraction (cs.dropWhile Char.isDigit)
  if whole.isEmpty && places.isEmpty then none
  else (scale? rest).map fun e => ⟨whole ++ places, e - places.length⟩

/-! ## 2. The nearest double -/

/-- The double nearest to a decimal number. Its order of magnitude decides first, so that no huge
power of ten is built: below `10 ^ -324` all is zero, from `10 ^ 309` on all is infinite. -/
def Decimal.toFloat (d : Decimal) : Float :=
  let significant := d.digits.dropWhile (· = '0')
  let order := significant.length + d.exponent
  if significant.isEmpty || order ≤ -324 then 0
  else if 309 < order then 1 / 0
  else Float.ofScientific (ofDigits significant) (d.exponent < 0) d.exponent.natAbs

/-- The value of a word for a number that no digits write. -/
def namedReal? (cs : List Char) : Option Float :=
  let word := cs.map Char.toLower
  if word = "inf".toList ∨ word = "infinity".toList then some (1 / 0)
  else if word = "nan".toList then some (0 / 0)
  else none

/-- The value of a numeral without sign. -/
def unsignedReal? (cs : List Char) : Option Float :=
  match decimal? cs with
  | some d => some d.toFloat
  | none => namedReal? cs

/-- The real that a numeral denotes. -/
def real? : List Char → Option Float
  | '-' :: cs => (unsignedReal? cs).map fun r => -r
  | '+' :: cs => unsignedReal? cs
  | cs => unsignedReal? cs

end StackLang.Numeral
