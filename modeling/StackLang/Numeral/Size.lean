/-!
# Sizes in decimal

A size is a natural number below `2 ^ 64`, written with an optional plus sign. A text that is no
size is refused for one of three reasons. The digits are read from the left and the first fault
decides: a number that is already too large is too large whatever follows it.
-/

namespace StackLang.Numeral

/-- Why a text is no size. -/
inductive SizeFault where
  | empty
  | invalidDigit
  | tooLarge
  deriving DecidableEq, Repr

/-- The wording of each reason. -/
def SizeFault.message : SizeFault → String
  | .empty => "cannot parse integer from empty string"
  | .invalidDigit => "invalid digit found in string"
  | .tooLarge => "number too large to fit in target type"

/-- All sizes lie below this number, two to the power of sixty-four. -/
def sizeBound : Nat := 18446744073709551616

/-- Reads the digits that follow the value `n`. -/
def sizeFrom (n : Nat) : List Char → Except SizeFault Nat
  | [] => .ok n
  | c :: cs =>
    if c.isDigit then
      let next := 10 * n + (c.toNat - '0'.toNat)
      if next < sizeBound then sizeFrom next cs else .error .tooLarge
    else
      .error .invalidDigit

/-- The size that a text denotes. -/
def size : List Char → Except SizeFault Nat
  | [] => .error .empty
  | ['+'] => .error .invalidDigit
  | '+' :: c :: cs => sizeFrom 0 (c :: cs)
  | c :: cs => sizeFrom 0 (c :: cs)

/-- Every size read is below the bound. -/
theorem sizeFrom_lt {cs : List Char} {n k : Nat} (hn : n < sizeBound) (h : sizeFrom n cs = .ok k) :
    k < sizeBound := by
  induction cs generalizing n with
  | nil =>
    obtain rfl : n = k := by simpa [sizeFrom] using h
    exact hn
  | cons c cs ih =>
    simp only [sizeFrom] at h
    split at h
    case isFalse => simp at h
    split at h
    case isFalse => simp at h
    case isTrue hnext => exact ih hnext h

end StackLang.Numeral
