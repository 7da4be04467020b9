/-!
# Natural numbers in decimal

Reading and writing of digit strings. Only the ten ASCII digits are digits, and there is no
separator between them; leading zeros are read and never written.

Main statement: `natural?_digits`, what is written reads back.
-/

namespace StackLang.Numeral

/-- The decimal digits of `n`, without leading zeros. -/
def digits (n : Nat) : List Char :=
  Nat.toDigits 10 n

/-- The number that a list of digits denotes. -/
def ofDigits (ds : List Char) : Nat :=
  Nat.ofDigitChars 10 ds 0

/-- The number of a numeral: one digit or more, and nothing else. -/
def natural? (cs : List Char) : Option Nat :=
  if !cs.isEmpty && cs.all Char.isDigit then some (ofDigits cs) else none

/-- No digit, no number. -/
@[simp] theorem natural?_nil : natural? [] = none := rfl

/-- What is written reads back. -/
theorem natural?_digits (n : Nat) : natural? (digits n) = some n := by
  have hall : (digits n).all Char.isDigit = true :=
    List.all_eq_true.2 fun _ hc => Nat.isDigit_of_mem_toDigits (by decide) (by decide) hc
  have hne : (digits n).isEmpty = false :=
    List.isEmpty_eq_false_iff.2 Nat.toDigits_ne_nil
  have hvalue : ofDigits (digits n) = n := Nat.ofDigitChars_ten_toDigits
  simp [natural?, hall, hne, hvalue]

/-- A written number begins with no sign. -/
theorem isDigit_of_mem_digits {n : Nat} {c : Char} (h : c ∈ digits n) : c.isDigit = true :=
  Nat.isDigit_of_mem_toDigits (by decide) (by decide) h

end StackLang.Numeral
