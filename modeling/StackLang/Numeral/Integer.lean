import StackLang.Integer
import StackLang.Numeral.Natural

/-!
# Signed integers in decimal

An integer numeral is an optional sign and one digit or more, of a value in the signed 64-bit
range. `+7`, `-0` and `007` are numerals; a sign alone and a numeral out of range are none.

Main statement: `integer?_integerText`, what is written reads back.
-/

namespace StackLang.Numeral

open StackLang.Integer

/-! ## 1. Reading -/

/-- The integer that a numeral denotes. -/
def integer? : List Char → Option Int64
  | '-' :: ds => (natural? ds).bind fun n => narrow? (-(n : Int))
  | '+' :: ds => (natural? ds).bind fun n => narrow? n
  | ds => (natural? ds).bind fun n => narrow? n

/-! ## 2. Writing -/

/-- The shortest numeral of an integer: a minus sign if it is negative, then its digits. -/
def integerChars (n : Int64) : List Char :=
  if n.toInt < 0 then '-' :: digits n.toInt.natAbs else digits n.toInt.natAbs

/-- The shortest numeral of an integer, as a text. -/
def integerText (n : Int64) : String :=
  String.ofList (integerChars n)

/-! ## 3. What is written reads back -/

/-- Without a sign in front, a numeral is read as a natural number. -/
theorem integer?_of_isDigit {c : Char} {ds : List Char} (h : c.isDigit = true) :
    integer? (c :: ds) = (natural? (c :: ds)).bind fun n => narrow? n := by
  unfold integer?
  split
  next heq => obtain ⟨rfl, rfl⟩ := List.cons.inj heq; exact absurd h (by decide)
  next heq => obtain ⟨rfl, rfl⟩ := List.cons.inj heq; exact absurd h (by decide)
  next => rfl

theorem integer?_digits (n : Nat) : integer? (digits n) = narrow? n := by
  obtain ⟨c, ds, h⟩ : ∃ c ds, digits n = c :: ds :=
    List.exists_cons_of_ne_nil Nat.toDigits_ne_nil
  have hc : c.isDigit = true := isDigit_of_mem_digits (by rw [h]; exact List.mem_cons_self)
  rw [h, integer?_of_isDigit hc, ← h, natural?_digits, Option.bind_some]

/-- What is written reads back. -/
theorem integer?_integerChars (n : Int64) : integer? (integerChars n) = some n := by
  unfold integerChars
  split
  case isTrue h =>
    have habs : -(n.toInt.natAbs : Int) = n.toInt := by omega
    show (natural? (digits _)).bind (fun k => narrow? (-(k : Int))) = some n
    rw [natural?_digits, Option.bind_some, habs, narrow?_toInt]
  case isFalse h =>
    have habs : (n.toInt.natAbs : Int) = n.toInt := by omega
    rw [integer?_digits, habs, narrow?_toInt]

end StackLang.Numeral
