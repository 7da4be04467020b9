import StackLang.Integer
import StackLang.Operator.Action
import StackLang.Repetition
import StackLang.Text.Search

/-!
# The operators that take two values

One table per operator. `y` is the operand that was entered first, `x` the one entered last, so the
result of `y x -` is `y - x`. A pair of integers gives an exact integer or fails; any other pair of
numbers is calculated with reals. A pair of operands that stands in no row of a table fails with
the kinds of both (`BinaryOperator.mismatch`).
-/

namespace StackLang

namespace BinaryOperator

open StackLang.Integer (narrow? add? sub? mul? quotient? remainder? power?)
open StackLang.Text (indexOf? pieces)

/-! ## 1. Rows that several tables share -/

/-- The operands stand in no row. -/
def mismatch {α : Type} (op : BinaryOperator) (y x : Value) : Except Fault α :=
  .error (.binaryMismatch op y.tag x.tag)

/-- The row of two numbers, calculated with reals. -/
def reals (op : BinaryOperator) (calculate : Float → Float → Float) (y x : Value) :
    Except Fault Value :=
  match y.real?, x.real? with
  | some a, some b => .ok (.real (calculate a b))
  | _, _ => mismatch op y x

/-- The only row of the bitwise operators: two scalars, seen as integers. -/
def bitwise (op : BinaryOperator) (combine : Int64 → Int64 → Int64) (y x : Value) :
    Except Fault Value :=
  match y.integer?, x.integer? with
  | some a, some b => .ok (.integer (combine a b))
  | _, _ => mismatch op y x

/-! ## 2. Sum and concatenation -/

/-- `+`: the sum of two numbers; two collections of one kind joined; a scalar put at the end of an
array or in front of it, a character at the end of a text or in front of it. -/
def sum : Value → Value → Except Fault Value
  | .integer a, .integer b => checked .addition (add? a b)
  | .array vs, .array ws => .ok (.array (vs ++ ws))
  | .array vs, .integer n => .ok (.array (vs ++ [.integer n]))
  | .array vs, .real r => .ok (.array (vs ++ [.real r]))
  | .array vs, .character c => .ok (.array (vs ++ [.character c]))
  | .integer n, .array ws => .ok (.array (.integer n :: ws))
  | .real r, .array ws => .ok (.array (.real r :: ws))
  | .character c, .array ws => .ok (.array (.character c :: ws))
  | .text s, .text t => .ok (.text (s ++ t))
  | .text s, .character c => .ok (.text (s.push c))
  | .character c, .text t => .ok (.text (String.singleton c ++ t))
  | y, x => reals .add (· + ·) y x

/-! ## 3. Difference, product, quotient, remainder -/

/-- `-`: the difference of two numbers. -/
def difference : Value → Value → Except Fault Value
  | .integer a, .integer b => checked .subtraction (sub? a b)
  | y, x => reals .subtract (· - ·) y x

variable [Allocator]

/-- The rows of `*` that need no block: the product of two numbers; an array or text as many times
as a number says. -/
def product : Value → Value → Except Fault Value
  | .integer a, .integer b => checked .multiplication (mul? a b)
  | .array vs, .integer n => (Repetition.items vs n).map .array
  | .array vs, .real r => (Repetition.items vs (Real.truncate r)).map .array
  | .text s, .integer n => (Repetition.text s n).map .text
  | .text s, .real r => (Repetition.text s (Real.truncate r)).map .text
  | y, x => reals .multiply (· * ·) y x

/-- The parts of a text between the occurrences of another, as an array. -/
def division (text separator : String) : Value :=
  .array ((pieces separator.toList text.toList).map fun piece => .text (String.ofList piece))

/-- `/`: the quotient of two numbers, that of integers rounded toward zero; a text divided at every
occurrence of another. -/
def quotient : Value → Value → Except Fault Value
  | .integer a, .integer b =>
    if b = 0 then .error .divideByZero else checked .division (quotient? a b)
  | .text s, .text t => .ok (division s t)
  | y, x => reals .divide (· / ·) y x

/-- The row of `%` that needs no block: the remainder of two integers, with the sign of the first. -/
def remainder : Value → Value → Except Fault Value
  | .integer a, .integer b =>
    if b = 0 then .error .divideByZero else checked .remainder (remainder? a b)
  | y, x => mismatch .modulo y x

/-! ## 4. Power and search -/

/-- The power of two integers. -/
def integerPower (base exponent : Int64) : Except Fault Value :=
  if exponent < 0 then .error (.negativeExponent exponent)
  else checked .exponentiation (power? base exponent.toInt.toNat)

/-- The position of the first occurrence of `needle` in `hay`, counted in characters from zero; -1
if there is none. -/
def position (needle hay : List Char) : Except Fault Value :=
  match indexOf? needle hay with
  | some index => checked .search (narrow? index)
  | none => .ok (.integer (-1))

/-- `#`: the power of two numbers; the position of a text or character in a text. -/
def powerOrPosition : Value → Value → Except Fault Value
  | .integer a, .integer b => integerPower a b
  | .text s, .text t => position t.toList s.toList
  | .text s, .character c => position [c] s.toList
  | y, x => reals .power Float.pow y x

/-! ## 5. All tables -/

/-- What a binary operator does with its operands. -/
def act : BinaryOperator → Value → Value → Except Fault Action
  | .add, y, x => (sum y x).map .result
  | .subtract, y, x => (difference y x).map .result
  | .multiply, .array vs, .block b => .ok (.fold vs b)
  | .multiply, y, x => (product y x).map .result
  | .divide, y, x => (quotient y x).map .result
  | .modulo, .array vs, .block b => .ok (.mapArray vs b)
  | .modulo, .text s, .block b => .ok (.mapText s b)
  | .modulo, y, x => (remainder y x).map .result
  | .power, y, x => (powerOrPosition y x).map .result
  | .bitAnd, y, x => (bitwise .bitAnd (· &&& ·) y x).map .result
  | .bitOr, y, x => (bitwise .bitOr (· ||| ·) y x).map .result
  | .bitXor, y, x => (bitwise .bitXor (· ^^^ ·) y x).map .result

end BinaryOperator

end StackLang
