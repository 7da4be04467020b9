import StackLang.Integer
import StackLang.Numeral.Real
import StackLang.Operator.Action
import StackLang.Text.Blank
import StackLang.Text.Neighbour
import StackLang.Value.Render

/-!
# The operators that take one value

`(` and `)` step a number or a character down or up and take the first or the last element off a
collection; `~` complements an integer, spreads an array or runs a block; `i`, `f`, `c` and `s`
convert.
-/

namespace StackLang

namespace UnaryOperator

open StackLang.Integer (add? sub?)
open StackLang.Text (next previous trimChars)

/-- The operand stands in no row. -/
def mismatch {α : Type} (op : UnaryOperator) (v : Value) : Except Fault α :=
  .error (.unaryMismatch op v.tag)

/-- The collection has no element to take off. -/
def nothingThere {α : Type} (op : UnaryOperator) : Except Fault α :=
  .error (.emptyCollection (.unary op))

/-! ## 1. Stepping -/

/-- `(`: one less, the character before; of a collection all but the first element and then that
element. -/
def stepDown : Value → Except Fault (List Value)
  | .integer n => (checked .decrement (sub? n 1)).map ([·])
  | .real r => .ok [.real (r - 1)]
  | .character c => .ok [.character (previous c)]
  | .array [] => nothingThere .decrement
  | .array (v :: vs) => .ok [.array vs, v]
  | .text s =>
    match s.toList with
    | [] => nothingThere .decrement
    | c :: cs => .ok [.text (String.ofList cs), .character c]
  | .block b => mismatch .decrement (.block b)

/-- `)`: one more, the character after; of a collection all but the last element and then that
element. -/
def stepUp : Value → Except Fault (List Value)
  | .integer n => (checked .increment (add? n 1)).map ([·])
  | .real r => .ok [.real (r + 1)]
  | .character c => .ok [.character (next c)]
  | .array vs =>
    match vs.getLast? with
    | none => nothingThere .increment
    | some v => .ok [.array vs.dropLast, v]
  | .text s =>
    match s.toList.getLast? with
    | none => nothingThere .increment
    | some c => .ok [.text (String.ofList s.toList.dropLast), .character c]
  | .block b => mismatch .increment (.block b)

/-! ## 2. Complement and spread -/

/-- `~`: the bitwise complement of a scalar seen as an integer, the elements of an array, a run of
a block. -/
def complement : Value → Except Fault Action
  | .array vs => .ok (.push vs)
  | .block b => .ok (.call b)
  | v =>
    match v.integer? with
    | some n => .ok (.result (.integer (~~~n)))
    | none => mismatch .bitNot v

/-! ## 3. Conversions -/

/-- `i`: the integer that a text writes, blanks at its ends apart; a scalar seen as an integer. -/
def toIntegerValue : Value → Except Fault Value
  | .text s =>
    match Numeral.integer? (trimChars s.toList) with
    | some n => .ok (.integer n)
    | none => .error (.unreadable s)
  | v =>
    match v.integer? with
    | some n => .ok (.integer n)
    | none => mismatch .toInteger v

/-- `f`: the real that a text writes, blanks at its ends apart; a number as a real, a character's
code point as a real. -/
def toRealValue : Value → Except Fault Value
  | .text s =>
    match Numeral.real? (trimChars s.toList) with
    | some r => .ok (.real r)
    | none => .error (.unreadable s)
  | .character c => .ok (.real (Real.ofInteger (Value.codePoint c)))
  | v =>
    match v.real? with
    | some r => .ok (.real r)
    | none => mismatch .toReal v

/-- The character of a code point. -/
def characterOf (code : Int64) : Except Fault Value :=
  if 0 ≤ code.toInt ∧ code.toInt.toNat.isValidChar then
    .ok (.character (Char.ofNat code.toInt.toNat))
  else
    .error (.invalidCharacter code)

/-- `c`: the character whose code point a number seen as an integer is. -/
def toCharacterValue : Value → Except Fault Value
  | .character c => .ok (.character c)
  | .integer n => characterOf n
  | .real r => characterOf (Real.truncate r)
  | v => mismatch .toCharacter v

/-! ## 4. All tables -/

/-- What a unary operator does with its operand. -/
def act : UnaryOperator → Value → Except Fault Action
  | .bitNot, v => complement v
  | .decrement, v => (stepDown v).map .push
  | .increment, v => (stepUp v).map .push
  | .toInteger, v => (toIntegerValue v).map .result
  | .toReal, v => (toRealValue v).map .result
  | .toCharacter, v => (toCharacterValue v).map .result
  | .toText, v => .ok (.result (.text v.render))

end UnaryOperator

end StackLang
