import StackLang.Numeral.Integer
import StackLang.Operator.Table
import StackLang.Value.Tag

/-!
# What can go wrong in an evaluation

One constructor per cause, with what the message needs, and one function for the wording
(`Fault.message`).
-/

namespace StackLang

open StackLang.Numeral (integerText)

/-- The calculation whose exact result lies outside the integers of the machine. -/
inductive Calculation where
  | addition
  | subtraction
  | multiplication
  | division
  | remainder
  | exponentiation
  | repetition
  | increment
  | decrement
  | search
  deriving DecidableEq, Repr

/-- The word for a calculation in messages. -/
def Calculation.name : Calculation → String
  | .addition => "addition"
  | .subtraction => "subtraction"
  | .multiplication => "multiplication"
  | .division => "division"
  | .remainder => "remainder"
  | .exponentiation => "exponentiation"
  | .repetition => "repetition"
  | .increment => "increment"
  | .decrement => "decrement"
  | .search => "substring search"

/-- Why an evaluation stopped.

* `stackOverflow` carries the limit that was met: the capacity of the stack, or the depth to which
  blocks may be nested.
* `binaryMismatch` carries the kinds of both operands, the one entered first in front.
* `unreadable` carries the token, or the rest of a program from an opening quote or brace without
  its end. -/
inductive Fault where
  | stackUnderflow
  | stackOverflow (limit : Nat)
  | binaryMismatch (op : BinaryOperator) (first second : Tag)
  | unaryMismatch (op : UnaryOperator) (operand : Tag)
  | divideByZero
  | emptyCollection (op : Operator)
  | negativeExponent (exponent : Int64)
  | integerOverflow (calculation : Calculation)
  | unreadable (token : String)
  | invalidCharacter (code : Int64)
  | malformedInput
  deriving DecidableEq, Repr

namespace Fault

/-- A piece of program text in a message. -/
def quoted (s : String) : String :=
  "`" ++ s ++ "`"

/-- The wording of a fault. -/
def message : Fault → String
  | .stackUnderflow => "stack underflow"
  | .stackOverflow limit => "stack overflow (capacity " ++ limit.repr ++ ")"
  | .binaryMismatch op first second =>
    "operator " ++ quoted op.symbol ++ " cannot be applied to " ++ quoted first.name ++ " and "
      ++ quoted second.name
  | .unaryMismatch op operand =>
    "operator " ++ quoted op.symbol ++ " cannot be applied to " ++ quoted operand.name
  | .divideByZero => "division by zero"
  | .emptyCollection op => "operator " ++ quoted op.symbol ++ " applied to an empty collection"
  | .negativeExponent exponent => "negative integer exponent " ++ integerText exponent
  | .integerOverflow calculation => "integer overflow in " ++ calculation.name
  | .unreadable token => "cannot parse " ++ quoted token
  | .invalidCharacter code => integerText code ++ " is not a valid character code"
  | .malformedInput => "failed to read input: stream did not contain valid UTF-8"

end Fault

end StackLang
