/-!
# The table of operators

Nineteen tokens name operators. They are sorted by what they take from the stack: nine take two
values, seven take one, and three work on the machine itself. Each has one symbol, and a token
that is no symbol names no operator (`Operator.ofToken?_eq_some_iff`).
-/

namespace StackLang

/-! ## 1. Operators by arity -/

/-- Operators that take two values. -/
inductive BinaryOperator where
  | add
  | subtract
  | multiply
  | divide
  | modulo
  | power
  | bitAnd
  | bitOr
  | bitXor
  deriving DecidableEq, Repr

/-- Operators that take one value. -/
inductive UnaryOperator where
  | bitNot
  | decrement
  | increment
  | toInteger
  | toReal
  | toCharacter
  | toText
  deriving DecidableEq, Repr

/-- All operators. `readLine` asks for input; `openArray` and `closeArray` mark the ends of an
array. -/
inductive Operator where
  | binary (op : BinaryOperator)
  | unary (op : UnaryOperator)
  | readLine
  | openArray
  | closeArray
  deriving DecidableEq, Repr

namespace BinaryOperator

/-- Every binary operator, in the order of the table. -/
def all : List BinaryOperator :=
  [.add, .subtract, .multiply, .divide, .modulo, .power, .bitAnd, .bitOr, .bitXor]

/-- The token of a binary operator. -/
def symbol : BinaryOperator → String
  | .add => "+"
  | .subtract => "-"
  | .multiply => "*"
  | .divide => "/"
  | .modulo => "%"
  | .power => "#"
  | .bitAnd => "&"
  | .bitOr => "|"
  | .bitXor => "^"

theorem mem_all (op : BinaryOperator) : op ∈ all := by
  cases op <;> decide

end BinaryOperator

namespace UnaryOperator

/-- Every unary operator, in the order of the table. -/
def all : List UnaryOperator :=
  [.bitNot, .decrement, .increment, .toInteger, .toReal, .toCharacter, .toText]

/-- The token of a unary operator. -/
def symbol : UnaryOperator → String
  | .bitNot => "~"
  | .decrement => "("
  | .increment => ")"
  | .toInteger => "i"
  | .toReal => "f"
  | .toCharacter => "c"
  | .toText => "s"

theorem mem_all (op : UnaryOperator) : op ∈ all := by
  cases op <;> decide

end UnaryOperator

namespace Operator

/-! ## 2. Symbols -/

/-- Every operator, in the order of the table. -/
def all : List Operator :=
  BinaryOperator.all.map .binary ++ UnaryOperator.all.map .unary
    ++ [.readLine, .openArray, .closeArray]

/-- The token of an operator. -/
def symbol : Operator → String
  | .binary op => op.symbol
  | .unary op => op.symbol
  | .readLine => "l"
  | .openArray => "["
  | .closeArray => "]"

/-- The operator that a token names. -/
def ofToken? (token : String) : Option Operator :=
  all.find? fun op => op.symbol = token

theorem mem_all (op : Operator) : op ∈ all := by
  cases op <;> simp [all, BinaryOperator.mem_all, UnaryOperator.mem_all]

/-- Every operator is found under its symbol, so no two share one. -/
theorem ofToken?_symbol (op : Operator) : ofToken? op.symbol = some op := by
  have h : ∀ op ∈ all, ofToken? op.symbol = some op := by decide
  exact h op (mem_all op)

/-- A token names an operator exactly if it is the operator's symbol. -/
theorem ofToken?_eq_some_iff {token : String} {op : Operator} :
    ofToken? token = some op ↔ op.symbol = token := by
  constructor
  · intro h
    simpa using List.find?_some h
  · rintro rfl
    exact ofToken?_symbol op

end Operator

end StackLang
