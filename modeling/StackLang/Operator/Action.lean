import StackLang.Fault
import StackLang.Value.Basic

/-!
# What an operator asks of the machine

An operator looks at its operands alone. It either fails or names an action: values to push, or
something to do with a block. The machine carries the action out; nothing in this file touches a
stack.
-/

namespace StackLang

/-- What is to be done with operands that have been taken from the stack.

* `push results`: push the results, the first one first;
* `call block`: run the block;
* `fold items block`: combine the items from left to right by the block;
* `mapArray items block`: replace each item by what the block makes of it, as an array;
* `mapText text block`: the same for the characters of a text, as a text. -/
inductive Action where
  | push (results : List Value)
  | call (block : Block)
  | fold (items : List Value) (block : Block)
  | mapArray (items : List Value) (block : Block)
  | mapText (text : String) (block : Block)

/-- Push one result. -/
def Action.result (v : Value) : Action :=
  .push [v]

/-- An exact result, or a calculation that leaves the range of the integers. -/
def checked (calculation : Calculation) : Option Int64 → Except Fault Value
  | some n => .ok (.integer n)
  | none => .error (.integerOverflow calculation)

end StackLang
