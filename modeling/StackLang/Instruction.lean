import StackLang.Literal
import StackLang.Operator.Table
import StackLang.Variables

/-!
# Instructions: what a token asks for

A token names an operator, stores into a variable, loads a variable or writes a value; a token that
does none of these cannot be read.
-/

namespace StackLang

/-- One step of a program. -/
inductive Instruction where
  | apply (op : Operator)
  | store (name : Char)
  | load (name : Char)
  | push (v : Value)

/-- The instruction that a token stands for. -/
def Instruction.ofToken? (token : String) : Option Instruction :=
  match Operator.ofToken? token with
  | some op => some (.apply op)
  | none =>
    match storeTarget? token with
    | some name => some (.store name)
    | none =>
      match variableName? token with
      | some name => some (.load name)
      | none => (Value.ofLiteral? token).map .push

namespace Instruction

/-- A token applies an operator exactly if it is the operator's symbol. -/
theorem ofToken?_eq_apply_iff {token : String} {op : Operator} :
    ofToken? token = some (.apply op) ↔ op.symbol = token := by
  rw [← Operator.ofToken?_eq_some_iff]
  unfold ofToken?
  cases Operator.ofToken? token with
  | some op' => simp
  | none => cases storeTarget? token <;> cases variableName? token <;> simp

theorem storeTarget?_of_store {token : String} {name : Char}
    (h : ofToken? token = some (.store name)) : storeTarget? token = some name := by
  unfold ofToken? at h
  cases hop : Operator.ofToken? token <;> cases hs : storeTarget? token <;>
    cases hv : variableName? token <;> simp_all

theorem variableName?_of_load {token : String} {name : Char}
    (h : ofToken? token = some (.load name)) : variableName? token = some name := by
  unfold ofToken? at h
  cases hop : Operator.ofToken? token <;> cases hs : storeTarget? token <;>
    cases hv : variableName? token <;> simp_all

/-- Only capital letters are stored into. -/
theorem isUpper_of_store {token : String} {name : Char}
    (h : ofToken? token = some (.store name)) : name.isUpper = true :=
  (storeTarget?_eq_some_iff.mp (storeTarget?_of_store h)).1

/-- Only capital letters are loaded. -/
theorem isUpper_of_load {token : String} {name : Char}
    (h : ofToken? token = some (.load name)) : name.isUpper = true :=
  (variableName?_eq_some_iff.mp (variableName?_of_load h)).1

end Instruction

end StackLang
