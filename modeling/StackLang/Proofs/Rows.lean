import StackLang.Proofs.Pushing

/-!
# The rows of the binary operators

Which row of a binary operator's table applies, and what it can give, depends on the kinds of the
two operands alone (`BinaryOperator.row?`). A row gives a value of one kind; some calculations of
integers, repetitions and searches can fail instead, and never because of the kinds (`Row.checked`).
Two kinds without a row are refused by name.

Main statement: so ends the operator on a machine (`Eval.run_applyBinary_row`).
-/

namespace StackLang

/-- What a row of a table gives.

* `result tag`: a value of this kind;
* `checked tag`: a value of this kind or the fault of a calculation;
* `fold`, `map`: what a block makes of a collection. -/
inductive Row where
  | result (tag : Tag)
  | checked (tag : Tag)
  | fold
  | map
  deriving DecidableEq, Repr

/-- A calculation has no result: its operands have the right kinds, but not the right values. -/
def Fault.isCalculation : Fault → Bool
  | .divideByZero | .negativeExponent _ | .integerOverflow _ => true
  | _ => false

/-- Integers, reals and characters are scalars. -/
def Tag.isScalar : Tag → Bool
  | .integer | .real | .character => true
  | .text | .array | .block => false

/-- Exactly the scalars can be seen as integers. -/
theorem Value.isSome_integer?_eq_isScalar (v : Value) : v.integer?.isSome = v.tag.isScalar := by
  cases v <;> rfl

namespace BinaryOperator

/-! ## 1. The tables -/

/-- The rows of two numbers. Only integers are calculated exactly. -/
def numberRow? : Tag → Tag → Option Row
  | .integer, .integer => some (.checked .integer)
  | .integer, .real | .real, .integer | .real, .real => some (.result .real)
  | _, _ => none

/-- The rows of two scalars. -/
def scalarRow? : Tag → Tag → Option Row
  | .integer, .integer | .integer, .real | .integer, .character
  | .real, .integer | .real, .real | .real, .character
  | .character, .integer | .character, .real | .character, .character => some (.result .integer)
  | _, _ => none

/-- The row of two kinds of operands, that of the operand entered first in front. -/
def row? : BinaryOperator → Tag → Tag → Option Row
  | .add, .array, .array | .add, .array, .integer | .add, .array, .real | .add, .array, .character
  | .add, .integer, .array | .add, .real, .array | .add, .character, .array =>
    some (.result .array)
  | .add, .text, .text | .add, .text, .character | .add, .character, .text => some (.result .text)
  | .multiply, .array, .integer | .multiply, .array, .real => some (.checked .array)
  | .multiply, .text, .integer | .multiply, .text, .real => some (.checked .text)
  | .multiply, .array, .block => some .fold
  | .divide, .text, .text => some (.result .array)
  | .modulo, .integer, .integer => some (.checked .integer)
  | .modulo, .array, .block | .modulo, .text, .block => some .map
  | .power, .text, .text | .power, .text, .character => some (.checked .integer)
  | .add, y, x | .subtract, y, x | .multiply, y, x | .divide, y, x | .power, y, x =>
    numberRow? y x
  | .bitAnd, y, x | .bitOr, y, x | .bitXor, y, x => scalarRow? y x
  | .modulo, _, _ => none

/-! ## 2. What the rows say of the operators -/

variable [Allocator]

/-- What a row says of an operator and two operands; no row, that they are refused. -/
def Follows (op : BinaryOperator) (y x : Value) : Option Row → Prop
  | none => op.act y x = .error (.binaryMismatch op y.tag x.tag)
  | some (.result tag) => ∃ v, v.tag = tag ∧ op.act y x = .ok (.result v)
  | some (.checked tag) =>
    (∃ v, v.tag = tag ∧ op.act y x = .ok (.result v)) ∨
      ∃ fault, fault.isCalculation = true ∧ op.act y x = .error fault
  | some .fold => ∃ items block, op = .multiply ∧ y = .array items ∧ x = .block block ∧
      op.act y x = .ok (.fold items block)
  | some .map => ∃ block, op = .modulo ∧ x = .block block ∧
      ((∃ items, y = .array items ∧ op.act y x = .ok (.mapArray items block)) ∨
        ∃ text, y = .text text ∧ op.act y x = .ok (.mapText text block))

variable {op : BinaryOperator} {y x : Value}

/-- An exact calculation gives an integer or fails as a calculation. -/
theorem follows_checked {calculation : Calculation} {n : Option Int64}
    (h : op.act y x = (checked calculation n).map .result) :
    op.Follows y x (some (.checked .integer)) := by
  cases n with
  | none => exact .inr ⟨_, rfl, h⟩
  | some n => exact .inl ⟨_, rfl, h⟩

/-- So does one that refuses some operands before it calculates. -/
theorem follows_guarded {p : Prop} [Decidable p] {fault : Fault} {calculation : Calculation}
    {n : Option Int64} (hfault : fault.isCalculation = true)
    (h : op.act y x = (if p then Except.error fault else checked calculation n).map .result) :
    op.Follows y x (some (.checked .integer)) := by
  by_cases hrefused : p
  · rw [if_pos hrefused] at h
    exact .inr ⟨fault, hfault, h⟩
  · rw [if_neg hrefused] at h
    exact follows_checked h

/-- A search that finds nothing gives an integer too. -/
theorem follows_position {needle hay : List Char}
    (h : op.act y x = (position needle hay).map .result) :
    op.Follows y x (some (.checked .integer)) := by
  unfold position at h
  cases hindex : StackLang.Text.indexOf? needle hay with
  | none =>
    rw [hindex] at h
    exact .inl ⟨_, rfl, h⟩
  | some index =>
    rw [hindex] at h
    exact follows_checked h

/-- A repetition gives a collection of the kind that is repeated, or it cannot be made. -/
theorem follows_repetition {α : Type} {collection : α → Value} {tag : Tag}
    (htag : ∀ a, (collection a).tag = tag) {allowed : Prop} [Decidable allowed]
    {result : Except Fault α} {a : α}
    (hresult : result = if allowed then .ok a else .error (.integerOverflow .repetition))
    (h : op.act y x = (result.map collection).map .result) :
    op.Follows y x (some (.checked tag)) := by
  by_cases hallowed : allowed
  · rw [hresult, if_pos hallowed] at h
    exact .inl ⟨_, htag a, h⟩
  · rw [hresult, if_neg hallowed] at h
    exact .inr ⟨_, rfl, h⟩

/-! ## 3. One table after the other

The cases are the pairs of constructors; those that no table names are refused by computation. -/

theorem follows_add (y x : Value) : Follows .add y x (row? .add y.tag x.tag) := by
  cases y <;> cases x
  case integer.integer => exact follows_checked rfl
  case integer.real | real.integer | real.real => exact ⟨_, rfl, rfl⟩
  case array.array | array.integer | array.real | array.character | integer.array | real.array
      | character.array => exact ⟨_, rfl, rfl⟩
  case text.text | text.character | character.text => exact ⟨_, rfl, rfl⟩
  all_goals rfl

theorem follows_subtract (y x : Value) : Follows .subtract y x (row? .subtract y.tag x.tag) := by
  cases y <;> cases x
  case integer.integer => exact follows_checked rfl
  case integer.real | real.integer | real.real => exact ⟨_, rfl, rfl⟩
  all_goals rfl

theorem follows_multiply (y x : Value) : Follows .multiply y x (row? .multiply y.tag x.tag) := by
  cases y <;> cases x
  case integer.integer => exact follows_checked rfl
  case integer.real | real.integer | real.real => exact ⟨_, rfl, rfl⟩
  case array.integer | array.real =>
    exact follows_repetition Value.tag_array (Repetition.items_eq _ _) rfl
  case text.integer | text.real =>
    exact follows_repetition Value.tag_text (Repetition.text_eq _ _) rfl
  case array.block items block => exact ⟨items, block, rfl, rfl, rfl, rfl⟩
  all_goals rfl

theorem follows_divide (y x : Value) : Follows .divide y x (row? .divide y.tag x.tag) := by
  cases y <;> cases x
  case integer.integer => exact follows_guarded rfl rfl
  case integer.real | real.integer | real.real => exact ⟨_, rfl, rfl⟩
  case text.text => exact ⟨_, rfl, rfl⟩
  all_goals rfl

theorem follows_modulo (y x : Value) : Follows .modulo y x (row? .modulo y.tag x.tag) := by
  cases y <;> cases x
  case integer.integer => exact follows_guarded rfl rfl
  case array.block items block => exact ⟨block, rfl, rfl, .inl ⟨items, rfl, rfl⟩⟩
  case text.block text block => exact ⟨block, rfl, rfl, .inr ⟨text, rfl, rfl⟩⟩
  all_goals rfl

theorem follows_powerOrPosition (y x : Value) : Follows .power y x (row? .power y.tag x.tag) := by
  cases y <;> cases x
  case integer.integer => exact follows_guarded rfl rfl
  case integer.real | real.integer | real.real => exact ⟨_, rfl, rfl⟩
  case text.text | text.character => exact follows_position rfl
  all_goals rfl

/-- One statement for the three bitwise operators. -/
theorem follows_bitwise {combine : Int64 → Int64 → Int64}
    (h : op.act y x = (bitwise op combine y x).map .result) :
    op.Follows y x (scalarRow? y.tag x.tag) := by
  unfold bitwise at h
  cases y <;> cases x
  case integer.integer | integer.real | integer.character | real.integer | real.real
      | real.character | character.integer | character.real | character.character =>
    exact ⟨_, rfl, h⟩
  all_goals exact h

/-- Every operator does with every pair of operands what the row of their kinds says. -/
theorem follows_row (op : BinaryOperator) (y x : Value) :
    op.Follows y x (op.row? y.tag x.tag) := by
  cases op with
  | add => exact follows_add y x
  | subtract => exact follows_subtract y x
  | multiply => exact follows_multiply y x
  | divide => exact follows_divide y x
  | modulo => exact follows_modulo y x
  | power => exact follows_powerOrPosition y x
  | bitAnd => exact follows_bitwise rfl
  | bitOr => exact follows_bitwise rfl
  | bitXor => exact follows_bitwise rfl

end BinaryOperator

/-! ## 4. Rows on a machine -/

namespace Eval

/-- **The kinds of two operands decide how a binary operator can end**, whatever the operands are:

* without a row, with a mismatch that names the operator and the kinds as they were entered;
* in a row of results, with one value of its kind and never with a fault;
* in a checked row, with one value of its kind or with the fault of a calculation;
* in a row of `fold` or `map`, as the fold of the array or the map of the array or text ends.

The operands are gone in every case. -/
theorem run_applyBinary_row [Allocator] (call : Block → Eval Unit) (op : BinaryOperator)
    (y x : Value) (m : Machine) (hfits : (m.add [y, x]).stack.Fits) :
    match op.row? y.tag x.tag with
    | none => EStateM.run (applyBinary call op) (m.add [y, x]) =
        .error (.binaryMismatch op y.tag x.tag) m
    | some (.result tag) => ∃ v, v.tag = tag ∧
        EStateM.run (applyBinary call op) (m.add [y, x]) = .ok () (m.add [v])
    | some (.checked tag) =>
      (∃ v, v.tag = tag ∧
        EStateM.run (applyBinary call op) (m.add [y, x]) = .ok () (m.add [v])) ∨
      ∃ fault, fault.isCalculation = true ∧
        EStateM.run (applyBinary call op) (m.add [y, x]) = .error fault m
    | some .fold => ∃ items block, y = .array items ∧ x = .block block ∧
        EStateM.run (applyBinary call op) (m.add [y, x]) = EStateM.run (fold call block items) m
    | some .map => ∃ block, x = .block block ∧
        ((∃ items, y = .array items ∧ EStateM.run (applyBinary call op) (m.add [y, x]) =
          EStateM.run (mapArray call block items) m) ∨
        ∃ text, y = .text text ∧ EStateM.run (applyBinary call op) (m.add [y, x]) =
          EStateM.run (mapText call block text) m) := by
  have hroom : m.stack.size < m.stack.capacity := hfits.lt_of_add
  have hfollows := op.follows_row y x
  cases hrow : op.row? y.tag x.tag with
  | none =>
    rw [hrow] at hfollows
    exact run_applyBinary_of_error call hfollows
  | some row =>
    rw [hrow] at hfollows
    cases row with
    | result tag =>
      obtain ⟨v, htag, hact⟩ := hfollows
      exact ⟨v, htag, run_applyBinary_of_result call hroom hact⟩
    | checked tag =>
      rcases hfollows with ⟨v, htag, hact⟩ | ⟨fault, hfault, hact⟩
      · exact .inl ⟨v, htag, run_applyBinary_of_result call hroom hact⟩
      · exact .inr ⟨fault, hfault, run_applyBinary_of_error call hact⟩
    | fold =>
      obtain ⟨items, block, -, hy, hx, hact⟩ := hfollows
      exact ⟨items, block, hy, hx, run_applyBinary_of_ok call hact⟩
    | map =>
      obtain ⟨block, -, hx, hact⟩ := hfollows
      refine ⟨block, hx, ?_⟩
      rcases hact with ⟨items, hy, hact⟩ | ⟨text, hy, hact⟩
      · exact .inl ⟨items, hy, run_applyBinary_of_ok call hact⟩
      · exact .inr ⟨text, hy, run_applyBinary_of_ok call hact⟩

/-- A character is put in front of a text, and nothing is subtracted from an array. -/
theorem run_applyBinary_row_text :
    ((⟨#[.character 'a', .text "bc"], 2⟩ : Stack).Fits ∧
      ∃ v, v.tag = .text ∧ EStateM.run (applyBinary (call 0) .add)
          ⟨⟨#[.character 'a', .text "bc"], 2⟩, .initial, [], .empty, 0⟩ =
        .ok () ⟨⟨#[v], 2⟩, .initial, [], .empty, 0⟩) ∧
    ((⟨#[.array [], .integer 7], 2⟩ : Stack).Fits ∧
      EStateM.run (applyBinary (call 0) .subtract)
          ⟨⟨#[.array [], .integer 7], 2⟩, .initial, [], .empty, 0⟩ =
        .error (.binaryMismatch .subtract .array .integer)
          ⟨⟨#[], 2⟩, .initial, [], .empty, 0⟩) := by
  have htext : (⟨#[.character 'a', .text "bc"], 2⟩ : Stack).Fits := Nat.le_refl 2
  have harray : (⟨#[.array [], .integer 7], 2⟩ : Stack).Fits := Nat.le_refl 2
  refine ⟨⟨htext, ?_⟩, harray, ?_⟩
  · exact run_applyBinary_row (call 0) .add (.character 'a') (.text "bc")
      ⟨⟨#[], 2⟩, .initial, [], .empty, 0⟩ htext
  · exact run_applyBinary_row (call 0) .subtract (.array []) (.integer 7)
      ⟨⟨#[], 2⟩, .initial, [], .empty, 0⟩ harray

end Eval

end StackLang
