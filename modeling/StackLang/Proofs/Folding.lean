import Mathlib
import StackLang.Proofs.BlockOperand

/-!
# Folding integers

An array of integers is folded by the block of an operator from the left. Each step calculates with
what has been calculated so far and with the next element, exactly or not at all
(`Eval.run_combine_integer`). So the fold gives the exact result if every result on the way to it is
in range, and overflows otherwise (`Eval.run_fold_integers`): a result that would come back into the
range later does not help.
-/

namespace StackLang

/-! ## 1. Calculations with integers -/

/-- What an operator calculates of two integers, and the word for it in a fault. -/
inductive BinaryOperator.Calculates : BinaryOperator → (Int → Int → Int) → Calculation → Prop
  | add : Calculates .add (· + ·) .addition
  | subtract : Calculates .subtract (· - ·) .subtraction
  | multiply : Calculates .multiply (· * ·) .multiplication

/-- The result is exact or missing. -/
theorem BinaryOperator.Calculates.act_eq [Allocator] {op : BinaryOperator} {f : Int → Int → Int}
    {calculation : Calculation} (h : op.Calculates f calculation) (a b : Int64) :
    op.act (.integer a) (.integer b) =
      (checked calculation (Integer.narrow? (f a.toInt b.toInt))).map .result := by
  cases h <;> rfl

namespace Integer

/-- Calculates with integers from the left, each result narrowed before the next one. -/
def foldExact? (f : Int → Int → Int) (first : Int64) : List Int64 → Option Int64
  | [] => some first
  | next :: rest => (narrow? (f first.toInt next.toInt)).bind (foldExact? f · rest)

/-- **To narrow every result is to calculate exactly, unless a result on the way is out of range.**
The induction is over the integers that are left, for every result so far. -/
theorem foldExact?_eq (f : Int → Int → Int) (first : Int64) (rest : List Int64) :
    foldExact? f first rest =
      if ∀ n ∈ (rest.map Int64.toInt).scanl f first.toInt, InRange n then
        some (Int64.ofInt ((rest.map Int64.toInt).foldl f first.toInt))
      else none := by
  induction rest generalizing first with
  | nil =>
    rw [foldExact?, if_pos (by simpa using inRange_toInt first)]
    exact congrArg some (Int64.ofInt_toInt first).symm
  | cons next rest ih =>
    rw [foldExact?, List.map_cons, List.scanl_cons, List.foldl_cons]
    simp only [List.forall_mem_cons, inRange_toInt, true_and]
    cases hnarrow : narrow? (f first.toInt next.toInt) with
    | some result =>
      rw [Option.bind_some, ih, narrow?_eq_some_iff.mp hnarrow]
    | none =>
      have hout := narrow?_eq_none_iff.mp hnarrow
      have hmem : ∀ (n : Int) (ns : List Int), n ∈ ns.scanl f n := fun n ns => by
        cases ns <;> simp
      rw [if_neg fun hall => hout (hall _ (hmem _ _))]
      rfl

end Integer

namespace Eval

variable {limit : Nat} {m : Machine}

/-! ## 2. An operator as a block of two operands -/

section

variable [Allocator] {op : BinaryOperator} {y x : Value}

/-- An operator that makes one value of two does so inside a block as well. -/
theorem run_call_binary_of_result {v : Value} (hact : op.act y x = .ok (.result v))
    (hdepth : m.depth < limit) (hroom : m.stack.size < m.stack.capacity) :
    EStateM.run (call limit ⟨op.symbol⟩) (m.add [y, x]) = .ok () (m.add [v]) := by
  have hinner : EStateM.run (applyBinary (call limit) op) (m.enter.add [y, x]) =
      .ok () (m.enter.add [v]) := run_applyBinary_of_result _ hroom hact
  exact run_call_symbol_of_ok (.binary op) hdepth hinner

/-- A fault leaves the block, and the operands are gone. -/
theorem run_call_binary_of_error {fault : Fault} (hact : op.act y x = .error fault)
    (hdepth : m.depth < limit) :
    EStateM.run (call limit ⟨op.symbol⟩) (m.add [y, x]) = .error fault m := by
  have hinner : EStateM.run (applyBinary (call limit) op) (m.enter.add [y, x]) =
      .error fault m.enter := run_applyBinary_of_error _ hact
  exact run_call_symbol_of_error (.binary op) hdepth hinner

end

/-! ## 3. One element after the other -/

section

variable [Allocator] {op : BinaryOperator} {f : Int → Int → Int} {calculation : Calculation}

/-- One step of a fold calculates with the result so far and the next element. -/
theorem run_combine_integer (h : op.Calculates f calculation) (hdepth : m.depth < limit)
    (hroom : m.stack.size + 2 ≤ m.stack.capacity) (a b : Int64) :
    EStateM.run (combine (call limit) ⟨op.symbol⟩ (.integer b)) (m.add [.integer a]) =
      match Integer.narrow? (f a.toInt b.toInt) with
      | some result => .ok () (m.add [.integer result])
      | none => .error (.integerOverflow calculation) m := by
  have hact := h.act_eq a b
  rw [combine, EStateM.run_bind, run_push_of_lt (Machine.room_add hroom _), Machine.add_add]
  show EStateM.run (call limit ⟨op.symbol⟩) (m.add [.integer a, .integer b]) = _
  cases hnarrow : Integer.narrow? (f a.toInt b.toInt) with
  | some result =>
    rw [hnarrow] at hact
    exact run_call_binary_of_result hact hdepth (by omega)
  | none =>
    rw [hnarrow] at hact
    exact run_call_binary_of_error hact hdepth

/-- The steps of a fold, one after the other, are the calculations one after the other. The induction
is over the elements that are left, for every result so far. -/
theorem run_forM_combine_integers (h : op.Calculates f calculation) (hdepth : m.depth < limit)
    (hroom : m.stack.size + 2 ≤ m.stack.capacity) (first : Int64) (rest : List Int64) :
    EStateM.run ((rest.map Value.integer).forM (combine (call limit) ⟨op.symbol⟩))
        (m.add [.integer first]) =
      match Integer.foldExact? f first rest with
      | some result => .ok () (m.add [.integer result])
      | none => .error (.integerOverflow calculation) m := by
  induction rest generalizing first with
  | nil => rfl
  | cons next rest ih =>
    show EStateM.run (do
      combine (call limit) ⟨op.symbol⟩ (.integer next)
      (rest.map Value.integer).forM (combine (call limit) ⟨op.symbol⟩)) _ = _
    rw [EStateM.run_bind, run_combine_integer h hdepth hroom, Integer.foldExact?]
    cases Integer.narrow? (f first.toInt next.toInt) with
    | some result => exact ih result
    | none => rfl

end

/-- **A fold of integers is the exact checked fold from the left**, by `+`, by `-` and by `*`. On any
machine with room for the array and the block and with one level of blocks left, the fold puts the
exact result in the place of the array, if this result and every one on the way to it are in range
(so that it is an integer, by `Integer.toInt_ofInt`); if one of them is not, the fold fails with the
overflow of the calculation, and the array is gone. -/
theorem run_fold_integers [Allocator] {op : BinaryOperator} {f : Int → Int → Int}
    {calculation : Calculation} (h : op.Calculates f calculation) (hdepth : m.depth < limit)
    (hroom : m.stack.size + 2 ≤ m.stack.capacity) (first : Int64) (rest : List Int64) :
    EStateM.run (run limit ("\x7b " ++ op.symbol ++ " \x7d *"))
        (m.add [.array ((first :: rest).map .integer)]) =
      if ∀ n ∈ (rest.map Int64.toInt).scanl f first.toInt, Integer.InRange n then
        .ok () (m.add [.integer (Int64.ofInt ((rest.map Int64.toInt).foldl f first.toInt))])
      else
        .error (.integerOverflow calculation) m := by
  have hsource : "\x7b " ++ op.symbol ++ " \x7d *" =
      (Operator.binary op).block.render ++ " " ++ BinaryOperator.multiply.symbol := by
    cases h <;> rfl
  have hfold : BinaryOperator.multiply.act (.array ((first :: rest).map .integer))
      (.block ⟨op.symbol⟩) = .ok (.fold ((first :: rest).map .integer) ⟨op.symbol⟩) := rfl
  rw [hsource, run_block_symbol_add limit (.binary op) hfold hroom]
  show EStateM.run (do
    push (.integer first)
    (rest.map Value.integer).forM (combine (call limit) ⟨op.symbol⟩)) m = _
  rw [EStateM.run_bind, run_push_of_lt (by omega)]
  show EStateM.run ((rest.map Value.integer).forM (combine (call limit) ⟨op.symbol⟩))
    (m.add [.integer first]) = _
  rw [run_forM_combine_integers h hdepth hroom, Integer.foldExact?_eq]
  by_cases hrange : ∀ n ∈ (rest.map Int64.toInt).scanl f first.toInt, Integer.InRange n
  · rw [if_pos hrange, if_pos hrange]
  · rw [if_neg hrange, if_neg hrange]

/-- A difference, which depends on the order, on a stack that becomes full; and a sum that leaves the
range and would come back. -/
theorem run_fold_integers_order :
    (BinaryOperator.Calculates .subtract (· - ·) .subtraction ∧
      BinaryOperator.Calculates .add (· + ·) .addition ∧ 0 < 1 ∧ 1 + 2 ≤ 3) ∧
    EStateM.run (run 1 "\x7b - \x7d *")
        ⟨⟨#[.integer 7, .array [.integer 10, .integer 2, .integer 3]], 3⟩, .initial, [], .empty, 0⟩ =
      .ok () ⟨⟨#[.integer 7, .integer 5], 3⟩, .initial, [], .empty, 0⟩ ∧
    EStateM.run (run 1 "\x7b + \x7d *")
        ⟨⟨#[.integer 7, .array [.integer Int64.maxValue, .integer 1, .integer (-1)]], 3⟩, .initial, [],
          .empty, 0⟩ =
      .error (.integerOverflow .addition) ⟨⟨#[.integer 7], 3⟩, .initial, [], .empty, 0⟩ := by
  have hdifference := run_fold_integers (m := ⟨⟨#[.integer 7], 3⟩, .initial, [], .empty, 0⟩) .subtract
    Nat.zero_lt_one (by decide) 10 [2, 3]
  have hsum := run_fold_integers (m := ⟨⟨#[.integer 7], 3⟩, .initial, [], .empty, 0⟩) .add
    Nat.zero_lt_one (by decide) Int64.maxValue [1, -1]
  rw [if_pos (by decide)] at hdifference
  rw [if_neg (by decide)] at hsum
  exact ⟨⟨.subtract, .add, by decide, by decide⟩, hdifference, hsum⟩

end Eval

end StackLang
