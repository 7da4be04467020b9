import StackLang.Proofs.Pushing

/-!
# Spread undoes collect

A closing bracket takes the values above the innermost open bracket, or all values, and pushes them
as one array. Spreading this array puts them back where they were (`Eval.run_spread_of_collect`),
wherever the bracket was opened: it may be missing, or lie above the top by now.

Room can be missing only for the array of no values on a full stack. The elements always find room
again, because the array itself gives back one slot more than it took.
-/

namespace StackLang

/-- The same machine without its innermost open bracket. -/
def Machine.closed (m : Machine) : Machine :=
  { m with marks := m.marks.tail }

theorem Stack.size_above {s : Stack} {height : Nat} (h : height ≤ s.size) :
    (s.above height).2.size = height := by
  rw [← length_toList, toList_above, List.length_take, length_toList]
  exact Nat.min_eq_left h

/-- What lies below a height and what lies above it make up the stack. -/
theorem Stack.above_add_drop (s : Stack) (height : Nat) :
    (s.above height).2.add (s.toList.drop height) = s := by
  refine ext_toList ?_ rfl
  rw [toList_add, toList_above, List.take_append_drop]

namespace Machine

variable (m : Machine)

theorem size_belowMark : m.belowMark.stack.size = m.mark :=
  Stack.size_above m.mark_le

theorem belowMark_add_drop : m.belowMark.add (m.stack.toList.drop m.mark) = m.closed :=
  congrArg (fun stack => { m with marks := m.marks.tail, stack }) (m.stack.above_add_drop m.mark)

end Machine

namespace Eval

variable {m : Machine}

/-- The spread of an array puts its elements in its place. -/
theorem run_spread (call : Block → Eval Unit) {vs : List Value}
    (h : m.stack.size + vs.length ≤ m.stack.capacity) :
    EStateM.run (applyUnary call .bitNot) (m.add [.array vs]) = .ok () (m.add vs) := by
  have hact : UnaryOperator.bitNot.act (.array vs) = .ok (.push vs) := rfl
  rw [run_applyUnary_add call hact]
  exact run_pushAll_of_le h

/-- **Spread undoes collect.** A closing bracket fails exactly where there is nothing above the
innermost open bracket and the stack is full; then it meets the capacity and the stack is as it was.
Otherwise what was above the bracket is one array now, and its spread succeeds and leaves the stack
that was there before. The bracket is gone in each case, and nothing else has changed. -/
theorem run_spread_of_collect [Allocator] (call : Block → Eval Unit) (h : m.stack.Fits) :
    (m.mark = m.stack.size ∧ m.stack.size = m.stack.capacity →
      EStateM.run (dispatch call "]") m = .error (.stackOverflow m.stack.capacity) m.closed) ∧
    (¬(m.mark = m.stack.size ∧ m.stack.size = m.stack.capacity) →
      ∃ collected : Machine, EStateM.run (dispatch call "]") m = .ok () collected ∧
        collected.stack.toList =
          m.stack.toList.take m.mark ++ [.array (m.stack.toList.drop m.mark)] ∧
        EStateM.run (dispatch call "~") collected = .ok () m.closed) := by
  have hclose : EStateM.run (dispatch call "]") m =
      EStateM.run (push (.array (m.stack.toList.drop m.mark))) m.belowMark := by
    have hsymbol : dispatch call "]" = closeArray := dispatch_symbol call .closeArray
    rw [hsymbol, run_closeArray]
  have hspread : dispatch call "~" = applyUnary call .bitNot :=
    dispatch_symbol call (.unary .bitNot)
  have hmark := m.mark_le
  have hfits : m.stack.size ≤ m.stack.capacity := h
  have hsize := m.size_belowMark
  have hcapacity : m.belowMark.stack.capacity = m.stack.capacity := rfl
  constructor
  · intro ⟨htop, hfull⟩
    have hnothing : m.stack.toList.drop m.mark = [] := by
      rw [htop, ← Stack.length_toList, List.drop_length]
    have hsame : m.belowMark = m.closed := by
      rw [← m.belowMark_add_drop, hnothing, Machine.add_nil]
    rw [hclose, run_push_of_le (by omega), hcapacity, hsame]
  · intro hroom
    have hlt : m.belowMark.stack.size < m.belowMark.stack.capacity := by omega
    refine ⟨_, hclose.trans (run_push_of_lt hlt _), ?_, ?_⟩
    · rw [Machine.stack_add, Stack.toList_add]
      show (m.stack.above m.mark).2.toList ++ _ = _
      rw [Stack.toList_above]
    · have hback : m.belowMark.stack.size + (m.stack.toList.drop m.mark).length ≤
          m.belowMark.stack.capacity := by
        rw [List.length_drop, Stack.length_toList]
        omega
      rw [hspread, run_spread call hback, m.belowMark_add_drop]

/-- A bracket above the top of a full stack; and two values above a bracket on a full stack, which
come back to it. -/
theorem run_spread_of_collect_full :
    (Stack.Fits ⟨#[.integer 7], 1⟩ ∧
      EStateM.run (dispatch (call 0) "]") ⟨⟨#[.integer 7], 1⟩, .initial, [5, 0], .empty, 0⟩ =
        .error (.stackOverflow 1) ⟨⟨#[.integer 7], 1⟩, .initial, [0], .empty, 0⟩) ∧
    (Stack.Fits ⟨#[.integer 7, .text "a", .array []], 3⟩ ∧
      ∃ collected : Machine,
        EStateM.run (dispatch (call 0) "]")
            ⟨⟨#[.integer 7, .text "a", .array []], 3⟩, .initial, [1], .empty, 0⟩ =
          .ok () collected ∧
        collected.stack.toList = [.integer 7, .array [.text "a", .array []]] ∧
        EStateM.run (dispatch (call 0) "~") collected =
          .ok () ⟨⟨#[.integer 7, .text "a", .array []], 3⟩, .initial, [], .empty, 0⟩) := by
  have hone : Stack.Fits ⟨#[.integer 7], 1⟩ := Nat.le_refl 1
  have hthree : Stack.Fits ⟨#[.integer 7, .text "a", .array []], 3⟩ := Nat.le_refl 3
  refine ⟨⟨hone, ?_⟩, hthree, ?_⟩
  · exact (run_spread_of_collect (m := ⟨⟨#[.integer 7], 1⟩, .initial, [5, 0], .empty, 0⟩)
      (call 0) hone).1 ⟨rfl, rfl⟩
  · exact (run_spread_of_collect
      (m := ⟨⟨#[.integer 7, .text "a", .array []], 3⟩, .initial, [1], .empty, 0⟩)
      (call 0) hthree).2 (by decide)

end Eval

end StackLang
