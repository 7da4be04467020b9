import Mathlib.Data.List.Induction
import StackLang.Proofs.Spreading

/-!
# Many values at once

Values that are put on a stack one after the other come back in two ways: cut off at the old height,
in the order in which they were put there; or one by one from the top, in the opposite order. The
other way round, what was cut off at any height is put back where it was.

Either all values find room, or those stay that fit and the capacity is met; a cut above the top takes
nothing. Main statement: `Eval.run_pushAll_takeAbove`.
-/

namespace StackLang

namespace Eval

variable {m : Machine}

/-! ## 1. Pushing and cutting off -/

/-- How pushing many values ends on a stack that holds no more than its capacity. -/
theorem run_pushAll (h : m.stack.Fits) (vs : List Value) :
    EStateM.run (pushAll vs) m =
      if m.stack.size + vs.length ≤ m.stack.capacity then .ok () (m.add vs)
      else .error (.stackOverflow m.stack.capacity)
        (m.add (vs.take (m.stack.capacity - m.stack.size))) := by
  have hfits : m.stack.size ≤ m.stack.capacity := h
  split
  case isTrue hroom => exact run_pushAll_of_le hroom
  case isFalse hroom => exact run_pushAll_of_lt (by omega) (by omega)

/-- How a cut ends. -/
theorem run_takeAbove (m : Machine) (height : Nat) :
    EStateM.run (takeAbove height) m =
      if height ≤ m.stack.size then
        .ok (m.stack.toList.drop height) { m with stack := (m.stack.above height).2 }
      else .error .stackUnderflow m := by
  split
  case isTrue hle => rw [run_takeAbove_of_le hle, Stack.above_values]
  case isFalse hlt => exact run_takeAbove_of_lt (Nat.lt_of_not_le hlt)

/-- A cut at the old height takes what was put on top since. -/
theorem run_takeAbove_add (m : Machine) (vs : List Value) :
    EStateM.run (takeAbove m.stack.size) (m.add vs) = .ok vs m := by
  have hle : m.stack.size ≤ (m.add vs).stack.size := by
    rw [Machine.stack_add, Stack.size_add]
    omega
  rw [run_takeAbove_of_le hle]
  show EStateM.Result.ok ((m.stack.add vs).above m.stack.size).1
    { m with stack := ((m.stack.add vs).above m.stack.size).2 } = _
  rw [Stack.above_add]

/-- What was cut off finds room again, and is put back where it was. -/
theorem run_pushAll_drop (h : m.stack.Fits) {height : Nat} (hle : height ≤ m.stack.size) :
    EStateM.run (pushAll (m.stack.toList.drop height))
      { m with stack := (m.stack.above height).2 } = .ok () m := by
  have hfits : m.stack.size ≤ m.stack.capacity := h
  have hsize : (m.stack.above height).2.size = height := Stack.size_above hle
  have hroom : (m.stack.above height).2.size + (m.stack.toList.drop height).length ≤
      m.stack.capacity := by
    rw [hsize, List.length_drop, Stack.length_toList]
    omega
  rw [run_pushAll_of_le hroom]
  exact congrArg (fun stack => EStateM.Result.ok () { m with stack })
    (m.stack.above_add_drop height)

/-! ## 2. Popping -/

/-- Takes a number of values from the top, one after the other. -/
def popMany : Nat → Eval (List Value)
  | 0 => pure []
  | n + 1 => do
    let v ← pop
    let vs ← popMany n
    pure (v :: vs)

/-- **Values on top are popped in the opposite order.** The induction is on the last of them, which
is the first to be popped. -/
theorem run_popMany_add (m : Machine) (vs : List Value) :
    EStateM.run (popMany vs.length) (m.add vs) = .ok vs.reverse m := by
  induction vs using List.reverseRecOn with
  | nil => rw [Machine.add_nil]; rfl
  | append_singleton vs v ih =>
    rw [List.length_append, List.length_singleton, ← Machine.add_add, popMany,
      run_bind_of_ok (run_pop_add _ v), run_bind_of_ok ih, List.reverse_append]
    rfl

/-! ## 3. There and back -/

/-- **Pushing many values and cutting them off undo each other.** On a stack that holds no more than
its capacity:

* many values are pushed exactly if they all find room. Then a cut at the old height gives them back
  in their order and popping as many gives them back in the opposite order, and each of the two
  leaves the machine as it was before. Otherwise the capacity is met, and exactly those that find
  room are pushed;
* a cut succeeds exactly at a height that is not above the top. Then it takes the values above that
  height, and pushing them leaves the machine as it was before. Otherwise it changes nothing. -/
theorem run_pushAll_takeAbove (h : m.stack.Fits) :
    (∀ vs,
      ((∃ m', EStateM.run (pushAll vs) m = .ok () m') ↔
        m.stack.size + vs.length ≤ m.stack.capacity) ∧
      (∀ m', EStateM.run (pushAll vs) m = .ok () m' →
        EStateM.run (takeAbove m.stack.size) m' = .ok vs m ∧
        EStateM.run (popMany vs.length) m' = .ok vs.reverse m) ∧
      ∀ fault m', EStateM.run (pushAll vs) m = .error fault m' →
        fault = .stackOverflow m.stack.capacity ∧
        m' = m.add (vs.take (m.stack.capacity - m.stack.size))) ∧
    ∀ height,
      ((∃ vs m', EStateM.run (takeAbove height) m = .ok vs m') ↔ height ≤ m.stack.size) ∧
      (∀ vs m', EStateM.run (takeAbove height) m = .ok vs m' →
        vs = m.stack.toList.drop height ∧ m'.stack.toList = m.stack.toList.take height ∧
        EStateM.run (pushAll vs) m' = .ok () m) ∧
      ∀ fault m', EStateM.run (takeAbove height) m = .error fault m' →
        fault = .stackUnderflow ∧ m' = m := by
  constructor
  · intro vs
    rw [run_pushAll h]
    split
    case isTrue hroom =>
      refine ⟨⟨fun _ => hroom, fun _ => ⟨_, rfl⟩⟩, fun m' hrun => ?_, fun fault m' hrun => ?_⟩
      · cases hrun
        exact ⟨run_takeAbove_add m vs, run_popMany_add m vs⟩
      · cases hrun
    case isFalse hroom =>
      refine ⟨⟨fun ⟨m', hrun⟩ => ?_, fun hle => absurd hle hroom⟩, fun m' hrun => ?_,
        fun fault m' hrun => ?_⟩
      · cases hrun
      · cases hrun
      · cases hrun
        exact ⟨rfl, rfl⟩
  · intro height
    rw [run_takeAbove]
    split
    case isTrue hle =>
      refine ⟨⟨fun _ => hle, fun _ => ⟨_, _, rfl⟩⟩, fun vs m' hrun => ?_, fun fault m' hrun => ?_⟩
      · cases hrun
        exact ⟨rfl, Stack.toList_above m.stack height, run_pushAll_drop h hle⟩
      · cases hrun
    case isFalse hlt =>
      refine ⟨⟨fun ⟨vs, m', hrun⟩ => ?_, fun hle => absurd hle hlt⟩, fun vs m' hrun => ?_,
        fun fault m' hrun => ?_⟩
      · cases hrun
      · cases hrun
      · cases hrun
        exact ⟨rfl, rfl⟩

/-- One value on a stack for three: two more come back in either order, of three more two are pushed;
a cut below the value takes it, and a cut above the top takes nothing. -/
theorem run_pushAll_takeAbove_three :
    ((Machine.start 3 .empty).add [.integer 7]).stack.Fits ∧
    (∃ m', EStateM.run (pushAll [.text "a", .text "b"])
        ((Machine.start 3 .empty).add [.integer 7]) = .ok () m' ∧
      EStateM.run (takeAbove 1) m' =
        .ok [.text "a", .text "b"] ((Machine.start 3 .empty).add [.integer 7]) ∧
      EStateM.run (popMany 2) m' =
        .ok [.text "b", .text "a"] ((Machine.start 3 .empty).add [.integer 7])) ∧
    EStateM.run (pushAll [.text "a", .text "b", .text "c"])
        ((Machine.start 3 .empty).add [.integer 7]) =
      .error (.stackOverflow 3)
        (((Machine.start 3 .empty).add [.integer 7]).add [.text "a", .text "b"]) ∧
    (∃ m', EStateM.run (takeAbove 0) ((Machine.start 3 .empty).add [.integer 7]) =
        .ok [.integer 7] m' ∧
      EStateM.run (pushAll [.integer 7]) m' =
        .ok () ((Machine.start 3 .empty).add [.integer 7])) ∧
    EStateM.run (takeAbove 2) ((Machine.start 3 .empty).add [.integer 7]) =
      .error .stackUnderflow ((Machine.start 3 .empty).add [.integer 7]) := by
  have hfits : ((Machine.start 3 .empty).add [.integer 7]).stack.Fits := by
    show 1 ≤ 3
    decide
  obtain ⟨hpush, htake⟩ := run_pushAll_takeAbove hfits
  refine ⟨hfits, ?_, ?_, ?_, ?_⟩
  · obtain ⟨hroom, hback, -⟩ := hpush [.text "a", .text "b"]
    obtain ⟨m', hrun⟩ := hroom.mpr (by decide)
    exact ⟨m', hrun, hback m' hrun⟩
  · obtain ⟨hroom, -, hrest⟩ := hpush [.text "a", .text "b", .text "c"]
    cases hrun : EStateM.run (pushAll [.text "a", .text "b", .text "c"])
        ((Machine.start 3 .empty).add [.integer 7]) with
    | ok _ m' => exact absurd (hroom.mp ⟨m', hrun⟩) (by decide)
    | error fault m' =>
      obtain ⟨rfl, rfl⟩ := hrest fault m' hrun
      rfl
  · obtain ⟨hheight, hback, -⟩ := htake 0
    obtain ⟨vs, m', hrun⟩ := hheight.mpr (by decide)
    obtain ⟨rfl, -, hagain⟩ := hback vs m' hrun
    exact ⟨m', hrun, hagain⟩
  · obtain ⟨hheight, -, hsame⟩ := htake 2
    cases hrun : EStateM.run (takeAbove 2) ((Machine.start 3 .empty).add [.integer 7]) with
    | ok vs m' => exact absurd (hheight.mp ⟨vs, m', hrun⟩) (by decide)
    | error fault m' =>
      obtain ⟨rfl, rfl⟩ := hsame fault m' hrun
      rfl

end Eval

end StackLang
