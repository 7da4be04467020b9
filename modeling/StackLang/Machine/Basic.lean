import StackLang.Fault
import StackLang.Input
import StackLang.Stack
import StackLang.Variables

/-!
# The machine and its elementary steps

All that a program can change: the stack, the variables, the open brackets, the input and the count
of the blocks that are being run. An evaluation (`Eval`) changes the machine and ends with a result
or with a fault; a fault leaves the machine as it is at that moment, and nothing is taken back.

This file holds the steps from which everything else is put together, and for each of them one
equation per way in which it can end.
-/

namespace StackLang

/-- The state of an evaluation. `marks` holds, innermost first, the size that the stack had at each
bracket that is still open; `depth` counts the blocks that are being run inside each other. -/
structure Machine where
  stack : Stack
  vars : Variables
  marks : List Nat
  input : Input
  depth : Nat

namespace Machine

/-- A machine at the beginning of an evaluation. -/
def start (capacity : Nat) (input : Input) : Machine :=
  ⟨.empty capacity, .initial, [], input, 0⟩

/-- One more block is being run. -/
def enter (m : Machine) : Machine :=
  { m with depth := m.depth + 1 }

/-- One block less is being run. -/
def leave (m : Machine) : Machine :=
  { m with depth := m.depth - 1 }

@[simp] theorem depth_enter (m : Machine) : m.enter.depth = m.depth + 1 := rfl

@[simp] theorem depth_leave (m : Machine) : m.leave.depth = m.depth - 1 := rfl

end Machine

/-- A change of the machine with a result or a fault. -/
abbrev Eval := EStateM Fault Machine

/-- How an evaluation ends. -/
abbrev Outcome (α : Type) := EStateM.Result Fault Machine α

/-- The machine at the end of an evaluation, with a result or with a fault. -/
def Outcome.machine {α : Type} : Outcome α → Machine
  | .ok _ m => m
  | .error _ m => m

@[simp] theorem Outcome.machine_ok {α : Type} (a : α) (m : Machine) :
    Outcome.machine (.ok a m : Outcome α) = m := rfl

@[simp] theorem Outcome.machine_error {α : Type} (fault : Fault) (m : Machine) :
    Outcome.machine (.error fault m : Outcome α) = m := rfl

namespace Eval

/-! ## 1. Faults -/

/-- What was calculated outside the machine, as an evaluation. -/
def ofExcept {α : Type} : Except Fault α → Eval α
  | .ok a => pure a
  | .error fault => throw fault

@[simp] theorem ofExcept_ok {α : Type} (a : α) : ofExcept (.ok a) = pure a := rfl

@[simp] theorem ofExcept_error {α : Type} (fault : Fault) :
    ofExcept (.error fault : Except Fault α) = throw fault := rfl

/-! ## 2. The stack -/

/-- The number of values on the stack. -/
def size : Eval Nat := fun m =>
  .ok m.stack.size m

/-- Puts a value on top. -/
def push (v : Value) : Eval Unit := fun m =>
  match m with
  | ⟨stack, vars, marks, input, depth⟩ =>
    match stack.push? v with
    | some stack => .ok () ⟨stack, vars, marks, input, depth⟩
    | none => .error (.stackOverflow stack.capacity) ⟨stack, vars, marks, input, depth⟩

/-- Takes the top value. -/
def pop : Eval Value := fun m =>
  match m with
  | ⟨stack, vars, marks, input, depth⟩ =>
    match stack.pop? with
    | some (v, stack) => .ok v ⟨stack, vars, marks, input, depth⟩
    | none => .error .stackUnderflow ⟨stack, vars, marks, input, depth⟩

/-- The top value, which stays where it is. -/
def top : Eval Value := fun m =>
  match m.stack.top? with
  | some v => .ok v m
  | none => .error .stackUnderflow m

/-- Puts values on top, one after the other; where there is no more room, those that still fitted
stay. -/
def pushAll (vs : List Value) : Eval Unit :=
  vs.forM push

/-- Takes all values above a height, which must not be above the top. -/
def takeAbove (height : Nat) : Eval (List Value) := fun m =>
  match m with
  | ⟨stack, vars, marks, input, depth⟩ =>
    if height ≤ stack.size then
      let (vs, stack) := stack.above height
      .ok vs ⟨stack, vars, marks, input, depth⟩
    else
      .error .stackUnderflow ⟨stack, vars, marks, input, depth⟩

@[simp] theorem run_size (m : Machine) : EStateM.run size m = .ok m.stack.size m := rfl

theorem run_push_of_some {m : Machine} {v : Value} {stack : Stack} (h : m.stack.push? v = some stack) :
    EStateM.run (push v) m = .ok () { m with stack } := by
  simp [EStateM.run, push, h]

theorem run_push_of_none {m : Machine} {v : Value} (h : m.stack.push? v = none) :
    EStateM.run (push v) m = .error (.stackOverflow m.stack.capacity) m := by
  simp [EStateM.run, push, h]

theorem run_pop_of_some {m : Machine} {v : Value} {stack : Stack} (h : m.stack.pop? = some (v, stack)) :
    EStateM.run pop m = .ok v { m with stack } := by
  simp [EStateM.run, pop, h]

theorem run_pop_of_none {m : Machine} (h : m.stack.pop? = none) :
    EStateM.run pop m = .error .stackUnderflow m := by
  simp [EStateM.run, pop, h]

theorem run_top_of_some {m : Machine} {v : Value} (h : m.stack.top? = some v) :
    EStateM.run top m = .ok v m := by
  simp [EStateM.run, top, h]

theorem run_top_of_none {m : Machine} (h : m.stack.top? = none) :
    EStateM.run top m = .error .stackUnderflow m := by
  simp [EStateM.run, top, h]

theorem run_takeAbove_of_le {m : Machine} {height : Nat} (h : height ≤ m.stack.size) :
    EStateM.run (takeAbove height) m =
      .ok (m.stack.above height).1 { m with stack := (m.stack.above height).2 } := by
  simp [EStateM.run, takeAbove, h]

theorem run_takeAbove_of_lt {m : Machine} {height : Nat} (h : m.stack.size < height) :
    EStateM.run (takeAbove height) m = .error .stackUnderflow m := by
  simp [EStateM.run, takeAbove, Nat.not_le.2 h]

@[simp] theorem pushAll_nil : pushAll [] = pure () := rfl

@[simp] theorem pushAll_cons (v : Value) (vs : List Value) :
    pushAll (v :: vs) = (do push v; pushAll vs) := rfl

/-! ## 3. The brackets -/

/-- `[`: remembers the size of the stack. -/
def openArray : Eval Unit := fun m =>
  .ok () { m with marks := m.stack.size :: m.marks }

/-- Forgets the innermost bracket. Without an open bracket the array begins at the bottom. -/
def closeMark : Eval Nat := fun m =>
  match m.marks with
  | [] => .ok 0 m
  | mark :: marks => .ok mark { m with marks }

/-- `]`: collects what lies above the innermost bracket into an array. A bracket may have come to
lie above the top; then nothing is collected. -/
def closeArray : Eval Unit := do
  let mark ← closeMark
  let top ← size
  let items ← takeAbove (min mark top)
  push (.array items)

@[simp] theorem run_openArray (m : Machine) :
    EStateM.run openArray m = .ok () { m with marks := m.stack.size :: m.marks } := rfl

theorem run_closeMark (m : Machine) :
    EStateM.run closeMark m = .ok (m.marks.headD 0) { m with marks := m.marks.tail } := by
  obtain ⟨stack, vars, marks, input, depth⟩ := m
  cases marks <;> rfl

/-! ## 4. Variables and input -/

/-- The value of a variable, if it is set. -/
def getVariable (name : Char) : Eval (Option Value) := fun m =>
  .ok (m.vars.get? name) m

/-- Sets a variable. -/
def setVariable (name : Char) (v : Value) : Eval Unit := fun m =>
  .ok () { m with vars := m.vars.set name v }

/-- Takes the next line of the input: no line at its end, a fault for a line that is no text. Such
a line is taken as well. -/
def nextLine : Eval (Option String) := fun m =>
  match m.input.line with
  | [] => .ok none m
  | bytes =>
    match Input.decode? bytes with
    | some line => .ok (some line) { m with input := m.input.rest }
    | none => .error .malformedInput { m with input := m.input.rest }

/-- `l`: pushes the next line of the input with its line feed; at the end of the input nothing
happens. -/
def readLine : Eval Unit := do
  match ← nextLine with
  | some line => push (.text line)
  | none => pure ()

@[simp] theorem run_getVariable (name : Char) (m : Machine) :
    EStateM.run (getVariable name) m = .ok (m.vars.get? name) m := rfl

@[simp] theorem run_setVariable (name : Char) (v : Value) (m : Machine) :
    EStateM.run (setVariable name v) m = .ok () { m with vars := m.vars.set name v } := rfl

theorem run_nextLine_of_end {m : Machine} (h : m.input.line = []) :
    EStateM.run nextLine m = .ok none m := by
  simp [EStateM.run, nextLine, h]

theorem run_nextLine_of_some {m : Machine} {line : String} (hline : m.input.line ≠ [])
    (h : Input.decode? m.input.line = some line) :
    EStateM.run nextLine m = .ok (some line) { m with input := m.input.rest } := by
  simp [EStateM.run, nextLine, h]

theorem run_nextLine_of_none {m : Machine} (hline : m.input.line ≠ [])
    (h : Input.decode? m.input.line = none) :
    EStateM.run nextLine m = .error .malformedInput { m with input := m.input.rest } := by
  simp [EStateM.run, nextLine, h]

/-! ## 5. Blocks that are being run -/

/-- Goes on if the limit allows one more block inside those that are being run. -/
def checkDepth (limit : Nat) : Eval Unit := fun m =>
  if m.depth < limit then .ok () m else .error (.stackOverflow limit) m

/-- Counts one more block during an evaluation, whatever its end. -/
def nested {α : Type} (x : Eval α) : Eval α := fun m =>
  match x m.enter with
  | .ok a m => .ok a m.leave
  | .error fault m => .error fault m.leave

theorem run_checkDepth_of_lt {m : Machine} {limit : Nat} (h : m.depth < limit) :
    EStateM.run (checkDepth limit) m = .ok () m := by
  simp [EStateM.run, checkDepth, h]

theorem run_checkDepth_of_le {m : Machine} {limit : Nat} (h : limit ≤ m.depth) :
    EStateM.run (checkDepth limit) m = .error (.stackOverflow limit) m := by
  simp [EStateM.run, checkDepth, Nat.not_lt.2 h]

theorem run_nested_of_ok {α : Type} {x : Eval α} {m m' : Machine} {a : α}
    (h : EStateM.run x m.enter = .ok a m') : EStateM.run (nested x) m = .ok a m'.leave := by
  have h' : x m.enter = .ok a m' := h
  simp only [EStateM.run, nested, h']

theorem run_nested_of_error {α : Type} {x : Eval α} {m m' : Machine} {fault : Fault}
    (h : EStateM.run x m.enter = .error fault m') :
    EStateM.run (nested x) m = .error fault m'.leave := by
  have h' : x m.enter = .error fault m' := h
  simp only [EStateM.run, nested, h']

end Eval

end StackLang
