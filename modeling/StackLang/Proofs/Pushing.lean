import StackLang.Machine.Run

/-!
# Values on top of a stack

Where there is room, a value is pushed on top of what is there (`Eval.run_push_of_lt`). It is the
operand of the operator that comes next (`Eval.run_applyUnary_add`), and what was pushed behind a
bracket are the elements of the array when the bracket is closed (`Eval.run_closeArray_add`). Of
several values those stay that find room (`Eval.run_pushAll_of_le`, `Eval.run_pushAll_of_lt`).
-/

namespace StackLang

/-! ## 1. More values on top -/

namespace Stack

/-- The same stack with more values on top. -/
def add (s : Stack) (vs : List Value) : Stack :=
  { s with values := s.values ++ vs.toArray }

@[simp] theorem toList_add (s : Stack) (vs : List Value) : (s.add vs).toList = s.toList ++ vs := by
  simp [add, toList]

@[simp] theorem size_add (s : Stack) (vs : List Value) :
    (s.add vs).size = s.size + vs.length := by
  simp [add, size]

@[simp] theorem capacity_add (s : Stack) (vs : List Value) : (s.add vs).capacity = s.capacity :=
  rfl

theorem add_nil (s : Stack) : s.add [] = s :=
  ext_toList (by simp) rfl

theorem add_add (s : Stack) (vs ws : List Value) : (s.add vs).add ws = s.add (vs ++ ws) :=
  ext_toList (by simp) rfl

theorem push?_of_lt {s : Stack} (h : s.size < s.capacity) (v : Value) :
    s.push? v = some (s.add [v]) :=
  push?_eq_some_iff.mpr ⟨h, toList_add s [v], rfl⟩

theorem pop?_add (s : Stack) (v : Value) : (s.add [v]).pop? = some (v, s) :=
  pop?_eq_some_iff.mpr ⟨toList_add s [v], rfl⟩

/-- What is below a value on top has room. -/
theorem Fits.lt_of_add {s : Stack} {v : Value} {vs : List Value} (h : (s.add (v :: vs)).Fits) :
    s.size < s.capacity := by
  have hle : (s.add (v :: vs)).size ≤ s.capacity := h
  rw [size_add, List.length_cons] at hle
  omega

theorem above_add (s : Stack) (vs : List Value) : (s.add vs).above s.size = (vs, s) := by
  refine Prod.ext ?_ (ext_toList ?_ rfl)
  · rw [above_values, toList_add, ← length_toList, List.drop_left]
  · rw [toList_above, toList_add, ← length_toList, List.take_left]

end Stack

/-- The same machine with more values on top of its stack. -/
def Machine.add (m : Machine) (vs : List Value) : Machine :=
  { m with stack := m.stack.add vs }

@[simp] theorem Machine.stack_add (m : Machine) (vs : List Value) :
    (m.add vs).stack = m.stack.add vs := rfl

theorem Machine.add_nil (m : Machine) : m.add [] = m :=
  congrArg (fun stack => { m with stack }) m.stack.add_nil

theorem Machine.add_add (m : Machine) (vs ws : List Value) : (m.add vs).add ws = m.add (vs ++ ws) :=
  congrArg (fun stack => { m with stack }) (m.stack.add_add vs ws)

/-- A value on top takes one of the free slots. -/
theorem Machine.room_add {m : Machine} {n : Nat} (h : m.stack.size + (n + 1) ≤ m.stack.capacity)
    (v : Value) : (m.add [v]).stack.size + n ≤ (m.add [v]).stack.capacity := by
  rw [stack_add, Stack.size_add, Stack.capacity_add, List.length_singleton]
  omega

/-- The height above which `]` collects: that of the innermost bracket, or the bottom without an
open bracket. A bracket that has come to lie above the top counts as the top. -/
def Machine.mark (m : Machine) : Nat :=
  min (m.marks.headD 0) m.stack.size

theorem Machine.mark_le (m : Machine) : m.mark ≤ m.stack.size :=
  Nat.min_le_right _ _

/-- The same machine without its innermost open bracket and without the values above it. -/
def Machine.belowMark (m : Machine) : Machine :=
  { m with marks := m.marks.tail, stack := (m.stack.above m.mark).2 }

namespace Eval

variable {m m' : Machine}

/-! ## 2. Evaluations one behind the other -/

section

variable {α β : Type} {fault : Fault}

/-- A bind that has ended well has ended well twice. -/
theorem exists_of_run_bind_ok {x : Eval α} {f : α → Eval β} {b : β}
    (h : EStateM.run (x >>= f) m = .ok b m') :
    ∃ a m₁, EStateM.run x m = .ok a m₁ ∧ EStateM.run (f a) m₁ = .ok b m' := by
  rw [EStateM.run_bind] at h
  cases hx : EStateM.run x m with
  | ok a m₁ =>
    rw [hx] at h
    exact ⟨a, m₁, rfl, h⟩
  | error fault m₁ =>
    rw [hx] at h
    cases h

theorem run_bind_of_ok {x : Eval α} {a : α} (h : EStateM.run x m = .ok a m') (f : α → Eval β) :
    EStateM.run (x >>= f) m = EStateM.run (f a) m' := by
  rw [EStateM.run_bind, h]

theorem run_bind_of_error {x : Eval α} (h : EStateM.run x m = .error fault m')
    (f : α → Eval β) : EStateM.run (x >>= f) m = .error fault m' := by
  rw [EStateM.run_bind, h]

end

/-! ## 3. Pushing -/

theorem run_push_of_lt (h : m.stack.size < m.stack.capacity) (v : Value) :
    EStateM.run (push v) m = .ok () (m.add [v]) :=
  run_push_of_some (Stack.push?_of_lt h v)

/-- What comes behind a push finds the value on top. -/
theorem run_push_bind {α : Type} (h : m.stack.size < m.stack.capacity) (v : Value)
    (rest : Eval α) : EStateM.run (do push v; rest) m = EStateM.run rest (m.add [v]) :=
  run_bind_of_ok (run_push_of_lt h v) fun _ => rest

theorem run_push_of_le (h : m.stack.capacity ≤ m.stack.size) (v : Value) :
    EStateM.run (push v) m = .error (.stackOverflow m.stack.capacity) m :=
  run_push_of_none (Stack.push?_eq_none_iff.mpr h)

/-- A push that succeeds puts the value on top, and nothing else. -/
theorem eq_add_of_run_push {v : Value} (h : EStateM.run (push v) m = .ok () m') :
    m' = m.add [v] := by
  rcases Nat.lt_or_ge m.stack.size m.stack.capacity with hroom | hfull
  · rw [run_push_of_lt hroom] at h
    cases h
    rfl
  · rw [run_push_of_none (Stack.push?_eq_none_iff.mpr hfull)] at h
    cases h

/-- Values that all find room are put on top in their order. -/
theorem run_pushAll_of_le {vs : List Value} (h : m.stack.size + vs.length ≤ m.stack.capacity) :
    EStateM.run (pushAll vs) m = .ok () (m.add vs) := by
  induction vs generalizing m with
  | nil => rw [pushAll_nil, Machine.add_nil]; rfl
  | cons v vs ih =>
    rw [List.length_cons] at h
    rw [pushAll_cons, run_push_bind (by omega), ih (Machine.room_add h v), Machine.add_add]
    rfl

/-- Of more values than find room those stay that still fitted. -/
theorem run_pushAll_of_lt {vs : List Value} {room : Nat}
    (hroom : m.stack.size + room = m.stack.capacity) (h : room < vs.length) :
    EStateM.run (pushAll vs) m =
      .error (.stackOverflow m.stack.capacity) (m.add (vs.take room)) := by
  induction vs generalizing m room with
  | nil => exact absurd h (Nat.not_lt_zero _)
  | cons v vs ih =>
    cases room with
    | zero =>
      rw [pushAll_cons, EStateM.run_bind, run_push_of_le (Nat.le_of_eq hroom.symm),
        List.take_zero, Machine.add_nil]
    | succ room =>
      have hrest : (m.add [v]).stack.size + room = (m.add [v]).stack.capacity := by
        rw [Machine.stack_add, Stack.size_add, Stack.capacity_add, List.length_singleton]
        omega
      rw [pushAll_cons, run_push_bind (by omega), ih hrest (Nat.lt_of_succ_lt_succ h),
        Machine.add_add]
      rfl

/-- Values that were all pushed are on top, and nothing else has changed. -/
theorem eq_add_of_run_pushAll {vs : List Value} (h : EStateM.run (pushAll vs) m = .ok () m') :
    m' = m.add vs := by
  induction vs generalizing m with
  | nil =>
    cases h
    exact (Machine.add_nil _).symm
  | cons v vs ih =>
    rw [pushAll_cons] at h
    obtain ⟨_, m₁, hpush, hrest⟩ := exists_of_run_bind_ok h
    obtain rfl := eq_add_of_run_push hpush
    rw [ih hrest, Machine.add_add]
    rfl

/-! ## 4. Operators on the values on top -/

theorem run_pop_add (m : Machine) (v : Value) : EStateM.run pop (m.add [v]) = .ok v m :=
  run_pop_of_some (m.stack.pop?_add v)

/-- What was popped was on top, and nothing else has changed. -/
theorem eq_add_of_run_pop {v : Value} (h : EStateM.run pop m = .ok v m') : m = m'.add [v] := by
  cases hp : m.stack.pop? with
  | none =>
    rw [run_pop_of_none hp] at h
    cases h
  | some top =>
    rw [run_pop_of_some hp] at h
    cases h
    obtain ⟨hvalues, hcapacity⟩ := Stack.pop?_eq_some_iff.mp hp
    have hstack : m.stack = top.2.add [top.1] :=
      Stack.ext_toList (hvalues.trans (Stack.toList_add _ _).symm) hcapacity.symm
    exact congrArg (fun stack => { m with stack }) hstack

/-- An operator of one operand takes the value on top. -/
theorem run_applyUnary_add_eq (call : Block → Eval Unit) (op : UnaryOperator) (v : Value)
    (m : Machine) :
    EStateM.run (applyUnary call op) (m.add [v]) =
      EStateM.run (ofExcept (op.act v) >>= perform call) m := by
  rw [applyUnary, EStateM.run_bind, run_pop_add]

/-- What it makes of the value is carried out below it. -/
theorem run_applyUnary_add (call : Block → Eval Unit) {op : UnaryOperator} {v : Value}
    {action : Action} (h : op.act v = .ok action) (m : Machine) :
    EStateM.run (applyUnary call op) (m.add [v]) = EStateM.run (perform call action) m := by
  rw [run_applyUnary_add_eq, h]
  rfl

/-- A single result takes the place of the operand. -/
theorem run_applyUnary_of_result (call : Block → Eval Unit) {op : UnaryOperator} {v w : Value}
    (hroom : m.stack.size < m.stack.capacity) (h : op.act v = .ok (.result w)) :
    EStateM.run (applyUnary call op) (m.add [v]) = .ok () (m.add [w]) := by
  rw [run_applyUnary_add call h]
  exact run_pushAll_of_le hroom

/-- A fault leaves the stack without the operand. -/
theorem run_applyUnary_of_error (call : Block → Eval Unit) {op : UnaryOperator} {v : Value}
    {fault : Fault} (h : op.act v = .error fault) :
    EStateM.run (applyUnary call op) (m.add [v]) = .error fault m := by
  rw [run_applyUnary_add_eq, h]
  rfl

section

variable [Allocator]

/-- An operator of two operands takes the two values on top, the last one entered first. -/
theorem run_applyBinary_add (call : Block → Eval Unit) (op : BinaryOperator) (y x : Value)
    (m : Machine) :
    EStateM.run (applyBinary call op) (m.add [y, x]) =
      EStateM.run (ofExcept (op.act y x) >>= perform call) m := by
  have htwo : m.add [y, x] = (m.add [y]).add [x] := (m.add_add [y] [x]).symm
  rw [applyBinary, htwo, EStateM.run_bind, run_pop_add]
  show EStateM.run (do
    let y ← pop
    let action ← ofExcept (op.act y x)
    perform call action) (m.add [y]) = _
  rw [EStateM.run_bind, run_pop_add]

/-- Where the operator makes something of them, that is carried out below them. -/
theorem run_applyBinary_of_ok (call : Block → Eval Unit) {op : BinaryOperator} {y x : Value}
    {action : Action} (h : op.act y x = .ok action) :
    EStateM.run (applyBinary call op) (m.add [y, x]) = EStateM.run (perform call action) m := by
  rw [run_applyBinary_add, h]
  rfl

/-- A single result takes the place of the operands. -/
theorem run_applyBinary_of_result (call : Block → Eval Unit) {op : BinaryOperator} {y x v : Value}
    (hroom : m.stack.size < m.stack.capacity) (h : op.act y x = .ok (.result v)) :
    EStateM.run (applyBinary call op) (m.add [y, x]) = .ok () (m.add [v]) := by
  rw [run_applyBinary_of_ok call h]
  exact run_pushAll_of_le hroom

/-- A fault leaves the stack without the operands. -/
theorem run_applyBinary_of_error (call : Block → Eval Unit) {op : BinaryOperator} {y x : Value}
    {fault : Fault} (h : op.act y x = .error fault) :
    EStateM.run (applyBinary call op) (m.add [y, x]) = .error fault m := by
  rw [run_applyBinary_add, h]
  rfl

end

/-- `]` takes what lies above the innermost bracket and pushes it as an array. -/
theorem run_closeArray (m : Machine) :
    EStateM.run closeArray m =
      EStateM.run (push (.array (m.stack.toList.drop m.mark))) m.belowMark := by
  have htake : EStateM.run (takeAbove m.mark) { m with marks := m.marks.tail } =
      .ok (m.stack.toList.drop m.mark) m.belowMark := by
    rw [run_takeAbove_of_le (m := { m with marks := m.marks.tail }) m.mark_le]
    show EStateM.Result.ok (m.stack.above m.mark).1 _ = _
    rw [Stack.above_values]
    rfl
  rw [closeArray, EStateM.run_bind, run_closeMark]
  show EStateM.run (do
    let top ← size
    let items ← takeAbove (min (m.marks.headD 0) top)
    push (.array items)) { m with marks := m.marks.tail } = _
  rw [EStateM.run_bind, run_size]
  show EStateM.run (do
    let items ← takeAbove m.mark
    push (.array items)) { m with marks := m.marks.tail } = _
  rw [EStateM.run_bind, htake]

/-- What was put on top since the last bracket was opened is collected. -/
theorem run_closeArray_add (h : m.stack.size < m.stack.capacity) (vs : List Value) :
    EStateM.run closeArray ({ m with marks := m.stack.size :: m.marks }.add vs) =
      .ok () (m.add [.array vs]) := by
  have hmark : ({ m with marks := m.stack.size :: m.marks }.add vs).mark = m.stack.size := by
    show min m.stack.size (m.stack.add vs).size = m.stack.size
    rw [Stack.size_add]
    omega
  have habove := m.stack.above_add vs
  have hitems : (m.stack.add vs).toList.drop m.stack.size = vs := by
    rw [← Stack.above_values, habove]
  have hbelow : ({ m with marks := m.stack.size :: m.marks }.add vs).belowMark = m := by
    rw [Machine.belowMark, hmark]
    show { m with stack := ((m.stack.add vs).above m.stack.size).2 } = m
    rw [habove]
  rw [run_closeArray, hmark, hbelow]
  show EStateM.run (push (.array ((m.stack.add vs).toList.drop m.stack.size))) m = _
  rw [hitems]
  exact run_push_of_lt h (.array vs)

end Eval

end StackLang
