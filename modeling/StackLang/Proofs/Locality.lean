import StackLang.Proofs.Rows
import StackLang.Proofs.Widening

/-!
# Operators see their operands only

An operator takes its operands from the top and puts values in their place. What lies below does not
matter to it, and it stays as it is: how the operator ends is settled by the operands and by the
number of free slots (`Ending`). This holds wherever no block is run (`Operator.Plain`).

An operator of two operands always finds room for its one result. Room can be missing only where one
operand gives two values or more: to the operators that take an element off, and to the spread of an
array (`Operator.Overflows`).

Main statement: `Eval.run_apply_local`.
-/

namespace StackLang

/-! ## 1. How an operator ends -/

/-- The end of an operator, seen from the stack below its operands.

* `done left`: these values were put in the place of the operands;
* `failed fault`: the operands are gone;
* `overflowed left`: these values were put there before room was missing. -/
inductive Ending where
  | done (left : List Value)
  | failed (fault : Fault)
  | overflowed (left : List Value)

namespace Ending

/-- What an ending is on a machine without the operands. -/
def on (m : Machine) : Ending → Outcome Unit
  | done left => .ok () (m.add left)
  | failed fault => .error fault m
  | overflowed left => .error (.stackOverflow m.stack.capacity) (m.add left)

/-- The ending of an operator that pushes its results, or fails. -/
def of (room : Nat) : Except Fault (List Value) → Ending
  | .error fault => failed fault
  | .ok vs => if vs.length ≤ room then done vs else overflowed (vs.take room)

variable {room : Nat} {results : Except Fault (List Value)}

theorem of_eq_failed_iff {fault : Fault} :
    of room results = failed fault ↔ results = .error fault := by
  cases results with
  | error fault' => simp [of]
  | ok vs =>
    simp only [of]
    split <;> simp

theorem of_eq_overflowed_iff {left : List Value} :
    of room results = overflowed left ↔
      ∃ vs, results = .ok vs ∧ room < vs.length ∧ vs.take room = left := by
  cases results with
  | error fault => simp [of]
  | ok vs =>
    simp only [of, Except.ok.injEq, exists_eq_left']
    by_cases hroom : vs.length ≤ room
    · rw [if_pos hroom]
      simp [Nat.not_lt.mpr hroom]
    · rw [if_neg hroom]
      simp [Nat.lt_of_not_le hroom]

end Ending

/-! ## 2. Operators and operands -/

namespace Operator

/-- How many operands an operator takes. -/
def arity : Operator → Nat
  | .binary _ => 2
  | .unary _ => 1
  | .readLine | .openArray | .closeArray => 0

/-- What an operator does with its operands, if it is given as many as it takes. -/
def act? [Allocator] : Operator → List Value → Option (Except Fault Action)
  | .binary op, [y, x] => some (op.act y x)
  | .unary op, [x] => some (op.act x)
  | _, _ => none

/-- The operator has its operands and runs no block: `*`, `%` and `~` run the operand that was
entered last if it is one. -/
inductive Plain : Operator → List Value → Prop
  | binary (op : BinaryOperator) (y x : Value)
    (h : x.tag = .block → op ≠ .multiply ∧ op ≠ .modulo) : Plain (.binary op) [y, x]
  | unary (op : UnaryOperator) (x : Value) (h : x.tag = .block → op ≠ .bitNot) :
    Plain (.unary op) [x]

end Operator

namespace UnaryOperator

/-- The operator takes an element off the operand: the first or the last one. -/
inductive Detaches : UnaryOperator → Value → Value → Value → Prop
  | first (v : Value) (vs : List Value) : Detaches .decrement (.array (v :: vs)) (.array vs) v
  | firstCharacter (c : Char) (cs : List Char) :
    Detaches .decrement (.text (String.ofList (c :: cs))) (.text (String.ofList cs)) (.character c)
  | last (vs : List Value) (v : Value) : Detaches .increment (.array (vs ++ [v])) (.array vs) v
  | lastCharacter (cs : List Char) (c : Char) :
    Detaches .increment (.text (String.ofList (cs ++ [c]))) (.text (String.ofList cs))
      (.character c)

/-- What is left of the operand is pushed, and then the element. -/
theorem Detaches.act_eq {op : UnaryOperator} {v rest w : Value} (h : op.Detaches v rest w) :
    op.act v = .ok (.push [rest, w]) := by
  cases h <;> simp [act, stepDown, stepUp, Except.map]

end UnaryOperator

/-- With so many free slots there is no room for all that the operator pushes, and this is left. -/
inductive Operator.Overflows : Operator → List Value → Nat → List Value → Prop
  | detached {op : UnaryOperator} {v rest w : Value} (h : op.Detaches v rest w) :
    Overflows (.unary op) [v] 0 [rest]
  | spread {vs : List Value} {free : Nat} (h : free + 1 < vs.length) :
    Overflows (.unary .bitNot) [.array vs] free (vs.take (free + 1))

/-! ## 3. What a plain operator makes of its operands -/

/-- A calculation without a result is no matter of room. -/
theorem Fault.isOverflow_of_isCalculation {fault : Fault} (h : fault.isCalculation = true) :
    fault.isOverflow = false := by
  cases fault with
  | stackOverflow => cases h
  | _ => rfl

namespace Operator

/-- What an operator that runs no block makes of its operands: a fault that is no matter of room, one
result, what is left of a collection and its element, or all elements of an array. -/
inductive Makes : Operator → List Value → Except Fault (List Value) → Prop
  | refused {op : Operator} {ops : List Value} {fault : Fault} (h : fault.isOverflow = false) :
    Makes op ops (.error fault)
  | single {op : Operator} {ops : List Value} (w : Value) : Makes op ops (.ok [w])
  | detached {op : UnaryOperator} {v rest w : Value} (h : op.Detaches v rest w) :
    Makes (.unary op) [v] (.ok [rest, w])
  | spread (vs : List Value) : Makes (.unary .bitNot) [.array vs] (.ok vs)

variable {op : Operator} {ops : List Value}

theorem makes_checked (calculation : Calculation) (n : Option Int64) :
    Makes op ops ((checked calculation n).map ([·])) := by
  cases n with
  | none => exact .refused rfl
  | some n => exact .single _

theorem makes_stepDown (v : Value) : Makes (.unary .decrement) [v] (UnaryOperator.stepDown v) := by
  cases v with
  | integer n => exact makes_checked _ _
  | real r => exact .single _
  | character c => exact .single _
  | text s =>
    obtain ⟨cs, rfl⟩ : ∃ cs, s = String.ofList cs := ⟨s.toList, String.ofList_toList.symm⟩
    cases cs with
    | nil => exact .refused rfl
    | cons c cs =>
      simp only [UnaryOperator.stepDown, String.toList_ofList]
      exact .detached (.firstCharacter c cs)
  | array vs =>
    cases vs with
    | nil => exact .refused rfl
    | cons v vs => exact .detached (.first v vs)
  | block b => exact .refused rfl

/-- The last element is looked for from behind, so the collection is seen as one with an element at
its end. -/
theorem makes_stepUp (v : Value) : Makes (.unary .increment) [v] (UnaryOperator.stepUp v) := by
  cases v with
  | integer n => exact makes_checked _ _
  | real r => exact .single _
  | character c => exact .single _
  | text s =>
    obtain ⟨cs, rfl⟩ : ∃ cs, s = String.ofList cs := ⟨s.toList, String.ofList_toList.symm⟩
    rcases List.eq_nil_or_concat' cs with rfl | ⟨cs, c, rfl⟩
    · exact .refused rfl
    · simp only [UnaryOperator.stepUp, String.toList_ofList, List.getLast?_concat,
        List.dropLast_concat]
      exact .detached (.lastCharacter cs c)
  | array vs =>
    rcases List.eq_nil_or_concat' vs with rfl | ⟨vs, v, rfl⟩
    · exact .refused rfl
    · simp only [UnaryOperator.stepUp, List.getLast?_concat, List.dropLast_concat]
      exact .detached (.last vs v)
  | block b => exact .refused rfl

theorem makes_toInteger (v : Value) :
    Makes op ops ((UnaryOperator.toIntegerValue v).map ([·])) := by
  cases v with
  | text s =>
    simp only [UnaryOperator.toIntegerValue]
    cases Numeral.integer? (Text.trimChars s.toList) with
    | none => exact .refused rfl
    | some n => exact .single _
  | integer | real | character => exact .single _
  | array | block => exact .refused rfl

theorem makes_toReal (v : Value) : Makes op ops ((UnaryOperator.toRealValue v).map ([·])) := by
  cases v with
  | text s =>
    simp only [UnaryOperator.toRealValue]
    cases Numeral.real? (Text.trimChars s.toList) with
    | none => exact .refused rfl
    | some r => exact .single _
  | integer | real | character => exact .single _
  | array | block => exact .refused rfl

theorem makes_characterOf (code : Int64) :
    Makes op ops ((UnaryOperator.characterOf code).map ([·])) := by
  unfold UnaryOperator.characterOf
  by_cases hvalid : 0 ≤ code.toInt ∧ code.toInt.toNat.isValidChar
  · rw [if_pos hvalid]
    exact .single _
  · rw [if_neg hvalid]
    exact .refused rfl

theorem makes_toCharacter (v : Value) :
    Makes op ops ((UnaryOperator.toCharacterValue v).map ([·])) := by
  cases v with
  | integer n => exact makes_characterOf n
  | real r => exact makes_characterOf (Real.truncate r)
  | character => exact .single _
  | text | array | block => exact .refused rfl

theorem makes_complement {v : Value} (h : v.tag ≠ .block) : ∃ results,
    UnaryOperator.complement v = results.map .push ∧ Makes (.unary .bitNot) [v] results := by
  cases v with
  | integer | real | character => exact ⟨.ok [_], rfl, .single _⟩
  | text => exact ⟨.error _, rfl, .refused rfl⟩
  | array vs => exact ⟨.ok vs, rfl, .spread vs⟩
  | block => exact absurd rfl h

/-- To push one result is to push a list of one. -/
theorem map_result (result : Except Fault Value) :
    result.map Action.result = (result.map ([·])).map Action.push := by
  cases result <;> rfl

theorem makes_unary {op : UnaryOperator} {x : Value} (h : x.tag = .block → op ≠ .bitNot) :
    ∃ results, op.act x = results.map .push ∧ Makes (.unary op) [x] results := by
  cases op with
  | bitNot => exact makes_complement fun hblock => h hblock rfl
  | decrement => exact ⟨_, rfl, makes_stepDown x⟩
  | increment => exact ⟨_, rfl, makes_stepUp x⟩
  | toInteger => exact ⟨_, map_result _, makes_toInteger x⟩
  | toReal => exact ⟨_, map_result _, makes_toReal x⟩
  | toCharacter => exact ⟨_, map_result _, makes_toCharacter x⟩
  | toText => exact ⟨.ok [_], rfl, .single _⟩

theorem makes_binary [Allocator] {op : BinaryOperator} {y x : Value}
    (h : x.tag = .block → op ≠ .multiply ∧ op ≠ .modulo) :
    ∃ results, op.act y x = results.map .push ∧ Makes (.binary op) [y, x] results := by
  have hfollows := op.follows_row y x
  cases hrow : op.row? y.tag x.tag with
  | none =>
    rw [hrow] at hfollows
    exact ⟨.error _, hfollows, .refused rfl⟩
  | some row =>
    rw [hrow] at hfollows
    cases row with
    | result tag =>
      obtain ⟨v, -, hact⟩ := hfollows
      exact ⟨.ok [v], hact, .single v⟩
    | checked tag =>
      rcases hfollows with ⟨v, -, hact⟩ | ⟨fault, hfault, hact⟩
      · exact ⟨.ok [v], hact, .single v⟩
      · exact ⟨.error fault, hact, .refused (Fault.isOverflow_of_isCalculation hfault)⟩
    | fold =>
      obtain ⟨_, _, hop, _, rfl, _⟩ := hfollows
      exact absurd hop (h rfl).1
    | map =>
      obtain ⟨_, hop, rfl, _⟩ := hfollows
      exact absurd hop (h rfl).2

/-- A plain operator fails or pushes what it makes of its operands. -/
theorem Plain.exists_makes [Allocator] (h : op.Plain ops) :
    ∃ results, op.act? ops = some (results.map .push) ∧ op.Makes ops results := by
  cases h with
  | binary op y x h =>
    obtain ⟨results, hact, hmakes⟩ := makes_binary h
    exact ⟨results, congrArg some hact, hmakes⟩
  | unary op x h =>
    obtain ⟨results, hact, hmakes⟩ := makes_unary h
    exact ⟨results, congrArg some hact, hmakes⟩

theorem Plain.length_pos (h : op.Plain ops) : 0 < ops.length := by
  cases h with
  | binary => exact Nat.succ_pos 1
  | unary => exact Nat.succ_pos 0

/-- What an operator that meets the capacity would have pushed, and what of it found room. -/
theorem Overflows.act? [Allocator] {free : Nat} {left : List Value}
    (h : op.Overflows ops free left) :
    ∃ vs, op.act? ops = some (.ok (.push vs)) ∧ free + ops.length < vs.length ∧
      vs.take (free + ops.length) = left := by
  cases h with
  | detached h => exact ⟨_, congrArg some h.act_eq, Nat.one_lt_two, rfl⟩
  | spread h => exact ⟨_, rfl, h, rfl⟩

/-- Room is missing exactly for the collections without their element and for the spread of a long
array. -/
theorem Makes.overflows_iff [Allocator] {results : Except Fault (List Value)} {free : Nat}
    {left : List Value} (h : op.Makes ops results) (hact : op.act? ops = some (results.map .push))
    (hops : 0 < ops.length) :
    Ending.of (free + ops.length) results = .overflowed left ↔ op.Overflows ops free left := by
  rw [Ending.of_eq_overflowed_iff]
  constructor
  · rintro ⟨vs, rfl, hroom, rfl⟩
    cases h with
    | single w =>
      rw [List.length_singleton] at hroom
      omega
    | detached hdetaches =>
      obtain rfl : free = 0 := Nat.lt_one_iff.mp (Nat.lt_of_succ_lt_succ hroom)
      exact .detached hdetaches
    | spread => exact .spread hroom
  · intro hoverflows
    obtain ⟨vs, hpush, hroom, hleft⟩ := hoverflows.act?
    rw [hact] at hpush
    obtain ⟨ws, hresults, hws⟩ := exists_of_map_eq_ok (Option.some.inj hpush)
    cases hws
    exact ⟨vs, hresults, hroom, hleft⟩

end Operator

/-! ## 4. Operators on a machine -/

theorem Stack.eq_empty {s : Stack} (h : s.size = 0) : s = .empty s.capacity :=
  ext_toList (List.length_eq_zero_iff.mp h) rfl

namespace Eval

variable {m : Machine} {op : Operator} {ops : List Value}

theorem run_pop_of_empty (h : m.stack.size = 0) :
    EStateM.run pop m = .error .stackUnderflow { m with stack := .empty m.stack.capacity } := by
  rw [run_pop_of_none (Stack.pop?_eq_none_iff.mpr (List.length_eq_zero_iff.mp h)),
    ← Stack.eq_empty h]

/-- An operator takes the operands that it needs from the top. -/
theorem run_apply_add [Allocator] (call : Block → Eval Unit) {result : Except Fault Action}
    (h : op.act? ops = some result) (m : Machine) :
    EStateM.run (apply call op) (m.add ops) = EStateM.run (ofExcept result >>= perform call) m := by
  unfold Operator.act? at h
  split at h
  · cases h
    exact run_applyBinary_add call _ _ _ m
  · cases h
    exact run_applyUnary_add_eq call _ _ m
  · cases h

/-- Results are pushed as far as there is room. -/
theorem run_ofExcept_push (call : Block → Eval Unit) {room : Nat}
    (hroom : m.stack.size + room = m.stack.capacity) (results : Except Fault (List Value)) :
    EStateM.run (ofExcept (results.map .push) >>= perform call) m =
      (Ending.of room results).on m := by
  cases results with
  | error fault => rfl
  | ok vs =>
    show EStateM.run (pushAll vs) m = Ending.on m (if vs.length ≤ room then _ else _)
    by_cases hfits : vs.length ≤ room
    · rw [if_pos hfits]
      exact run_pushAll_of_le (by omega)
    · rw [if_neg hfits]
      exact run_pushAll_of_lt hroom (Nat.lt_of_not_le hfits)

/-- Without enough operands all there are have been taken when one is missing. -/
theorem run_apply_of_lt [Allocator] (call : Block → Eval Unit) (h : m.stack.size < op.arity) :
    EStateM.run (apply call op) m =
      .error .stackUnderflow { m with stack := .empty m.stack.capacity } := by
  cases op with
  | binary op =>
    show EStateM.run (applyBinary call op) m = _
    rcases Nat.eq_zero_or_pos m.stack.size with hnone | hsome
    · rw [applyBinary, EStateM.run_bind, run_pop_of_empty hnone]
    · obtain ⟨x, hx⟩ := List.length_eq_one_iff.mp (Nat.le_antisymm (Nat.le_of_lt_succ h) hsome)
      have hstack : m.stack = (Stack.empty m.stack.capacity).add [x] := Stack.ext_toList hx rfl
      have hm : m = { m with stack := Stack.empty m.stack.capacity }.add [x] :=
        congrArg (fun stack => { m with stack }) hstack
      rw [hm, applyBinary, EStateM.run_bind, run_pop_add]
      show EStateM.run (pop >>= fun y => _) _ = _
      rw [EStateM.run_bind, run_pop_of_empty rfl]
      rfl
  | unary op =>
    show EStateM.run (applyUnary call op) m = _
    rw [applyUnary, EStateM.run_bind, run_pop_of_empty (Nat.lt_one_iff.mp h)]
  | readLine | openArray | closeArray => exact absurd h (Nat.not_lt_zero _)

/-- **Operators see their operands only.** How an operator ends that runs no block is settled by its
operands and the number of free slots:

* it puts values in the place of the operands, fails without them, or meets the capacity;
* no other fault is one of missing room, and room is missing only to take an element off a
  collection on a full stack, which leaves the rest of the collection, and to the spread of an array
  that does not fit, which leaves as many of the elements as fit;
* all values below are left as they are.

An operator with too few operands leaves an empty stack. -/
theorem run_apply_local [Allocator] (op : Operator) :
    (∀ ops free, op.Plain ops → ∃ ending : Ending,
      (∀ call m, m.stack.size + ops.length + free = m.stack.capacity →
        EStateM.run (apply call op) (m.add ops) = ending.on m) ∧
      (∀ fault, ending = .failed fault → fault.isOverflow = false) ∧
      ∀ left, ending = .overflowed left ↔ op.Overflows ops free left) ∧
    ∀ call m, m.stack.size < op.arity →
      EStateM.run (apply call op) m =
        .error .stackUnderflow { m with stack := .empty m.stack.capacity } := by
  refine ⟨fun ops free hplain => ?_, fun call m => run_apply_of_lt call⟩
  obtain ⟨results, hact, hmakes⟩ := hplain.exists_makes
  refine ⟨.of (free + ops.length) results, ?_, ?_, ?_⟩
  · intro call m hcapacity
    have hroom : m.stack.size + (free + ops.length) = m.stack.capacity := by omega
    rw [run_apply_add call hact, run_ofExcept_push call hroom]
  · intro fault hfailed
    rw [Ending.of_eq_failed_iff] at hfailed
    subst hfailed
    cases hmakes with
    | refused h => exact h
  · intro left
    exact hmakes.overflows_iff hact hplain.length_pos

/-- An array on a full stack loses its first element, and one value is too few for a sum. -/
theorem run_apply_local_full :
    ((Operator.unary .decrement).Plain [.array [.integer 1, .integer 2]] ∧
      (Operator.unary .decrement).Overflows [.array [.integer 1, .integer 2]] 0
        [.array [.integer 2]] ∧
      EStateM.run (apply (call 0) (.unary .decrement))
          ⟨⟨#[.array [.integer 1, .integer 2]], 1⟩, .initial, [], .empty, 0⟩ =
        .error (.stackOverflow 1) ⟨⟨#[.array [.integer 2]], 1⟩, .initial, [], .empty, 0⟩) ∧
    ((⟨#[.integer 7], 1⟩ : Stack).size < (Operator.binary .add).arity ∧
      EStateM.run (apply (call 0) (.binary .add)) ⟨⟨#[.integer 7], 1⟩, .initial, [], .empty, 0⟩ =
        .error .stackUnderflow ⟨⟨#[], 1⟩, .initial, [], .empty, 0⟩) := by
  have hplain : (Operator.unary .decrement).Plain [.array [.integer 1, .integer 2]] :=
    .unary _ _ (by decide)
  have hoverflows : (Operator.unary .decrement).Overflows [.array [.integer 1, .integer 2]] 0
      [.array [.integer 2]] := .detached (.first _ _)
  refine ⟨⟨hplain, hoverflows, ?_⟩, by decide, ?_⟩
  · obtain ⟨ending, hrun, -, hending⟩ := (run_apply_local (.unary .decrement)).1 _ 0 hplain
    obtain rfl := (hending _).mpr hoverflows
    exact hrun (call 0) ⟨⟨#[], 1⟩, .initial, [], .empty, 0⟩ rfl
  · exact (run_apply_local (.binary .add)).2 (call 0)
      ⟨⟨#[.integer 7], 1⟩, .initial, [], .empty, 0⟩ (by decide)

end Eval

end StackLang
