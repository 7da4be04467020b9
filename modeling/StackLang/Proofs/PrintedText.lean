import Mathlib.Data.List.Basic
import StackLang.Proofs.Pushing

/-!
# Rearranging values leaves the printed text

A stack is printed without anything between its values, and an array without any sign of itself. So
what matters to the printed text is the order of the parts alone, not how they are grouped. Brackets
group values, the spread of an array and taking off its last element ungroup them, joining two
collections puts together what stood side by side, and the text of a value is what it shows
(`Instruction.Regroups`). Wherever one of these succeeds, the stack is printed as it was before
(`Eval.render_of_regroups`).

To take off the first element is none of them: it comes to stand behind the rest.
-/

namespace StackLang

/-! ## 1. What is shown by a stack -/

namespace Stack

theorem render_add (s : Stack) (vs : List Value) :
    (s.add vs).render = (Value.renderAll s.toList ++ Value.renderAll vs).push '\n' := by
  rw [render, toList_add, Value.renderAll_append]

/-- Values on top may be replaced by others that show the same. -/
theorem render_add_congr {s : Stack} {vs ws : List Value}
    (h : Value.renderAll vs = Value.renderAll ws) : (s.add vs).render = (s.add ws).render := by
  rw [render_add, render_add, h]

end Stack

/-- Arrays and texts are collections. -/
def Tag.isCollection : Tag → Bool
  | .array | .text => true
  | .integer | .real | .character | .block => false

/-- No collection is a number. -/
theorem Value.real?_of_isCollection {v : Value} (h : v.tag.isCollection = true) :
    v.real? = none := by
  cases v with
  | integer | real => cases h
  | character | text | array | block => rfl

/-! ## 2. Operators that show what their operands show -/

theorem BinaryOperator.reals_of_isCollection {op : BinaryOperator} {calculate : Float → Float → Float}
    {y x : Value} (h : y.tag.isCollection = true ∨ x.tag.isCollection = true) :
    reals op calculate y x = mismatch op y x := by
  unfold reals
  rcases h with hy | hx
  · rw [Value.real?_of_isCollection hy]
  · rw [Value.real?_of_isCollection hx]
    cases y.real? <;> rfl

/-- The sum of two operands with a collection among them puts them side by side in the order in which
they were entered. -/
theorem BinaryOperator.render_sum {y x v : Value}
    (hcollection : y.tag.isCollection = true ∨ x.tag.isCollection = true)
    (h : sum y x = .ok v) : v.render = y.render ++ x.render := by
  revert h
  fun_cases sum y x with
  | case1 => simp [Tag.isCollection] at hcollection
  | case2 | case3 | case4 | case5 | case6 | case7 | case8 | case9 | case10 | case11 =>
    intro h
    cases h
    simp
  | case12 =>
    intro h
    rw [reals_of_isCollection hcollection] at h
    cases h

/-- The last element of a collection stood at its end. -/
theorem UnaryOperator.renderAll_stepUp {v : Value} {results : List Value}
    (hcollection : v.tag.isCollection = true) (h : stepUp v = .ok results) :
    Value.renderAll results = v.render := by
  cases v with
  | integer | real | character | block => cases hcollection
  | text s =>
    obtain ⟨cs, rfl⟩ : ∃ cs, s = String.ofList cs := ⟨s.toList, String.ofList_toList.symm⟩
    rcases List.eq_nil_or_concat' cs with rfl | ⟨cs, c, rfl⟩
    · cases h
    · simp only [stepUp, String.toList_ofList, List.getLast?_concat, List.dropLast_concat,
        Except.ok.injEq] at h
      subst h
      simp [String.ofList_append]
  | array vs =>
    rcases List.eq_nil_or_concat' vs with rfl | ⟨vs, w, rfl⟩
    · cases h
    · simp only [stepUp, List.getLast?_concat, List.dropLast_concat, Except.ok.injEq] at h
      subst h
      simp

/-! ## 3. Instructions that rearrange -/

/-- An instruction that only groups, ungroups or writes out what lies on a stack, or only looks at it.

* `openArray`, `closeArray`: the brackets, wherever they are;
* `toText`, `store`: the text of the top value; a copy of it for a variable;
* `spread`, `detach`: the elements of an array on top; the last element of a collection on top;
* `join`: the sum of the two values on top, one of them a collection. -/
inductive Instruction.Regroups : Instruction → Stack → Prop
  | openArray (s : Stack) : Regroups (.apply .openArray) s
  | closeArray (s : Stack) : Regroups (.apply .closeArray) s
  | toText (s : Stack) : Regroups (.apply (.unary .toText)) s
  | store (name : Char) (s : Stack) : Regroups (.store name) s
  | spread (s : Stack) (items : List Value) :
    Regroups (.apply (.unary .bitNot)) (s.add [.array items])
  | detach (s : Stack) {v : Value} (h : v.tag.isCollection = true) :
    Regroups (.apply (.unary .increment)) (s.add [v])
  | join (s : Stack) {y x : Value}
    (h : y.tag.isCollection = true ∨ x.tag.isCollection = true) :
    Regroups (.apply (.binary .add)) (s.add [y, x])

namespace Eval

variable {m m' : Machine}

/-! ## 4. Runs of these instructions -/

/-- What is pushed in the place of a value on top and shows the same leaves the printed text. -/
theorem render_of_run_applyUnary {call : Block → Eval Unit} {op : UnaryOperator} {v : Value}
    {results : Except Fault (List Value)} (hact : op.act v = results.map .push)
    (hshown : ∀ vs, results = .ok vs → Value.renderAll vs = v.render)
    (hrun : EStateM.run (applyUnary call op) (m.add [v]) = .ok () m') :
    m'.stack.render = (m.add [v]).stack.render := by
  rw [run_applyUnary_add_eq, hact] at hrun
  cases hresults : results with
  | error fault =>
    rw [hresults] at hrun
    cases hrun
  | ok vs =>
    rw [hresults] at hrun
    obtain rfl := eq_add_of_run_pushAll hrun
    refine Stack.render_add_congr ?_
    rw [hshown vs hresults]
    simp

/-- The text of a value shows what the value shows. -/
theorem render_of_run_toText {call : Block → Eval Unit}
    (hrun : EStateM.run (applyUnary call .toText) m = .ok () m') :
    m'.stack.render = m.stack.render := by
  obtain ⟨v, m₁, hpop, -⟩ := exists_of_run_bind_ok hrun
  obtain rfl := eq_add_of_run_pop hpop
  have hact : UnaryOperator.toText.act v = (Except.ok [.text v.render]).map .push := rfl
  refine render_of_run_applyUnary hact (fun vs hvs => ?_) hrun
  cases hvs
  simp

/-- The sum of two values on top with a collection among them shows what they show. -/
theorem render_of_run_sum [Allocator] {call : Block → Eval Unit} {y x : Value}
    (hcollection : y.tag.isCollection = true ∨ x.tag.isCollection = true)
    (hrun : EStateM.run (applyBinary call .add) (m.add [y, x]) = .ok () m') :
    m'.stack.render = (m.add [y, x]).stack.render := by
  rw [run_applyBinary_add] at hrun
  have hact : BinaryOperator.add.act y x = (BinaryOperator.sum y x).map .result := rfl
  rw [hact] at hrun
  cases hsum : BinaryOperator.sum y x with
  | error fault =>
    rw [hsum] at hrun
    cases hrun
  | ok v =>
    rw [hsum] at hrun
    obtain rfl := eq_add_of_run_pushAll hrun
    refine Stack.render_add_congr ?_
    simp [BinaryOperator.render_sum hcollection hsum]

/-- An array shows what its elements showed above the bracket. -/
theorem render_of_run_closeArray (hrun : EStateM.run closeArray m = .ok () m') :
    m'.stack.render = m.stack.render := by
  rw [run_closeArray] at hrun
  obtain rfl := eq_add_of_run_push hrun
  rw [Machine.stack_add, Stack.render_add, Value.renderAll_cons, Value.render_array,
    Value.renderAll_nil, String.append_empty, ← Value.renderAll_append]
  show (Value.renderAll ((m.stack.above m.mark).2.toList ++ _)).push '\n' = _
  rw [Stack.toList_above, List.take_append_drop, Stack.render]

/-- A copy of the top value for a variable leaves the stack as it is. -/
theorem stack_of_run_store {name : Char} (hrun : EStateM.run (store name) m = .ok () m') :
    m'.stack = m.stack := by
  obtain ⟨v, m₁, htop, hset⟩ := exists_of_run_bind_ok hrun
  rw [run_setVariable] at hset
  cases htop' : m.stack.top? with
  | none =>
    rw [run_top_of_none htop'] at htop
    cases htop
  | some w =>
    rw [run_top_of_some htop'] at htop
    cases htop
    cases hset
    rfl

/-- **Rearranging values leaves the printed text.** Where a bracket, the text of a value, a copy for a
variable, the spread of an array, taking off the last element of a collection, or a sum with a
collection succeeds, the stack is printed as it was before. -/
theorem render_of_regroups [Allocator] (call : Block → Eval Unit) {token : String} {i : Instruction}
    (htoken : Instruction.ofToken? token = some i) (h : i.Regroups m.stack)
    (hrun : EStateM.run (dispatch call token) m = .ok () m') :
    m'.stack.render = m.stack.render := by
  rw [dispatch_of_some call htoken] at hrun
  obtain ⟨stack, vars, marks, input, depth⟩ := m
  cases h with
  | openArray =>
    cases hrun
    rfl
  | closeArray => exact render_of_run_closeArray hrun
  | toText => exact render_of_run_toText hrun
  | store name => exact congrArg Stack.render (stack_of_run_store hrun)
  | spread s items =>
    have hact : UnaryOperator.bitNot.act (.array items) = (Except.ok items).map .push := rfl
    exact render_of_run_applyUnary (m := ⟨s, vars, marks, input, depth⟩) hact
      (fun vs hvs => by cases hvs; simp) hrun
  | detach s hv =>
    exact render_of_run_applyUnary (m := ⟨s, vars, marks, input, depth⟩) rfl
      (fun vs hvs => UnaryOperator.renderAll_stepUp hv hvs) hrun
  | join s hyx => exact render_of_run_sum (m := ⟨s, vars, marks, input, depth⟩) hyx hrun

/-- A bracket that was opened above the top, where an empty array is pushed; and a character in front
of a text, which are one text then. -/
theorem render_of_regroups_text :
    (Instruction.ofToken? "]" = some (.apply .closeArray) ∧
      (Instruction.apply .closeArray).Regroups ⟨#[.integer 7, .text "é"], 3⟩ ∧
      EStateM.run (dispatch (call 0) "]")
          ⟨⟨#[.integer 7, .text "é"], 3⟩, .initial, [5], .empty, 0⟩ =
        .ok () ⟨⟨#[.integer 7, .text "é", .array []], 3⟩, .initial, [], .empty, 0⟩ ∧
      Stack.render ⟨#[.integer 7, .text "é", .array []], 3⟩ =
        Stack.render ⟨#[.integer 7, .text "é"], 3⟩) ∧
    (Instruction.ofToken? "+" = some (.apply (.binary .add)) ∧
      (Instruction.apply (.binary .add)).Regroups ⟨#[.integer 7, .character 'é', .text "a"], 3⟩ ∧
      EStateM.run (dispatch (call 0) "+")
          ⟨⟨#[.integer 7, .character 'é', .text "a"], 3⟩, .initial, [], .empty, 0⟩ =
        .ok () ⟨⟨#[.integer 7, .text "éa"], 3⟩, .initial, [], .empty, 0⟩ ∧
      Stack.render ⟨#[.integer 7, .text "éa"], 3⟩ =
        Stack.render ⟨#[.integer 7, .character 'é', .text "a"], 3⟩) := by
  have hclose : Instruction.ofToken? "]" = some (.apply .closeArray) :=
    Instruction.ofToken?_eq_apply_iff.mpr rfl
  have hplus : Instruction.ofToken? "+" = some (.apply (.binary .add)) :=
    Instruction.ofToken?_eq_apply_iff.mpr rfl
  have hgroups : (Instruction.apply .closeArray).Regroups ⟨#[.integer 7, .text "é"], 3⟩ :=
    .closeArray _
  have hjoins : (Instruction.apply (.binary .add)).Regroups
      ⟨#[.integer 7, .character 'é', .text "a"], 3⟩ :=
    .join ⟨#[.integer 7], 3⟩ (y := .character 'é') (x := .text "a") (.inr rfl)
  have hcollected : EStateM.run (dispatch (call 0) "]")
      ⟨⟨#[.integer 7, .text "é"], 3⟩, .initial, [5], .empty, 0⟩ =
      .ok () ⟨⟨#[.integer 7, .text "é", .array []], 3⟩, .initial, [], .empty, 0⟩ := by cbv
  have hjoined : EStateM.run (dispatch (call 0) "+")
      ⟨⟨#[.integer 7, .character 'é', .text "a"], 3⟩, .initial, [], .empty, 0⟩ =
      .ok () ⟨⟨#[.integer 7, .text "éa"], 3⟩, .initial, [], .empty, 0⟩ := by cbv
  exact ⟨⟨hclose, hgroups, hcollected, render_of_regroups (call 0) hclose hgroups hcollected⟩,
    hplus, hjoins, hjoined, render_of_regroups (call 0) hplus hjoins hjoined⟩

end Eval

end StackLang
