import StackLang.Proofs.Pushing
import StackLang.Proofs.Tokens.Kinds

/-!
# Carrying out a token

A token is carried out as what it means, and it means something in one way at most. So the four ways
can be tried in any order (`Eval.run_dispatchIn`).

A token that is no operator is carried out as a whole or not at all (`Eval.Atomic`): it pushes one
value or sets one variable, or it fails and changes nothing. Main statement:
`Eval.run_dispatch_kinds`.
-/

namespace StackLang

namespace Eval

variable {token : String} {m : Machine}

/-! ## 1. Kinds in any order -/

/-- Carries out a token as one of the first kind in a list that it can be taken as. -/
def dispatchIn [Allocator] (order : List TokenKind) (call : Block → Eval Unit) (token : String) :
    Eval Unit :=
  fun m =>
    match order.findSome? (·.instruction? m.vars token) with
    | some instruction => step call instruction m
    | none => .error (.unreadable token) m

theorem run_load_of_some {name : Char} {v : Value} (h : m.vars.get? name = some v) :
    EStateM.run (load name) m = EStateM.run (push v) m := by
  rw [load, EStateM.run_bind, run_getVariable, h]

theorem run_load_of_none {name : Char} (h : m.vars.get? name = none) :
    EStateM.run (load name) m = .error (.unreadable (String.singleton name)) m := by
  rw [load, EStateM.run_bind, run_getVariable, h]
  rfl

theorem run_pushLiteral_of_some {v : Value} (h : Value.ofLiteral? token = some v) :
    EStateM.run (pushLiteral token) m = EStateM.run (push v) m := by
  rw [pushLiteral, h]

theorem run_pushLiteral_of_none (h : Value.ofLiteral? token = none) :
    EStateM.run (pushLiteral token) m = .error (.unreadable token) m := by
  rw [pushLiteral, h]
  rfl

/-- **A token is carried out as what it means as one of its own kind.** The cases are those of the
definition; the question of whether a variable is set comes only when it is loaded. -/
theorem run_dispatch [Allocator] (call : Block → Eval Unit) (token : String) (m : Machine) :
    EStateM.run (dispatch call token) m =
      match (TokenKind.of token).instruction? m.vars token with
      | some instruction => EStateM.run (step call instruction) m
      | none => .error (.unreadable token) m := by
  cases hop : Operator.ofToken? token with
  | some op =>
    simp only [dispatch, Instruction.ofToken?, TokenKind.of_operator hop, TokenKind.instruction?,
      hop, Option.map_some]
  | none =>
    cases hstore : storeTarget? token with
    | some name =>
      simp only [dispatch, Instruction.ofToken?, TokenKind.of_store hstore,
        TokenKind.instruction?, hop, hstore, Option.map_some]
    | none =>
      cases hname : variableName? token with
      | some name =>
        have hlookup : m.vars.lookup token = m.vars.get? name := by
          rw [Variables.lookup, hname, Option.bind_some]
        simp only [dispatch, Instruction.ofToken?, TokenKind.of_load hname,
          TokenKind.instruction?, hop, hstore, hname, hlookup]
        cases hget : m.vars.get? name with
        | some v => exact run_load_of_some hget
        | none =>
          have htoken : String.singleton name = token := by
            rw [← String.toList_inj, String.toList_singleton,
              (variableName?_eq_some_iff.mp hname).2]
          rw [← htoken]
          exact run_load_of_none hget
      | none =>
        rw [dispatch_eq_pushLiteral call hop hstore hname]
        cases hvalue : Value.ofLiteral? token with
        | some v =>
          rw [run_pushLiteral_of_some hvalue]
          simp only [TokenKind.of_literal hvalue, TokenKind.instruction?, hvalue, Option.map_some]
          rfl
        | none =>
          have hlookup : m.vars.lookup token = none := by
            rw [Variables.lookup, hname, Option.bind_none]
          have hnothing : (TokenKind.of token).instruction? m.vars token = none := by
            cases TokenKind.of token <;>
              simp only [TokenKind.instruction?, hop, hstore, hlookup, hvalue, Option.map_none]
          rw [run_pushLiteral_of_none hvalue, hnothing]

/-- The kinds can be tried in any order. -/
theorem run_dispatchIn [Allocator] (call : Block → Eval Unit) {order : List TokenKind}
    (h : TokenKind.of token ∈ order) (m : Machine) :
    EStateM.run (dispatchIn order call token) m = EStateM.run (dispatch call token) m := by
  rw [run_dispatch, ← TokenKind.findSome?_instruction? h]
  rfl

/-! ## 2. Tokens that are no operators -/

/-- Where there is room, exactly the literals can be pushed as literals. -/
theorem exists_run_pushLiteral_iff (hroom : m.stack.size < m.stack.capacity) :
    (∃ m', EStateM.run (pushLiteral token) m = .ok () m') ↔
      (TokenKind.literal.instruction? m.vars token).isSome := by
  rw [TokenKind.instruction?, Option.isSome_map]
  cases h : Value.ofLiteral? token with
  | some v => simp [run_pushLiteral_of_some h, run_push_of_lt hroom]
  | none => simp [run_pushLiteral_of_none h]

/-- How a token ends that is no operator: it has one effect on one part of the machine, or none.

* `pushed`: the value that the variable has or the literal writes is on top, where there is room;
* `full`: there is none;
* `stored`: the variable has the top value, and all other variables are as before;
* `bare`: there is no top value;
* `unreadable`: the token means nothing. -/
inductive Atomic (token : String) (m : Machine) : Outcome Unit → Prop where
  | pushed {v : Value} (hvalue : m.vars.lookup token = some v ∨ Value.ofLiteral? token = some v)
      (hroom : m.stack.size < m.stack.capacity) : Atomic token m (.ok () (m.add [v]))
  | full {v : Value} (hvalue : m.vars.lookup token = some v ∨ Value.ofLiteral? token = some v)
      (hfull : m.stack.capacity ≤ m.stack.size) :
      Atomic token m (.error (.stackOverflow m.stack.capacity) m)
  | stored {name : Char} {v : Value} {vars : Variables} (hname : storeTarget? token = some name)
      (htop : m.stack.top? = some v)
      (hvars : ∀ other, vars.get? other = if other = name then some v else m.vars.get? other) :
      Atomic token m (.ok () { m with vars })
  | bare {name : Char} (hname : storeTarget? token = some name) (hempty : m.stack.toList = []) :
      Atomic token m (.error .stackUnderflow m)
  | unreadable (hnothing : ∀ kind : TokenKind, kind.instruction? m.vars token = none) :
      Atomic token m (.error (.unreadable token) m)

theorem Atomic.push {v : Value}
    (hvalue : m.vars.lookup token = some v ∨ Value.ofLiteral? token = some v) :
    Atomic token m (EStateM.run (push v) m) := by
  rcases Nat.lt_or_ge m.stack.size m.stack.capacity with hroom | hfull
  · rw [run_push_of_lt hroom]
    exact .pushed hvalue hroom
  · rw [run_push_of_le hfull]
    exact .full hvalue hfull

theorem Atomic.store {name : Char} (hname : storeTarget? token = some name) :
    Atomic token m (EStateM.run (store name) m) := by
  rw [Eval.store, EStateM.run_bind]
  cases htop : m.stack.top? with
  | some v =>
    rw [run_top_of_some htop]
    exact .stored hname htop fun other => m.vars.get?_set name other v
  | none =>
    rw [run_top_of_none htop]
    exact .bare hname (Stack.top?_eq_none_iff.mp htop)

theorem atomic_dispatch [Allocator] (call : Block → Eval Unit) (h : Operator.ofToken? token = none)
    (m : Machine) : Atomic token m (EStateM.run (dispatch call token) m) := by
  rw [run_dispatch]
  cases hi : (TokenKind.of token).instruction? m.vars token with
  | none =>
    refine .unreadable fun kind => ?_
    by_cases hkind : kind = TokenKind.of token
    · rw [hkind, hi]
    · exact TokenKind.instruction?_eq_none hkind
  | some i =>
    cases hkind : TokenKind.of token <;> rw [hkind] at hi
    case operator =>
      rw [TokenKind.instruction?, h] at hi
      cases hi
    case store =>
      obtain ⟨name, hname, rfl⟩ := Option.map_eq_some_iff.mp hi
      exact .store hname
    case load =>
      obtain ⟨v, hv, rfl⟩ := Option.map_eq_some_iff.mp hi
      exact .push (.inl hv)
    case literal =>
      obtain ⟨v, hv, rfl⟩ := Option.map_eq_some_iff.mp hi
      exact .push (.inr hv)

/-- **A token has at most one meaning, and is carried out as a whole if it is no operator.**

* Whatever the variables hold, a token is of one kind at most;
* it can be tried for the kinds in any order, with the same effect;
* it is of the last kind exactly if it can be pushed as a literal where there is room;
* if it is no operator, it pushes one value or sets one variable, or it fails and changes nothing. -/
theorem run_dispatch_kinds [Allocator] (call : Block → Eval Unit) (token : String) (m : Machine) :
    (∀ kind kind' : TokenKind, (kind.instruction? m.vars token).isSome →
      (kind'.instruction? m.vars token).isSome → kind = kind') ∧
    (∀ order : List TokenKind, (∀ kind, kind ∈ order) →
      EStateM.run (dispatchIn order call token) m = EStateM.run (dispatch call token) m) ∧
    (m.stack.size < m.stack.capacity →
      ((∃ m', EStateM.run (pushLiteral token) m = .ok () m') ↔
        (TokenKind.literal.instruction? m.vars token).isSome)) ∧
    (Operator.ofToken? token = none →
      Atomic token m (EStateM.run (dispatch call token) m)) := by
  refine ⟨fun kind kind' h h' => ?_, fun order h => ?_, exists_run_pushLiteral_iff, fun h => ?_⟩
  · rw [TokenKind.eq_of_isSome h, TokenKind.eq_of_isSome h']
  · exact run_dispatchIn call (h _) m
  · exact atomic_dispatch call h m

/-- A minus sign in front of a digit makes a literal of a symbol, and it fits on the empty stack; a
store token finds nothing there. -/
theorem run_dispatch_kinds_sign :
    ((TokenKind.literal.instruction? .initial "-7").isSome ∧
      TokenKind.load.instruction? .initial "-7" = none) ∧
    ((∀ kind, kind ∈ [TokenKind.literal, .load, .store, .operator]) ∧
      EStateM.run (dispatchIn [.literal, .load, .store, .operator] (call 0) "-7")
          (Machine.start 1 .empty) =
        EStateM.run (dispatch (call 0) "-7") (Machine.start 1 .empty)) ∧
    ((Machine.start 1 .empty).stack.size < (Machine.start 1 .empty).stack.capacity ∧
      ∃ m', EStateM.run (pushLiteral "-7") (Machine.start 1 .empty) = .ok () m') ∧
    (Operator.ofToken? ":A" = none ∧
      Atomic ":A" (Machine.start 1 .empty)
        (EStateM.run (dispatch (call 0) ":A") (Machine.start 1 .empty))) := by
  obtain ⟨honly, horder, hliteral, -⟩ :=
    run_dispatch_kinds (call 0) "-7" (Machine.start 1 .empty)
  have hseven : (TokenKind.literal.instruction? .initial "-7").isSome := by rfl
  have hall : ∀ kind, kind ∈ [TokenKind.literal, .load, .store, .operator] := by
    intro kind
    cases kind <;> decide
  have hcolon : Operator.ofToken? ":A" = none := by decide
  refine ⟨⟨hseven, ?_⟩, ⟨hall, horder _ hall⟩, ⟨by decide, ?_⟩, hcolon, ?_⟩
  · cases hload : TokenKind.load.instruction? .initial "-7" with
    | none => rfl
    | some i => cases honly .load .literal (Option.isSome_of_eq_some hload) hseven
  · exact (hliteral (by decide)).mpr hseven
  · exact (run_dispatch_kinds (call 0) ":A" (Machine.start 1 .empty)).2.2.2 hcolon

end Eval

end StackLang
