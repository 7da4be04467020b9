import StackLang.Proofs.Coupling.Basic

/-!
# The elementary steps of two machines

What has to be known of related machines so that the elementary steps are coupled: what the first
machine can do the second one can do too, and they stay related (`Coupling.Steps`). Nothing here
speaks of evaluations any more, only of stacks, variables, brackets and input.
-/

namespace StackLang

namespace Coupling

open Eval

/-! ## 1. What is assumed -/

/-- What related machines have to share.

* `full`, `empty`: where the first machine fails, the second one does, unless that is excused;
* `size`, `above`: heights of the second stack count the values that lie lower. -/
structure Steps (C : Coupling) : Prop where
  push {m n : Machine} {v : Value} {s : Stack} : C.related m n → v.AllBlocks C.block →
    m.stack.push? v = some s →
    ∃ t, n.stack.push? v = some t ∧ C.related { m with stack := s } { n with stack := t }
  full {m n : Machine} {v : Value} : C.related m n → m.stack.push? v = none →
    C.excused (.stackOverflow m.stack.capacity) ∨
      n.stack.push? v = none ∧ n.stack.capacity = m.stack.capacity
  pop {m n : Machine} {v : Value} {s : Stack} : C.related m n → m.stack.pop? = some (v, s) →
    v.AllBlocks C.block ∧
      ∃ t, n.stack.pop? = some (v, t) ∧ C.related { m with stack := s } { n with stack := t }
  empty {m n : Machine} : C.related m n → m.stack.toList = [] →
    C.excused .stackUnderflow ∨ n.stack.toList = []
  size {m n : Machine} : C.related m n → n.stack.size = m.stack.size + C.offset
  above {m n : Machine} {height : Nat} : C.related m n → height ≤ m.stack.size →
    (∀ v ∈ (m.stack.above height).1, v.AllBlocks C.block) ∧
      (n.stack.above (height + C.offset)).1 = (m.stack.above height).1 ∧
      C.related { m with stack := (m.stack.above height).2 }
        { n with stack := (n.stack.above (height + C.offset)).2 }
  opened {m n : Machine} : C.related m n →
    C.related { m with marks := m.stack.size :: m.marks }
      { n with marks := n.stack.size :: n.marks }
  get {m n : Machine} {name : Char} : C.related m n → C.name name →
    n.vars.get? name = m.vars.get? name ∧ ∀ v ∈ m.vars.get? name, v.AllBlocks C.block
  set {m n : Machine} {name : Char} {v : Value} : C.related m n → C.name name →
    v.AllBlocks C.block →
    C.related { m with vars := m.vars.set name v } { n with vars := n.vars.set name v }
  input {m n : Machine} : C.related m n → n.input = m.input
  rest {m n : Machine} : C.related m n →
    C.related { m with input := m.input.rest } { n with input := n.input.rest }

/-- On two machines, the innermost bracket lies at heights that differ as the stacks do, and can be
forgotten. -/
structure Closes (C : Coupling) (m n : Machine) : Prop where
  mark : n.marks.headD 0 = m.marks.headD 0 + C.offset
  related : C.related { m with marks := m.marks.tail } { n with marks := n.marks.tail }

/-! ## 2. What the steps come to -/

/-- Equal values in which only known blocks stand. -/
def SameValue (C : Coupling) (v w : Value) : Prop :=
  v = w ∧ v.AllBlocks C.block

/-- Equal lists of such values. -/
def SameValues (C : Coupling) (vs ws : List Value) : Prop :=
  vs = ws ∧ ∀ v ∈ vs, v.AllBlocks C.block

/-- Equal values, or none on both sides. -/
def SameOptional (C : Coupling) (v w : Option Value) : Prop :=
  v = w ∧ ∀ u ∈ v, u.AllBlocks C.block

/-- Heights that differ as the stacks do. -/
def Shifted (C : Coupling) (height height' : Nat) : Prop :=
  height' = height + C.offset

variable {C : Coupling} {d e : Nat}

theorem Shifted.min {a b a' b' : Nat} (ha : C.Shifted a a') (hb : C.Shifted b b') :
    min a' b' = min a b + C.offset := by
  unfold Shifted at ha hb
  omega

namespace Steps

theorem alike_push (hs : C.Steps) {v : Value} (hv : v.AllBlocks C.block) :
    C.Alike d e (Eval.push v) (Eval.push v) := by
  intro m n hmn
  cases hp : m.stack.push? v with
  | some s =>
    obtain ⟨t, ht, hrelated⟩ := hs.push hmn.related hv hp
    rw [run_push_of_some hp, run_push_of_some ht]
    exact .ok rfl ⟨hrelated, hmn.left, hmn.right⟩
  | none =>
    rw [run_push_of_none hp]
    rcases hs.full hmn.related hp with hexcused | hfull
    · exact .excused hexcused
    · rw [run_push_of_none hfull.1, hfull.2]
      exact .error hmn

theorem coupled_pop (hs : C.Steps) : C.Coupled d e C.SameValue Eval.pop Eval.pop := by
  intro m n hmn
  cases hp : m.stack.pop? with
  | some top =>
    obtain ⟨v, s⟩ := top
    obtain ⟨hv, t, ht, hrelated⟩ := hs.pop hmn.related hp
    rw [run_pop_of_some hp, run_pop_of_some ht]
    exact .ok ⟨rfl, hv⟩ ⟨hrelated, hmn.left, hmn.right⟩
  | none =>
    rw [run_pop_of_none hp]
    rcases hs.empty hmn.related (Stack.pop?_eq_none_iff.mp hp) with hexcused | hempty
    · exact .excused hexcused
    · rw [run_pop_of_none (Stack.pop?_eq_none_iff.mpr hempty)]
      exact .error hmn

theorem coupled_top (hs : C.Steps) : C.Coupled d e C.SameValue Eval.top Eval.top := by
  intro m n hmn
  cases htop : m.stack.top? with
  | some v =>
    obtain ⟨s, hp⟩ := Stack.top?_eq_some_iff.mp htop
    obtain ⟨hv, t, ht, _⟩ := hs.pop hmn.related hp
    rw [run_top_of_some htop, run_top_of_some (Stack.top?_eq_some_iff.mpr ⟨t, ht⟩)]
    exact .ok ⟨rfl, hv⟩ hmn
  | none =>
    rw [run_top_of_none htop]
    rcases hs.empty hmn.related (Stack.top?_eq_none_iff.mp htop) with hexcused | hempty
    · exact .excused hexcused
    · rw [run_top_of_none (Stack.top?_eq_none_iff.mpr hempty)]
      exact .error hmn

theorem coupled_size (hs : C.Steps) : C.Coupled d e C.Shifted Eval.size Eval.size := by
  intro m n hmn
  rw [run_size, run_size]
  exact .ok (hs.size hmn.related) hmn

theorem coupled_takeAbove (hs : C.Steps) (height : Nat) :
    C.Coupled d e C.SameValues (takeAbove height) (takeAbove (height + C.offset)) := by
  intro m n hmn
  have hsize := hs.size hmn.related
  rcases Nat.lt_or_ge m.stack.size height with hlt | hle
  · have hlt' : n.stack.size < height + C.offset := by omega
    rw [run_takeAbove_of_lt hlt, run_takeAbove_of_lt hlt']
    exact .error hmn
  · have hle' : height + C.offset ≤ n.stack.size := by omega
    obtain ⟨hblocks, hvalues, hrelated⟩ := hs.above hmn.related hle
    rw [run_takeAbove_of_le hle, run_takeAbove_of_le hle']
    exact .ok ⟨hvalues.symm, hblocks⟩ ⟨hrelated, hmn.left, hmn.right⟩

theorem alike_openArray (hs : C.Steps) : C.Alike d e openArray openArray := by
  intro m n hmn
  rw [run_openArray, run_openArray]
  exact .ok rfl ⟨hs.opened hmn.related, hmn.left, hmn.right⟩

theorem coupled_getVariable (hs : C.Steps) {name : Char} (hname : C.name name) :
    C.Coupled d e C.SameOptional (getVariable name) (getVariable name) := by
  intro m n hmn
  obtain ⟨hsame, hblocks⟩ := hs.get hmn.related hname
  rw [run_getVariable, run_getVariable]
  exact .ok ⟨hsame.symm, hblocks⟩ hmn

theorem alike_setVariable (hs : C.Steps) {name : Char} {v : Value} (hname : C.name name)
    (hv : v.AllBlocks C.block) : C.Alike d e (setVariable name v) (setVariable name v) := by
  intro m n hmn
  rw [run_setVariable, run_setVariable]
  exact .ok rfl ⟨hs.set hmn.related hname hv, hmn.left, hmn.right⟩

theorem alike_nextLine (hs : C.Steps) : C.Alike d e nextLine nextLine := by
  intro m n hmn
  have heq : n.input = m.input := hs.input hmn.related
  have hread : C.At d e { m with input := m.input.rest } { n with input := n.input.rest } :=
    ⟨hs.rest hmn.related, hmn.left, hmn.right⟩
  by_cases hend : m.input.line = []
  · rw [run_nextLine_of_end hend, run_nextLine_of_end (heq ▸ hend)]
    exact .ok rfl hmn
  · have hend' : n.input.line ≠ [] := heq ▸ hend
    cases hline : Input.decode? m.input.line with
    | some line =>
      have hline' : Input.decode? n.input.line = some line := heq ▸ hline
      rw [run_nextLine_of_some hend hline, run_nextLine_of_some hend' hline']
      exact .ok rfl hread
    | none =>
      have hline' : Input.decode? n.input.line = none := heq ▸ hline
      rw [run_nextLine_of_none hend hline, run_nextLine_of_none hend' hline']
      exact .error hread

end Steps

theorem Closes.run_closeMark {m n : Machine} (h : C.Closes m n) (hmn : C.At d e m n) :
    C.Ends d e C.Shifted (EStateM.run closeMark m) (EStateM.run closeMark n) := by
  rw [Eval.run_closeMark, Eval.run_closeMark]
  exact .ok h.mark ⟨h.related, hmn.left, hmn.right⟩

end Coupling

end StackLang
