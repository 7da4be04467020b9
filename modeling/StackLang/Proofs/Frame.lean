import Mathlib
import StackLang.Proofs.Avoidance

/-!
# What lies below is left alone

A run that closes only brackets that are open does the same on top of other values and behind other
open brackets, and leaves these as they are (`Eval.run_onto`). The sizes that brackets remember count
from the bottom, so they shift with the values below.

Only success carries over. A run that fails for want of values may find some below.
-/

namespace StackLang

/-! ## 1. The same machine on top of something -/

/-- The same values on top of others, with as much room above them. -/
def Stack.onto (s : Stack) (base : List Value) : Stack :=
  ⟨base.toArray ++ s.values, s.capacity + base.length⟩

/-- The same machine on top of other values and behind older open brackets. The marks of its own
brackets shift with the values. -/
def Machine.onto (m : Machine) (base : List Value) (old : List Nat) : Machine :=
  { m with
    stack := m.stack.onto base
    marks := m.marks.map (· + base.length) ++ old }

namespace Stack

variable {s t : Stack} {v : Value} {base : List Value}

@[simp] theorem toList_onto (s : Stack) (base : List Value) :
    (s.onto base).toList = base ++ s.toList := by
  simp [onto, toList]

@[simp] theorem capacity_onto (s : Stack) (base : List Value) :
    (s.onto base).capacity = s.capacity + base.length := rfl

@[simp] theorem size_onto (s : Stack) (base : List Value) :
    (s.onto base).size = s.size + base.length := by
  rw [← length_toList, toList_onto, List.length_append, length_toList, Nat.add_comm]

theorem push?_onto (h : s.push? v = some t) : (s.onto base).push? v = some (t.onto base) := by
  obtain ⟨hroom, hvalues, hcapacity⟩ := push?_eq_some_iff.mp h
  refine push?_eq_some_iff.mpr ⟨?_, ?_, ?_⟩
  · rw [size_onto, capacity_onto]
    exact Nat.add_lt_add_right hroom base.length
  · rw [toList_onto, toList_onto, hvalues, List.append_assoc]
  · rw [capacity_onto, capacity_onto, hcapacity]

theorem pop?_onto (h : s.pop? = some (v, t)) : (s.onto base).pop? = some (v, t.onto base) := by
  obtain ⟨hvalues, hcapacity⟩ := pop?_eq_some_iff.mp h
  refine pop?_eq_some_iff.mpr ⟨?_, ?_⟩
  · rw [toList_onto, toList_onto, hvalues, List.append_assoc]
  · rw [capacity_onto, capacity_onto, hcapacity]

/-- Cutting at a height cuts at the height that has shifted. -/
theorem above_onto (s : Stack) (base : List Value) (height : Nat) :
    (s.onto base).above (height + base.length) =
      ((s.above height).1, (s.above height).2.onto base) := by
  refine Prod.ext ?_ (ext_toList ?_ rfl)
  · rw [above_values, above_values, toList_onto, Nat.add_comm, List.drop_length_add_append]
  · rw [toList_above, toList_onto, toList_onto, toList_above, Nat.add_comm,
      List.take_length_add_append]

end Stack

/-! ## 2. The coupling -/

/-- Every machine belongs to the same machine on top of something; all faults of the first are
excused. -/
def Coupling.raised (base : List Value) (old : List Nat) : Coupling where
  related m n := n = m.onto base old
  excused _ := True
  offset := base.length
  block _ := True
  name _ := True

/-- A bracket is closed while none is open. -/
def Eval.closesUnopened (token : String) (m : Machine) : Bool :=
  token == "]" && m.marks.isEmpty

namespace Coupling

open Eval

variable {base : List Value} {old : List Nat}

theorem raised_steps (base : List Value) (old : List Nat) : (raised base old).Steps where
  push {m n v s} hmn _ hp := by
    subst hmn
    exact ⟨s.onto base, Stack.push?_onto hp, rfl⟩
  full _ _ := .inl trivial
  pop {m n v s} hmn hp := by
    subst hmn
    exact ⟨v.allBlocks_true, s.onto base, Stack.pop?_onto hp, rfl⟩
  empty _ _ := .inl trivial
  size {m n} hmn := by
    subst hmn
    exact m.stack.size_onto base
  above {m n height} hmn _ := by
    subst hmn
    have habove : (m.onto base old).stack.above (height + (raised base old).offset) =
        ((m.stack.above height).1, (m.stack.above height).2.onto base) :=
      m.stack.above_onto base height
    rw [habove]
    exact ⟨fun v _ => v.allBlocks_true, rfl, rfl⟩
  opened {m n} hmn := by
    subst hmn
    have hsize : (m.onto base old).stack.size = m.stack.size + base.length :=
      m.stack.size_onto base
    rw [hsize]
    rfl
  get {m n name} hmn _ := by
    subst hmn
    exact ⟨rfl, fun v _ => v.allBlocks_true⟩
  set {m n name v} hmn _ _ := by
    subst hmn
    rfl
  input {m n} hmn := by
    subst hmn
    rfl
  rest {m n} hmn := by
    subst hmn
    rfl

/-- A bracket that is open keeps its place among the shifted ones. -/
theorem raised_closes {m n : Machine} (hmn : (raised base old).related m n) (hopen : m.marks ≠ []) :
    (raised base old).Closes m n := by
  subst hmn
  obtain ⟨stack, vars, marks, input, depth⟩ := m
  cases marks with
  | nil => exact absurd rfl hopen
  | cons mark marks => exact ⟨rfl, rfl⟩

/-- The first runner stops where a bracket is closed that was not opened. -/
theorem raised_runners [Allocator] (limit : Nat) (base : List Value) (old : List Nat) :
    (raised base old).Runners
      ((Runner.standard limit).except closesUnopened (throw .stackUnderflow))
      (Runner.standard limit) where
  each {d e call call' token} hcall ht := by
    intro m n hmn
    cases hbad : closesUnopened token m with
    | true =>
      rw [Runner.each_except_of_bad hbad]
      exact .excused trivial
    | false =>
      rw [Runner.each_except_of_not_bad hbad]
      refine (raised_steps base old).dispatch hcall ht hmn fun hclose => ?_
      refine raised_closes hmn.related fun hempty => ?_
      rw [closesUnopened, hclose, hempty] at hbad
      cases hbad
  allow {m n} hmn hlt := by
    subst hmn
    exact hlt
  refuse _ _ := .inl trivial
  enter {m n} hmn _ _ := by
    subst hmn
    rfl
  leave {m n} hmn := by
    subst hmn
    rfl
  program _ := allowsProgram_of_forall (fun _ => trivial) (fun _ _ => trivial) _

end Coupling

/-! ## 3. Runs on top of something -/

namespace Eval

/-- **What lies below is left alone**: a run that succeeds and closes only brackets that are open
succeeds on top of any values and behind any older open brackets, leaves them as they are, and does
the same above them. -/
theorem run_onto [Allocator] {limit : Nat} {source : String} {m m' : Machine} (base : List Value)
    (old : List Nat) (havoids : Avoids limit closesUnopened source m)
    (hrun : EStateM.run (run limit source) m = .ok () m') :
    EStateM.run (run limit source) (m.onto base old) = .ok () (m'.onto base old) := by
  have hsource : (Coupling.raised base old).AllowsProgram source :=
    Coupling.allowsProgram_of_forall (fun _ => trivial) (fun _ _ => trivial) source
  have hend := (Coupling.raised_runners limit base old).run hsource m (m.onto base old)
    ⟨rfl, rfl, rfl⟩
  rw [havoids, hrun] at hend
  change Coupling.Ends _ _ _ _ _ (EStateM.run (run limit source) (m.onto base old)) at hend
  generalize EStateM.run (run limit source) (m.onto base old) = o at hend ⊢
  cases hend with
  | ok _ hmn => rw [hmn.related]

/-- Brackets and a map, with a text below and an older bracket open. -/
theorem run_onto_map :
    Avoids 1 closesUnopened "[ 7 8 ] {Y +} %" (.start 3 .empty) ∧
    EStateM.run (run 1 "[ 7 8 ] {Y +} %") (.start 3 .empty) =
      .ok () ⟨⟨#[.array [.integer 8, .integer 9]], 3⟩, .initial, [], .empty, 0⟩ ∧
    EStateM.run (run 1 "[ 7 8 ] {Y +} %") ((Machine.start 3 .empty).onto [.text "a"] [5]) =
      .ok () ⟨⟨#[.text "a", .array [.integer 8, .integer 9]], 4⟩, .initial, [5], .empty, 0⟩ := by
  have havoids : Avoids 1 closesUnopened "[ 7 8 ] {Y +} %" (.start 3 .empty) := by
    intro instead
    cbv
  have hrun : EStateM.run (run 1 "[ 7 8 ] {Y +} %") (.start 3 .empty) =
      .ok () ⟨⟨#[.array [.integer 8, .integer 9]], 3⟩, .initial, [], .empty, 0⟩ := by cbv
  exact ⟨havoids, hrun, run_onto [.text "a"] [5] havoids hrun⟩

end Eval

end StackLang
