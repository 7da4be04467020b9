import Mathlib
import StackLang.Proofs.Coupling.Run

/-!
# Limits matter only where they are met

A run that ends otherwise than by meeting a limit ends in the same way under wider limits
(`Eval.run_withCapacity`). The two runs are coupled step by step: the second machine is the first
one with more room, and what the first one does at a limit is excused.
-/

namespace StackLang

/-- Room was missing: on the stack, or for a block inside blocks. -/
def Fault.isOverflow : Fault → Bool
  | .stackOverflow _ => true
  | _ => false

/-! ## 1. The same machine with another capacity -/

/-- The same values on a stack of another capacity. -/
def Stack.withCapacity (s : Stack) (capacity : Nat) : Stack :=
  { s with capacity }

/-- The same machine with another capacity of its stack. -/
def Machine.withCapacity (m : Machine) (capacity : Nat) : Machine :=
  { m with stack := m.stack.withCapacity capacity }

section

variable {s t : Stack} {v : Value} {capacity : Nat}

@[simp] theorem Stack.size_withCapacity (s : Stack) (capacity : Nat) :
    (s.withCapacity capacity).size = s.size := rfl

@[simp] theorem Stack.toList_withCapacity (s : Stack) (capacity : Nat) :
    (s.withCapacity capacity).toList = s.toList := rfl

@[simp] theorem Stack.capacity_withCapacity (s : Stack) (capacity : Nat) :
    (s.withCapacity capacity).capacity = capacity := rfl

/-- What found room finds more room. -/
theorem Stack.push?_withCapacity (h : s.push? v = some t) (hcapacity : s.capacity ≤ capacity) :
    (s.withCapacity capacity).push? v = some (t.withCapacity capacity) := by
  obtain ⟨hroom, hvalues, _⟩ := push?_eq_some_iff.mp h
  rw [push?_eq_some_iff, size_withCapacity, capacity_withCapacity, toList_withCapacity,
    toList_withCapacity]
  exact ⟨Nat.lt_of_lt_of_le hroom hcapacity, hvalues, rfl⟩

theorem Stack.pop?_withCapacity (h : s.pop? = some (v, t)) :
    (s.withCapacity capacity).pop? = some (v, t.withCapacity capacity) := by
  rw [pop?_eq_some_iff, toList_withCapacity, toList_withCapacity]
  exact ⟨(pop?_eq_some_iff.mp h).1, rfl⟩

end

/-! ## 2. The coupling -/

/-- Every machine belongs to the same machine with a capacity that is no less; overflows of the
first are excused. -/
def Coupling.wider (capacity : Nat) : Coupling where
  related m n := n = m.withCapacity capacity ∧ m.stack.capacity ≤ capacity
  excused fault := fault.isOverflow = true
  offset := 0
  block _ := True
  name _ := True

namespace Coupling

/-- Of the elementary steps only pushing looks at the capacity, and only to fail. -/
theorem wider_steps (capacity : Nat) : (wider capacity).Steps where
  push {m n v s} hmn _ hp := by
    obtain ⟨rfl, hcapacity⟩ := hmn
    have hkept : s.capacity = m.stack.capacity := (Stack.push?_eq_some_iff.mp hp).2.2
    exact ⟨s.withCapacity capacity, Stack.push?_withCapacity hp hcapacity, rfl,
      hkept ▸ hcapacity⟩
  full _ _ := .inl rfl
  pop {m n v s} hmn hp := by
    obtain ⟨rfl, hcapacity⟩ := hmn
    have hkept : s.capacity = m.stack.capacity := (Stack.pop?_eq_some_iff.mp hp).2
    exact ⟨v.allBlocks_true, s.withCapacity capacity, Stack.pop?_withCapacity hp, rfl,
      hkept ▸ hcapacity⟩
  empty {m n} hmn hempty := by
    obtain ⟨rfl, _⟩ := hmn
    exact .inr hempty
  size {m n} hmn := by
    obtain ⟨rfl, _⟩ := hmn
    exact m.stack.size_withCapacity capacity
  above {m n height} hmn _ := by
    obtain ⟨rfl, hcapacity⟩ := hmn
    exact ⟨fun v _ => v.allBlocks_true, rfl, rfl, hcapacity⟩
  opened {m n} hmn := by
    obtain ⟨rfl, hcapacity⟩ := hmn
    exact ⟨rfl, hcapacity⟩
  get {m n name} hmn _ := by
    obtain ⟨rfl, _⟩ := hmn
    exact ⟨rfl, fun v _ => v.allBlocks_true⟩
  set {m n name v} hmn _ _ := by
    obtain ⟨rfl, hcapacity⟩ := hmn
    exact ⟨rfl, hcapacity⟩
  input {m n} hmn := by
    obtain ⟨rfl, _⟩ := hmn
    rfl
  rest {m n} hmn := by
    obtain ⟨rfl, hcapacity⟩ := hmn
    exact ⟨rfl, hcapacity⟩

theorem wider_closes {capacity : Nat} {m n : Machine} (hmn : (wider capacity).related m n) :
    (wider capacity).Closes m n := by
  obtain ⟨rfl, hcapacity⟩ := hmn
  exact ⟨rfl, rfl, hcapacity⟩

/-- The count of blocks is looked at only to refuse a block. -/
theorem wider_runners [Allocator] {limit limit' : Nat} (capacity : Nat) (hlimit : limit ≤ limit') :
    (wider capacity).Runners (Runner.standard limit) (Runner.standard limit') where
  each hcall ht _ _ hmn :=
    (wider_steps capacity).dispatch hcall ht hmn fun _ => wider_closes hmn.related
  allow {m n} hmn hlt := by
    obtain ⟨rfl, _⟩ := hmn
    exact Nat.lt_of_lt_of_le hlt hlimit
  refuse _ _ := .inl rfl
  enter {m n} hmn _ _ := by
    obtain ⟨rfl, hcapacity⟩ := hmn
    exact ⟨rfl, hcapacity⟩
  leave {m n} hmn := by
    obtain ⟨rfl, hcapacity⟩ := hmn
    exact ⟨rfl, hcapacity⟩
  program _ := allowsProgram_of_forall (fun _ => trivial) (fun _ _ => trivial) _

end Coupling

/-! ## 3. Runs under wider limits -/

namespace Eval

/-- **Limits matter only where they are met**: a run that succeeds, or fails otherwise than for want
of room, does the same with more room on the stack and for blocks inside blocks. Stack, variables,
open brackets and unread input are the same at its end. -/
theorem run_withCapacity [Allocator] {limit limit' capacity : Nat} (source : String) {m : Machine}
    (hlimit : limit ≤ limit') (hcapacity : m.stack.capacity ≤ capacity) :
    (∀ m', EStateM.run (run limit source) m = .ok () m' →
      EStateM.run (run limit' source) (m.withCapacity capacity) =
        .ok () (m'.withCapacity capacity)) ∧
    (∀ fault m', fault.isOverflow = false → EStateM.run (run limit source) m = .error fault m' →
      EStateM.run (run limit' source) (m.withCapacity capacity) =
        .error fault (m'.withCapacity capacity)) := by
  have hsource : (Coupling.wider capacity).AllowsProgram source :=
    Coupling.allowsProgram_of_forall (fun _ => trivial) (fun _ _ => trivial) source
  have hend := (Coupling.wider_runners capacity hlimit).run hsource m (m.withCapacity capacity)
    ⟨⟨rfl, hcapacity⟩, rfl, rfl⟩
  change Coupling.Ends _ _ _ _ (EStateM.run (run limit source) m)
    (EStateM.run (run limit' source) (m.withCapacity capacity)) at hend
  constructor
  · intro m' hrun
    rw [hrun] at hend
    generalize EStateM.run (run limit' source) (m.withCapacity capacity) = o at hend ⊢
    cases hend with
    | ok _ hmn => rw [hmn.related.1]
  · intro fault m' hfault hrun
    rw [hrun] at hend
    generalize EStateM.run (run limit' source) (m.withCapacity capacity) = o at hend ⊢
    cases hend with
    | error hmn => rw [hmn.related.1]
    | excused h =>
      rw [show fault.isOverflow = true from h] at hfault
      cases hfault

/-- A block that just fits and a block that finds nothing to add, with more room of both kinds. -/
theorem run_withCapacity_block :
    (EStateM.run (run 1 "{1 2} ~") (.start 2 .empty) =
        .ok () ⟨⟨#[.integer 1, .integer 2], 2⟩, .initial, [], .empty, 0⟩ ∧
      EStateM.run (run 7 "{1 2} ~") ((Machine.start 2 .empty).withCapacity 9) =
        .ok () ⟨⟨#[.integer 1, .integer 2], 9⟩, .initial, [], .empty, 0⟩) ∧
    (EStateM.run (run 1 "{+} ~") (.start 2 .empty) =
        .error .stackUnderflow ⟨⟨#[], 2⟩, .initial, [], .empty, 0⟩ ∧
      EStateM.run (run 7 "{+} ~") ((Machine.start 2 .empty).withCapacity 9) =
        .error .stackUnderflow ⟨⟨#[], 9⟩, .initial, [], .empty, 0⟩) := by
  have hok : EStateM.run (run 1 "{1 2} ~") (.start 2 .empty) =
      .ok () ⟨⟨#[.integer 1, .integer 2], 2⟩, .initial, [], .empty, 0⟩ := by cbv
  have herror : EStateM.run (run 1 "{+} ~") (.start 2 .empty) =
      .error .stackUnderflow ⟨⟨#[], 2⟩, .initial, [], .empty, 0⟩ := by cbv
  refine ⟨⟨hok, ?_⟩, herror, ?_⟩
  · exact (run_withCapacity "{1 2} ~" (by decide) (by decide)).1 _ hok
  · exact (run_withCapacity "{+} ~" (by decide) (by decide)).2 _ _ rfl herror

end Eval

end StackLang
