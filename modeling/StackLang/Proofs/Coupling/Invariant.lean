import StackLang.Proofs.Coupling.Run

/-!
# Invariants of one run

The coupling of every machine with itself (`Coupling.self`). A condition on machines that the
elementary steps keep (`Invariant`) is kept by every evaluation, whether it ends with a result or
with a fault, and so is the number of blocks that are being run (`Coupling.machine_of_self`).

The same coupling tells when two evaluations cannot be told apart (`Coupling.run_eq_of_self`).
-/

namespace StackLang

/-- Every machine belongs to itself, as long as a condition holds. -/
def Coupling.self (K : Machine → Prop) (block : Block → Prop) (name : Char → Prop) : Coupling where
  related m n := m = n ∧ K m
  excused _ := False
  offset := 0
  block := block
  name := name

/-- A condition on machines that the elementary steps keep under a limit, where `block` is known of
all blocks and `name` of the variables that programs name. -/
structure Invariant (limit : Nat) (K : Machine → Prop) (block : Block → Prop)
    (name : Char → Prop) : Prop where
  push {m : Machine} {v : Value} {stack : Stack} : K m → v.AllBlocks block →
    m.stack.push? v = some stack → K { m with stack }
  pop {m : Machine} {v : Value} {stack : Stack} : K m → m.stack.pop? = some (v, stack) →
    K { m with stack } ∧ v.AllBlocks block
  above {m : Machine} {height : Nat} : K m → height ≤ m.stack.size →
    K { m with stack := (m.stack.above height).2 } ∧
      ∀ v ∈ (m.stack.above height).1, v.AllBlocks block
  marks {m : Machine} (marks : List Nat) : K m → K { m with marks }
  get {m : Machine} {c : Char} {v : Value} : K m → name c → m.vars.get? c = some v →
    v.AllBlocks block
  set {m : Machine} {c : Char} {v : Value} : K m → name c → v.AllBlocks block →
    K { m with vars := m.vars.set c v }
  input {m : Machine} : K m → K { m with input := m.input.rest }
  enter {m : Machine} : K m → m.depth < limit → K m.enter
  leave {m : Machine} : K m → K m.leave
  program {b : Block} : block b → (Coupling.self K block name).AllowsProgram b.body

namespace Invariant

open Eval

variable {limit : Nat} {K : Machine → Prop} {block : Block → Prop} {name : Char → Prop}

/-! ## 1. The elementary steps -/

theorem steps (h : Invariant limit K block name) : (Coupling.self K block name).Steps where
  push {m n v s} hmn hv hp := by
    obtain ⟨rfl, hK⟩ := hmn
    exact ⟨s, hp, rfl, h.push hK hv hp⟩
  full {m n v} hmn hp := by
    obtain ⟨rfl, _⟩ := hmn
    exact .inr ⟨hp, rfl⟩
  pop {m n v s} hmn hp := by
    obtain ⟨rfl, hK⟩ := hmn
    obtain ⟨hrest, hv⟩ := h.pop hK hp
    exact ⟨hv, s, hp, rfl, hrest⟩
  empty {m n} hmn hempty := by
    obtain ⟨rfl, _⟩ := hmn
    exact .inr hempty
  size {m n} hmn := by
    obtain ⟨rfl, _⟩ := hmn
    rfl
  above {m n height} hmn hle := by
    obtain ⟨rfl, hK⟩ := hmn
    obtain ⟨hrest, hblocks⟩ := h.above hK hle
    exact ⟨hblocks, rfl, rfl, hrest⟩
  opened {m n} hmn := by
    obtain ⟨rfl, hK⟩ := hmn
    exact ⟨rfl, h.marks _ hK⟩
  get {m n name} hmn hname := by
    obtain ⟨rfl, hK⟩ := hmn
    exact ⟨rfl, fun v hv => h.get hK hname hv⟩
  set {m n name v} hmn hname hv := by
    obtain ⟨rfl, hK⟩ := hmn
    exact ⟨rfl, h.set hK hname hv⟩
  input {m n} hmn := congrArg Machine.input hmn.1.symm
  rest {m n} hmn := by
    obtain ⟨rfl, hK⟩ := hmn
    exact ⟨rfl, h.input hK⟩

theorem closes (h : Invariant limit K block name) {m n : Machine}
    (hmn : (Coupling.self K block name).related m n) :
    (Coupling.self K block name).Closes m n := by
  obtain ⟨rfl, hK⟩ := hmn
  exact ⟨rfl, rfl, h.marks _ hK⟩

/-! ## 2. Runs -/

/-- Runners with the same limit that carry out tokens as they are read do the same, whatever they
would do beyond the last level. -/
theorem runners [Allocator] (h : Invariant limit K block name)
    (beyond beyond' : List String → Eval Unit) :
    (Coupling.self K block name).Runners ⟨limit, dispatch, beyond⟩ ⟨limit, dispatch, beyond'⟩ where
  each hcall ht _ _ hmn := h.steps.dispatch hcall ht hmn fun _ => h.closes hmn.related
  allow {m n} hmn hlt := by
    obtain ⟨rfl, _⟩ := hmn
    exact hlt
  refuse {m n} hmn hle := by
    obtain ⟨rfl, _⟩ := hmn
    exact .inr ⟨hle, rfl⟩
  enter hmn hlt _ := ⟨congrArg Machine.enter hmn.1, h.enter hmn.2 hlt⟩
  leave hmn := ⟨congrArg Machine.leave hmn.1, h.leave hmn.2⟩
  program hb := h.program hb

end Invariant

namespace Coupling

variable {K : Machine → Prop} {block : Block → Prop} {name : Char → Prop} {m : Machine}

/-- **An evaluation that is coupled with itself keeps the condition and the number of blocks that
are being run**, whether it ends with a result or with a fault. -/
theorem machine_of_self {α : Type} {Q : α → α → Prop} {x : Eval α}
    (h : (Coupling.self K block name).Coupled m.depth m.depth Q x x) (hm : K m) :
    K (Outcome.machine (EStateM.run x m)) ∧
      (Outcome.machine (EStateM.run x m)).depth = m.depth := by
  have hend := h m m ⟨⟨rfl, hm⟩, rfl, rfl⟩
  generalize EStateM.run x m = o at hend ⊢
  cases hend with
  | ok _ hmn => exact ⟨hmn.related.2, hmn.left⟩
  | error hmn => exact ⟨hmn.related.2, hmn.left⟩
  | excused h => exact h.elim

/-- Two evaluations that are alike on machines that belong to themselves are equal there. -/
theorem run_eq_of_self {x y : Eval Unit}
    (h : (Coupling.self K block name).Alike m.depth m.depth x y) (hm : K m) :
    EStateM.run x m = EStateM.run y m := by
  have hend := h m m ⟨⟨rfl, hm⟩, rfl, rfl⟩
  generalize EStateM.run x m = o at hend ⊢
  generalize EStateM.run y m = o' at hend ⊢
  cases hend with
  | ok _ hmn => rw [hmn.related.1]
  | error hmn => rw [hmn.related.1]
  | excused h => exact h.elim

end Coupling

end StackLang
