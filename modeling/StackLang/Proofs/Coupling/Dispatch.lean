import StackLang.Proofs.Coupling.Steps

/-!
# From elementary steps to tokens

What is known of the elementary steps (`Coupling.Steps`) carries over to everything that is put
together from them: collecting what a block leaves, maps and folds, the actions of operators,
instructions, tokens (`Steps.dispatch`). The blocks that are run on the way are the other
assumption (`Coupling.Calls`), so nothing here depends on how blocks are nested.

The closing bracket is kept apart (`Coupling.Closes`): some laws hold of runs only in which no
bracket closes without having been opened.
-/

namespace StackLang

namespace Coupling

open Eval

/-! ## 1. What is assumed of programs -/

/-- An instruction names and writes only what is known. -/
def AllowsInstruction (C : Coupling) : Instruction → Prop
  | .apply _ => True
  | .store name => C.name name
  | .load name => C.name name
  | .push v => v.AllBlocks C.block

/-- The instruction of a token is allowed, if it has one. -/
def AllowsToken (C : Coupling) (token : String) : Prop :=
  ∀ i, Instruction.ofToken? token = some i → C.AllowsInstruction i

/-- All tokens of a program are allowed, if it can be divided into tokens. -/
def AllowsProgram (C : Coupling) (source : String) : Prop :=
  ∀ tokens, Token.ofSource source = .ok tokens → ∀ t ∈ tokens, C.AllowsToken t

variable {C : Coupling} {d e : Nat} {call call' : Block → Eval Unit}

namespace Steps

/-! ## 2. Collections and blocks -/

theorem pushAll (hs : C.Steps) {vs : List Value} (hvs : ∀ v ∈ vs, v.AllBlocks C.block) :
    C.Alike d e (Eval.pushAll vs) (Eval.pushAll vs) :=
  coupled_forM fun v hv => hs.alike_push (hvs v hv)

/-- What a block leaves is the same on both sides, although the heights differ. -/
theorem collect (hs : C.Steps) (hcall : C.Calls d e call call') {b : Block} {v : Value}
    (hb : C.block b) (hv : v.AllBlocks C.block) :
    C.Coupled d e C.SameValues (Eval.collect call b v) (Eval.collect call' b v) := by
  refine hs.coupled_size.bind fun before before' hbefore => ?_
  refine (hs.alike_push hv).bind_eq fun _ => ?_
  refine (hcall b hb).bind_eq fun _ => ?_
  refine hs.coupled_size.bind fun after after' hafter => ?_
  rw [hbefore.min hafter]
  exact hs.coupled_takeAbove (min before after)

theorem collectAll (hs : C.Steps) (hcall : C.Calls d e call call') {b : Block} (hb : C.block b)
    {vs : List Value} (hvs : ∀ v ∈ vs, v.AllBlocks C.block) :
    C.Coupled d e C.SameValues (Eval.collectAll call b vs) (Eval.collectAll call' b vs) := by
  induction vs with
  | nil =>
    rw [collectAll_nil, collectAll_nil]
    exact coupled_pure ⟨rfl, nofun⟩
  | cons v vs ih =>
    rw [collectAll_cons, collectAll_cons]
    refine (hs.collect hcall hb (hvs v List.mem_cons_self)).bind fun first first' h => ?_
    obtain ⟨rfl, hfirst⟩ := h
    refine (ih fun w hw => hvs w (List.mem_cons_of_mem _ hw)).bind fun rest rest' h => ?_
    obtain ⟨rfl, hrest⟩ := h
    exact coupled_pure ⟨rfl, List.forall_mem_append.mpr ⟨hfirst, hrest⟩⟩

theorem mapArray (hs : C.Steps) (hcall : C.Calls d e call call') {b : Block} (hb : C.block b)
    {vs : List Value} (hvs : ∀ v ∈ vs, v.AllBlocks C.block) :
    C.Alike d e (Eval.mapArray call b vs) (Eval.mapArray call' b vs) := by
  refine (hs.collectAll hcall hb hvs).bind fun results results' h => ?_
  obtain ⟨rfl, hresults⟩ := h
  exact hs.alike_push (Value.allBlocks_array.mpr hresults)

theorem mapText (hs : C.Steps) (hcall : C.Calls d e call call') {b : Block} (hb : C.block b)
    (s : String) : C.Alike d e (Eval.mapText call b s) (Eval.mapText call' b s) := by
  have hchars : ∀ v ∈ s.toList.map Value.character, v.AllBlocks C.block := by
    intro v hv
    obtain ⟨c, _, rfl⟩ := List.mem_map.mp hv
    exact Value.allBlocks_character c
  rw [mapText_eq, mapText_eq]
  refine (hs.collectAll hcall hb hchars).bind fun results results' h => ?_
  obtain ⟨rfl, _⟩ := h
  exact hs.alike_push (Value.allBlocks_text _)

theorem combine (hs : C.Steps) (hcall : C.Calls d e call call') {b : Block} (hb : C.block b)
    {v : Value} (hv : v.AllBlocks C.block) :
    C.Alike d e (Eval.combine call b v) (Eval.combine call' b v) :=
  (hs.alike_push hv).bind_eq fun _ => hcall b hb

theorem fold (hs : C.Steps) (hcall : C.Calls d e call call') {b : Block} (hb : C.block b)
    {vs : List Value} (hvs : ∀ v ∈ vs, v.AllBlocks C.block) :
    C.Alike d e (Eval.fold call b vs) (Eval.fold call' b vs) := by
  cases vs with
  | nil => exact coupled_throw _
  | cons v vs =>
    rw [fold_cons, fold_cons]
    refine (hs.alike_push (hvs v List.mem_cons_self)).bind_eq fun _ => ?_
    exact coupled_forM fun w hw => hs.combine hcall hb (hvs w (List.mem_cons_of_mem _ hw))

/-! ## 3. Actions and operators -/

theorem perform (hs : C.Steps) (hcall : C.Calls d e call call') {action : Action}
    (ha : action.AllBlocks C.block) :
    C.Alike d e (Eval.perform call action) (Eval.perform call' action) := by
  cases action with
  | push results => exact hs.pushAll ha
  | call b => exact hcall b ha
  | fold items b => exact hs.fold hcall ha.2 ha.1
  | mapArray items b => exact hs.mapArray hcall ha.2 ha.1
  | mapText s b => exact hs.mapText hcall ha s

theorem applyBinary [Allocator] (hs : C.Steps) (hcall : C.Calls d e call call')
    (op : BinaryOperator) :
    C.Alike d e (Eval.applyBinary call op) (Eval.applyBinary call' op) := by
  refine hs.coupled_pop.bind fun x x' h => ?_
  obtain ⟨rfl, hx⟩ := h
  refine hs.coupled_pop.bind fun y y' h => ?_
  obtain ⟨rfl, hy⟩ := h
  refine (coupled_ofExcept _).bind fun action action' h => ?_
  obtain ⟨rfl, hact⟩ := h
  exact hs.perform hcall (op.act_allBlocks hact hy hx)

theorem applyUnary (hs : C.Steps) (hcall : C.Calls d e call call') (op : UnaryOperator) :
    C.Alike d e (Eval.applyUnary call op) (Eval.applyUnary call' op) := by
  refine hs.coupled_pop.bind fun x x' h => ?_
  obtain ⟨rfl, hx⟩ := h
  refine (coupled_ofExcept _).bind fun action action' h => ?_
  obtain ⟨rfl, hact⟩ := h
  exact hs.perform hcall (op.act_allBlocks hact hx)

theorem readLine (hs : C.Steps) : C.Alike d e Eval.readLine Eval.readLine := by
  refine hs.alike_nextLine.bind_eq fun line => ?_
  cases line with
  | some line => exact hs.alike_push (Value.allBlocks_text line)
  | none => exact coupled_pure rfl

theorem closeArray (hs : C.Steps) {m n : Machine} (hmn : C.At d e m n)
    (hclose : C.Closes m n) :
    C.Ends d e (· = ·) (EStateM.run Eval.closeArray m) (EStateM.run Eval.closeArray n) := by
  refine (hclose.run_closeMark hmn).bind fun mark mark' hmark => ?_
  refine hs.coupled_size.bind fun top top' htop => ?_
  rw [hmark.min htop]
  refine (hs.coupled_takeAbove (min mark top)).bind fun items items' h => ?_
  obtain ⟨rfl, hitems⟩ := h
  exact hs.alike_push (Value.allBlocks_array.mpr hitems)

/-! ## 4. Instructions and tokens -/

theorem store (hs : C.Steps) {name : Char} (hname : C.name name) :
    C.Alike d e (Eval.store name) (Eval.store name) := by
  refine hs.coupled_top.bind fun v v' h => ?_
  obtain ⟨rfl, hv⟩ := h
  exact hs.alike_setVariable hname hv

theorem load (hs : C.Steps) {name : Char} (hname : C.name name) :
    C.Alike d e (Eval.load name) (Eval.load name) := by
  refine (hs.coupled_getVariable hname).bind fun value value' h => ?_
  obtain ⟨rfl, hvalue⟩ := h
  cases value with
  | some v => exact hs.alike_push (hvalue v rfl)
  | none => exact coupled_throw _

section

variable [Allocator] {m n : Machine}

theorem apply (hs : C.Steps) (hcall : C.Calls d e call call') {op : Operator} (hmn : C.At d e m n)
    (hclose : op = .closeArray → C.Closes m n) :
    C.Ends d e (· = ·) (EStateM.run (Eval.apply call op) m)
      (EStateM.run (Eval.apply call' op) n) := by
  cases op with
  | binary op => exact hs.applyBinary hcall op m n hmn
  | unary op => exact hs.applyUnary hcall op m n hmn
  | readLine => exact hs.readLine m n hmn
  | openArray => exact hs.alike_openArray m n hmn
  | closeArray => exact hs.closeArray hmn (hclose rfl)

theorem step (hs : C.Steps) (hcall : C.Calls d e call call') {i : Instruction}
    (hi : C.AllowsInstruction i) (hmn : C.At d e m n)
    (hclose : i = .apply .closeArray → C.Closes m n) :
    C.Ends d e (· = ·) (EStateM.run (Eval.step call i) m) (EStateM.run (Eval.step call' i) n) := by
  cases i with
  | apply op => exact hs.apply hcall hmn fun hop => hclose (hop ▸ rfl)
  | store name => exact hs.store hi m n hmn
  | load name => exact hs.load hi m n hmn
  | push v => exact hs.alike_push hi m n hmn

/-- **A token does the same on both machines**, if the blocks that it may run do. -/
theorem dispatch (hs : C.Steps) (hcall : C.Calls d e call call') {token : String}
    (ht : C.AllowsToken token) (hmn : C.At d e m n)
    (hclose : token = "]" → C.Closes m n) :
    C.Ends d e (· = ·) (EStateM.run (Eval.dispatch call token) m)
      (EStateM.run (Eval.dispatch call' token) n) := by
  unfold Eval.dispatch
  cases hi : Instruction.ofToken? token with
  | none => exact coupled_throw _ m n hmn
  | some i =>
    refine hs.step hcall (ht i hi) hmn fun hi' => hclose ?_
    subst hi'
    exact (Instruction.ofToken?_eq_apply_iff.mp hi).symm

end

end Steps

section

variable (hblock : ∀ b, C.block b) (hname : ∀ c : Char, c.isUpper → C.name c)
include hblock hname

/-- With every block known and every letter allowed, every token is allowed. -/
theorem allowsToken_of_forall (token : String) : C.AllowsToken token := by
  intro i hi
  cases i with
  | apply op => trivial
  | store name => exact hname name (Instruction.isUpper_of_store hi)
  | load name => exact hname name (Instruction.isUpper_of_load hi)
  | push v => exact Value.allBlocks_of_forall hblock v

/-- And so is every program. -/
theorem allowsProgram_of_forall (source : String) : C.AllowsProgram source :=
  fun _ _ token _ => allowsToken_of_forall hblock hname token

end

end Coupling

end StackLang
