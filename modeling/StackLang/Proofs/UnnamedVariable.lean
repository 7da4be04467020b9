import StackLang.Proofs.Coupling.Run
import StackLang.Proofs.Provenance

/-!
# A variable that is not named does not matter

If a character stands neither in a program nor in any block that the machine holds outside the
variable of that name, no run of the program reads or writes this variable: two runs that differ
only in its value end in the same way, on machines that differ only in that value, and each of them
keeps its own (`Eval.run_unnamed`).

A block may be stored and run later, and it may be written by the program. So the condition on
blocks has to be kept by every step; what is written in a program without the character is without
it too (`Coupling.allowsProgram_of_omits`).
-/

namespace StackLang

/-! ## 1. Machines that differ in one variable -/

namespace Variables

/-- The same variables without one of them. -/
def without (vars : Variables) (x : Char) : Variables :=
  ⟨vars.bindings.filter fun binding => binding.1 ≠ x⟩

/-- All variables but one have the same values. -/
def SameBut (x : Char) (vars vars' : Variables) : Prop :=
  ∀ name, name ≠ x → vars'.get? name = vars.get? name

variable {vars vars' : Variables} {x name : Char} {v : Value}

theorem get?_without (vars : Variables) (x name : Char) :
    (vars.without x).get? name = if name = x then none else vars.get? name := by
  by_cases h : name = x
  · subst h
    rw [if_pos rfl, get?, without, List.lookup_eq_none_iff]
    intro binding hbinding
    have hne : binding.1 ≠ name := of_decide_eq_true (List.mem_filter.mp hbinding).2
    exact bne_iff_ne.mpr hne.symm
  · -- setting a variable removes it first
    have hset : (vars.set x (.integer 0)).get? name = (vars.without x).get? name := by
      show List.lookup name ((x, .integer 0) :: (vars.without x).bindings) = _
      rw [List.lookup_cons, beq_eq_false_iff_ne.mpr h]
      rfl
    rw [if_neg h, ← hset, get?_set_ne vars _ h]

theorem get?_without_of_ne (h : name ≠ x) : (vars.without x).get? name = vars.get? name := by
  rw [get?_without, if_neg h]

/-- To set another variable is the same before and after. -/
theorem without_set (h : name ≠ x) (v : Value) :
    (vars.set name v).without x = (vars.without x).set name v := by
  have hkept : ((name, v) :: (vars.bindings.filter fun binding => binding.1 ≠ name)).filter
      (fun binding => binding.1 ≠ x) =
      (name, v) :: (vars.bindings.filter fun binding => binding.1 ≠ name).filter
        (fun binding => binding.1 ≠ x) :=
    List.filter_cons_of_pos (decide_eq_true h)
  show Variables.mk _ = Variables.mk _
  rw [Variables.mk.injEq]
  exact hkept.trans (congrArg _ (List.filter_comm ..))

theorem SameBut.set (h : vars.SameBut x vars') (name : Char) (v : Value) :
    (vars.set name v).SameBut x (vars'.set name v) := by
  intro other hother
  rw [get?_set, get?_set, h other hother]

end Variables

/-- The same machine with a variable that is not set. -/
def Machine.forget (m : Machine) (x : Char) : Machine :=
  { m with vars := m.vars.without x }

/-- A character does not stand in a block. -/
def Block.Omits (x : Char) (b : Block) : Prop :=
  x ∉ b.body.toList

/-! ## 2. Programs without a character -/

/-- A block that is written without a character is stored without it. -/
theorem Block.omits_trim {x : Char} {b : Block} (h : x ∉ b.render.toList) : b.trim.Omits x := by
  intro hx
  rw [Block.toList_body_trim] at hx
  have hbody : x ∈ b.body.toList := (Text.trimChars_infix _).subset hx
  rw [Block.toList_render] at h
  exact h (List.mem_cons_of_mem _ (List.mem_append_left _ hbody))

/-- **A program without a character does not name the variable, and writes no block that does.** -/
theorem Coupling.allowsProgram_of_omits {C : Coupling} {x : Char} {source : String}
    (hblock : ∀ b : Block, b.Omits x → C.block b) (hname : ∀ c, c ≠ x → C.name c)
    (hsource : x ∉ source.toList) : C.AllowsProgram source := by
  intro tokens htokens t ht i hi
  have htoken : x ∉ t.toList := fun hx => hsource ((Token.of_mem_ofSource htokens ht).2.subset hx)
  cases i with
  | apply op => trivial
  | store name =>
    have hchars := (storeTarget?_eq_some_iff.mp (Instruction.storeTarget?_of_store hi)).2
    refine hname name fun heq => htoken ?_
    rw [hchars, heq]
    exact List.mem_cons_of_mem _ List.mem_cons_self
  | load name =>
    have hchars := (variableName?_eq_some_iff.mp (Instruction.variableName?_of_load hi)).2
    refine hname name fun heq => htoken ?_
    rw [hchars, heq]
    exact List.mem_cons_self
  | push v =>
    refine Value.allBlocks_ofLiteral? (Instruction.ofLiteral?_of_push hi) fun b hb => ?_
    exact hblock b.trim (Block.omits_trim (hb ▸ htoken))

/-! ## 3. Two runs that differ in one variable -/

/-- The variables differ from the machine's in the variable `x` at most, which has the values `v`
and `w`. No block names it but in its own value. -/
structure Machine.Apart (x : Char) (v w : Option Value) (m : Machine) (vars : Variables) :
    Prop where
  same : m.vars.SameBut x vars
  left : m.vars.get? x = v
  right : vars.get? x = w
  omits : (m.forget x).AllBlocks (Block.Omits x)

namespace Machine.Apart

variable {x : Char} {v w : Option Value} {m : Machine} {vars : Variables}

/-- What the other variables hold does not name it. -/
theorem get (h : m.Apart x v w vars) {name : Char} (hname : name ≠ x) {u : Value}
    (hu : m.vars.get? name = some u) : u.AllBlocks (Block.Omits x) := by
  refine h.omits.vars name u ?_
  show (m.vars.without x).get? name = some u
  rw [Variables.get?_without_of_ne hname]
  exact hu

/-- Another variable may be set on both sides. -/
theorem set (h : m.Apart x v w vars) {name : Char} (hname : name ≠ x) {u : Value}
    (hu : u.AllBlocks (Block.Omits x)) :
    Machine.Apart x v w { m with vars := m.vars.set name u } (vars.set name u) where
  same := h.same.set name u
  left := (Variables.get?_set_ne m.vars u hname.symm).trans h.left
  right := (Variables.get?_set_ne vars u hname.symm).trans h.right
  omits := by
    show Machine.AllBlocks (Block.Omits x) { m with vars := (m.vars.set name u).without x }
    rw [Variables.without_set hname]
    exact h.omits.set hu name

end Machine.Apart

/-- Every machine belongs to itself with other variables, if these differ in the variable `x` at
most. -/
def Coupling.apart (x : Char) (v w : Option Value) : Coupling where
  related m n := ∃ vars, n = { m with vars } ∧ m.Apart x v w vars
  excused _ := False
  offset := 0
  block := Block.Omits x
  name name := name ≠ x

namespace Coupling

variable {x : Char} {v w : Option Value}

/-- No elementary step looks at the variable that is not named. -/
theorem apart_steps (x : Char) (v w : Option Value) : (apart x v w).Steps where
  push {m n u s} hmn hu hp := by
    obtain ⟨vars, rfl, h⟩ := hmn
    exact ⟨s, hp, vars, rfl, { h with omits := h.omits.push hu hp }⟩
  full {m n u} hmn hp := by
    obtain ⟨vars, rfl, _⟩ := hmn
    exact .inr ⟨hp, rfl⟩
  pop {m n u s} hmn hp := by
    obtain ⟨vars, rfl, h⟩ := hmn
    obtain ⟨hrest, hu⟩ := h.omits.pop hp
    exact ⟨hu, s, hp, vars, rfl, { h with omits := hrest }⟩
  empty {m n} hmn hempty := by
    obtain ⟨vars, rfl, _⟩ := hmn
    exact .inr hempty
  size {m n} hmn := by
    obtain ⟨vars, rfl, _⟩ := hmn
    rfl
  above {m n height} hmn _ := by
    obtain ⟨vars, rfl, h⟩ := hmn
    obtain ⟨hrest, hvalues⟩ := h.omits.above height
    exact ⟨hvalues, rfl, vars, rfl, { h with omits := hrest }⟩
  opened {m n} hmn := by
    obtain ⟨vars, rfl, h⟩ := hmn
    exact ⟨vars, rfl, { h with omits := { h.omits with } }⟩
  get {m n name} hmn hname := by
    obtain ⟨vars, rfl, h⟩ := hmn
    exact ⟨h.same name hname, fun u hu => h.get hname hu⟩
  set {m n name u} hmn hname hu := by
    obtain ⟨vars, rfl, h⟩ := hmn
    exact ⟨vars.set name u, rfl, h.set hname hu⟩
  input {m n} hmn := by
    obtain ⟨vars, rfl, _⟩ := hmn
    rfl
  rest {m n} hmn := by
    obtain ⟨vars, rfl, h⟩ := hmn
    exact ⟨vars, rfl, { h with omits := { h.omits with } }⟩

theorem apart_closes {m n : Machine} (hmn : (apart x v w).related m n) :
    (apart x v w).Closes m n := by
  obtain ⟨vars, rfl, h⟩ := hmn
  exact ⟨rfl, vars, rfl, { h with omits := { h.omits with } }⟩

theorem apart_runners [Allocator] (limit : Nat) (x : Char) (v w : Option Value) :
    (apart x v w).Runners (Runner.standard limit) (Runner.standard limit) where
  each hcall ht _ _ hmn :=
    (apart_steps x v w).dispatch hcall ht hmn fun _ => apart_closes hmn.related
  allow {m n} hmn hlt := by
    obtain ⟨vars, rfl, _⟩ := hmn
    exact hlt
  refuse {m n} hmn hle := by
    obtain ⟨vars, rfl, _⟩ := hmn
    exact .inr ⟨hle, rfl⟩
  enter {m n} hmn _ _ := by
    obtain ⟨vars, rfl, h⟩ := hmn
    exact ⟨vars, rfl, { h with omits := { h.omits with } }⟩
  leave {m n} hmn := by
    obtain ⟨vars, rfl, h⟩ := hmn
    exact ⟨vars, rfl, { h with omits := { h.omits with } }⟩
  program hb := allowsProgram_of_omits (fun _ hb => hb) (fun _ hc => hc) hb

end Coupling

/-- The same end with other variables. -/
def Outcome.withVars {α : Type} (o : Outcome α) (vars : Variables) : Outcome α :=
  match o with
  | .ok a m => .ok a { m with vars }
  | .error fault m => .error fault { m with vars }

namespace Eval

/-- **A variable that is not named does not matter**: if its name stands neither in the program nor
in a block on the stack or in another variable, then from machines that differ at most in this
variable the program comes to the same result or fault, on machines that differ at most in this
variable again, and on each of them the variable is as it was. -/
theorem run_unnamed [Allocator] (limit : Nat) {source : String} {x : Char} {m : Machine}
    {vars : Variables} (hsource : x ∉ source.toList)
    (hblocks : (m.forget x).AllBlocks (Block.Omits x)) (hsame : m.vars.SameBut x vars) :
    ∃ vars', EStateM.run (run limit source) { m with vars } =
        Outcome.withVars (EStateM.run (run limit source) m) vars' ∧
      (Outcome.machine (EStateM.run (run limit source) m)).vars.SameBut x vars' ∧
      (Outcome.machine (EStateM.run (run limit source) m)).vars.get? x = m.vars.get? x ∧
      vars'.get? x = vars.get? x := by
  have hprogram : (Coupling.apart x (m.vars.get? x) (vars.get? x)).AllowsProgram source :=
    Coupling.allowsProgram_of_omits (fun _ hb => hb) (fun _ hc => hc) hsource
  have hend := (Coupling.apart_runners limit x (m.vars.get? x) (vars.get? x)).run hprogram m
    { m with vars } ⟨⟨vars, rfl, hsame, rfl, rfl, hblocks⟩, rfl, rfl⟩
  change Coupling.Ends _ _ _ _ (EStateM.run (run limit source) m)
    (EStateM.run (run limit source) { m with vars }) at hend
  generalize EStateM.run (run limit source) m = o at hend ⊢
  generalize EStateM.run (run limit source) { m with vars } = o' at hend ⊢
  cases hend with
  | ok _ hmn =>
    obtain ⟨vars', rfl, h⟩ := hmn.related
    exact ⟨vars', rfl, h.same, h.left, h.right⟩
  | error hmn =>
    obtain ⟨vars', rfl, h⟩ := hmn.related
    exact ⟨vars', rfl, h.same, h.left, h.right⟩
  | excused h => exact h.elim

/-- A block that stores into another variable is run while `X` holds zero, and while it holds a
block that would run itself. -/
theorem run_unnamed_block :
    'X' ∉ "~ G".toList ∧
    (Machine.forget ⟨⟨#[.block ⟨"Y :G"⟩], 3⟩, .initial, [], .empty, 0⟩ 'X').AllBlocks
      (Block.Omits 'X') ∧
    Variables.initial.SameBut 'X' (Variables.initial.set 'X' (.block ⟨"X ~"⟩)) ∧
    EStateM.run (run 1 "~ G") ⟨⟨#[.block ⟨"Y :G"⟩], 3⟩, .initial, [], .empty, 0⟩ =
      .ok () ⟨⟨#[.integer 1, .integer 1], 3⟩, Variables.initial.set 'G' (.integer 1), [], .empty,
        0⟩ ∧
    ∃ vars', EStateM.run (run 1 "~ G") ⟨⟨#[.block ⟨"Y :G"⟩], 3⟩,
        Variables.initial.set 'X' (.block ⟨"X ~"⟩), [], .empty, 0⟩ =
        .ok () ⟨⟨#[.integer 1, .integer 1], 3⟩, vars', [], .empty, 0⟩ ∧
      (Variables.initial.set 'G' (.integer 1)).SameBut 'X' vars' ∧
      vars'.get? 'X' = some (.block ⟨"X ~"⟩) := by
  have hsource : 'X' ∉ "~ G".toList := by decide
  have hblocks : (Machine.forget ⟨⟨#[.block ⟨"Y :G"⟩], 3⟩, .initial, [], .empty, 0⟩
      'X').AllBlocks (Block.Omits 'X') := by
    refine ⟨fun v hv => ?_, fun name v hv => ?_⟩
    · obtain rfl := List.mem_singleton.mp hv
      refine Value.allBlocks_block.mpr ?_
      show 'X' ∉ "Y :G".toList
      decide
    · -- the variables that are set from the beginning hold no block
      have hset : (if name = 'X' then none else Variables.initial.get? name) = some v :=
        (Variables.get?_without .initial 'X' name).symm.trans hv
      split at hset
      · cases hset
      · exact (Machine.AllBlocks.initial _ 0 [] .empty 0).vars name v hset
  have hsame : Variables.initial.SameBut 'X' (Variables.initial.set 'X' (.block ⟨"X ~"⟩)) :=
    fun name hname => Variables.get?_set_ne .initial _ hname
  have hrun : EStateM.run (run 1 "~ G") ⟨⟨#[.block ⟨"Y :G"⟩], 3⟩, .initial, [], .empty, 0⟩ =
      .ok () ⟨⟨#[.integer 1, .integer 1], 3⟩, Variables.initial.set 'G' (.integer 1), [], .empty,
        0⟩ := by cbv
  obtain ⟨vars', hother, hbut, -, hkept⟩ := run_unnamed 1 hsource hblocks hsame
  rw [hrun] at hother hbut
  rw [Variables.get?_set_self] at hkept
  exact ⟨hsource, hblocks, hsame, hrun, vars', hother, hbut, hkept⟩

end Eval

end StackLang
