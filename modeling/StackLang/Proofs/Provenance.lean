import Mathlib
import StackLang.Proofs.Coupling.Invariant
import StackLang.Proofs.Tokens.BlockLiteral

/-!
# Where blocks come from

Programs can read lines, join texts and take arrays apart, but they cannot make a block of anything
they have read or calculated. Every block in a machine is a part of a program that has been run
(`Machine.Reached.block_written`), and it is shown as it could stand in a program.

A block is made where a token writes it (`Block.TokenOf`), and its body is a program that may write
blocks again. So a property of blocks that passes to what their bodies write is an invariant
(`invariant_allBlocks`), and here it is `Block.WrittenIn`: what is written in a program stays written
there while it is moved about, and what is written in its body is written in the program too.
-/

namespace StackLang

/-! ## 1. Blocks in a machine -/

/-- A block stands in a machine: in a value on the stack or of a variable. -/
inductive Block.Stored (b : Block) (m : Machine) : Prop
  | onStack {v : Value} : v ∈ m.stack.toList → b.Within v → Stored b m
  | inVariable {name : Char} {v : Value} : m.vars.get? name = some v → b.Within v → Stored b m

/-- All blocks in a machine have a property. -/
structure Machine.AllBlocks (P : Block → Prop) (m : Machine) : Prop where
  stack : ∀ v ∈ m.stack.toList, v.AllBlocks P
  vars : ∀ name v, m.vars.get? name = some v → v.AllBlocks P

namespace Machine.AllBlocks

variable {P : Block → Prop} {m : Machine} {stack : Stack} {v : Value}

theorem mono {Q : Block → Prop} (h : m.AllBlocks P) (hPQ : ∀ b, P b → Q b) : m.AllBlocks Q where
  stack v hv b hb := hPQ b (h.stack v hv b hb)
  vars name v hv b hb := hPQ b (h.vars name v hv b hb)

theorem of_stored (h : m.AllBlocks P) {b : Block} (hb : b.Stored m) : P b := by
  cases hb with
  | onStack hv hb => exact h.stack _ hv b hb
  | inVariable hv hb => exact h.vars _ _ hv b hb

theorem push (h : m.AllBlocks P) (hv : v.AllBlocks P) (hp : m.stack.push? v = some stack) :
    Machine.AllBlocks P { m with stack } where
  stack w hw := by
    rw [(Stack.push?_eq_some_iff.mp hp).2.1, List.mem_append, List.mem_singleton] at hw
    rcases hw with hw | rfl
    · exact h.stack w hw
    · exact hv
  vars := h.vars

theorem pop (h : m.AllBlocks P) (hp : m.stack.pop? = some (v, stack)) :
    Machine.AllBlocks P { m with stack } ∧ v.AllBlocks P := by
  have hvalues := (Stack.pop?_eq_some_iff.mp hp).1
  have hmem : ∀ w ∈ stack.toList ++ [v], w.AllBlocks P := fun w hw => h.stack w (hvalues ▸ hw)
  exact ⟨⟨fun w hw => hmem w (List.mem_append_left _ hw), h.vars⟩,
    hmem v (List.mem_append_right _ List.mem_cons_self)⟩

theorem above (h : m.AllBlocks P) (height : Nat) :
    Machine.AllBlocks P { m with stack := (m.stack.above height).2 } ∧
      ∀ w ∈ (m.stack.above height).1, w.AllBlocks P := by
  refine ⟨⟨fun w hw => h.stack w ?_, h.vars⟩, fun w hw => h.stack w ?_⟩
  · rw [Stack.toList_above] at hw
    exact List.mem_of_mem_take hw
  · rw [Stack.above_values] at hw
    exact List.mem_of_mem_drop hw

theorem set (h : m.AllBlocks P) (hv : v.AllBlocks P) (name : Char) :
    Machine.AllBlocks P { m with vars := m.vars.set name v } where
  stack := h.stack
  vars other w hw := by
    rw [Variables.get?_set] at hw
    split at hw
    · cases hw
      exact hv
    · exact h.vars other w hw

/-- At the beginning there is no block. -/
theorem initial (P : Block → Prop) (capacity : Nat) (marks : List Nat) (input : Input)
    (depth : Nat) : Machine.AllBlocks P ⟨.empty capacity, .initial, marks, input, depth⟩ where
  stack := nofun
  vars name v hv := by
    have hbindings : ∀ binding ∈ Variables.initial.bindings, binding.2.AllBlocks P := by
      simp [Variables.initial]
    obtain ⟨before, after, heq, _⟩ := List.lookup_eq_some_iff.mp hv
    exact hbindings (name, v) (heq ▸ List.mem_append_right before List.mem_cons_self)

end Machine.AllBlocks

/-! ## 2. Blocks that are written in a program -/

/-- A block that is written in one of several programs.

* `part`: its body is a part of the program;
* `body`, `trimmed`: between braces the body is one token, and none of it is lost when the token is
  read. -/
structure Block.WrittenIn (sources : List String) (b : Block) : Prop where
  part : ∃ source ∈ sources, b.body.toList <:+: source.toList
  body : Token.Body b.body.toList
  trimmed : Text.Trimmed b.body.toList

namespace Block.WrittenIn

variable {sources : List String} {b : Block}

theorem cons (h : b.WrittenIn sources) (source : String) : b.WrittenIn (source :: sources) where
  part := by
    obtain ⟨written, hwritten, hpart⟩ := h.part
    exact ⟨written, List.mem_cons_of_mem source hwritten, hpart⟩
  body := h.body
  trimmed := h.trimmed

theorem trim_eq (h : b.WrittenIn sources) : b.trim = b := by
  rw [Block.trim, Text.trim, h.trimmed.trimChars_eq, String.ofList_toList]

/-- **It is shown as one token, which writes it again.** -/
theorem render (h : b.WrittenIn sources) :
    Token.ofSource b.render = .ok [b.render] ∧ Value.ofLiteral? b.render = some (.block b) := by
  refine ⟨Token.ofSource_render h.body, ?_⟩
  rw [Value.ofLiteral?_render, h.trim_eq]

/-- **A block's token writes it where the token stands.** -/
theorem of_token {source : String} {text : List Char} (hsource : source ∈ sources)
    (hpart : text <:+: source.toList) (hlexeme : Token.Lexeme b.render.toList)
    (htoken : b.render.toList <:+: text) : b.trim.WrittenIn sources where
  part := by
    refine ⟨source, hsource, ?_⟩
    have hbody : b.body.toList <:+: b.render.toList :=
      ⟨['\x7b'], ['\x7d'], by rw [Block.toList_render]; rfl⟩
    rw [Block.toList_body_trim]
    exact (Text.trimChars_infix _).trans (hbody.trans (htoken.trans hpart))
  body := by
    rw [Block.toList_render] at hlexeme
    rw [Block.toList_body_trim]
    exact hlexeme.body_of_braces.trimChars
  trimmed := by
    rw [Block.toList_body_trim]
    exact Text.trimmed_trimChars _

end Block.WrittenIn

/-- A token that pushes a value is a literal. -/
theorem Instruction.ofLiteral?_of_push {token : String} {v : Value}
    (h : ofToken? token = some (.push v)) : Value.ofLiteral? token = some v := by
  unfold ofToken? at h
  cases hop : Operator.ofToken? token <;> cases hstore : storeTarget? token <;>
    cases hload : variableName? token <;> simp_all

/-- A block that a token of a program writes. -/
def Block.TokenOf (b : Block) (source : String) : Prop :=
  ∃ tokens token, Token.ofSource source = .ok tokens ∧ token ∈ tokens ∧
    Value.ofLiteral? token = some (.block b)

/-- What a token of a part of a program writes is written in the program. -/
theorem Block.TokenOf.writtenIn {b : Block} {sources : List String} {source text : String}
    (h : b.TokenOf text) (hsource : source ∈ sources) (hpart : text.toList <:+: source.toList) :
    b.WrittenIn sources := by
  obtain ⟨tokens, token, htokens, ht, hliteral⟩ := h
  obtain ⟨hlexeme, htoken⟩ := Token.of_mem_ofSource htokens ht
  exact Value.allBlocks_block.mp <| Value.allBlocks_ofLiteral? hliteral fun outer houter =>
    .of_token hsource hpart (houter ▸ hlexeme) (houter ▸ htoken)

/-- What the body of a block writes is written where the block is. -/
theorem Block.WrittenIn.of_body {outer b : Block} {sources : List String}
    (h : outer.WrittenIn sources) (hb : b.TokenOf outer.body) : b.WrittenIn sources := by
  obtain ⟨source, hsource, hpart⟩ := h.part
  exact hb.writtenIn hsource hpart

/-- Of a program only the blocks matter that its tokens write. -/
theorem Coupling.allowsProgram_of_tokens {C : Coupling} {source : String}
    (hblock : ∀ b : Block, b.TokenOf source → C.block b) (hname : ∀ c, C.name c) :
    C.AllowsProgram source := by
  intro tokens htokens t ht i hi
  cases i with
  | apply op => trivial
  | store name => exact hname name
  | load name => exact hname name
  | push v =>
    refine Value.allBlocks_ofLiteral? (Instruction.ofLiteral?_of_push hi) fun b hb => hblock _ ?_
    exact ⟨tokens, t, htokens, ht, hb ▸ Value.ofLiteral?_render b⟩

/-! ## 3. Runs -/

/-- A property of blocks that passes to what their bodies write is kept by every step. -/
theorem invariant_allBlocks (limit : Nat) {P : Block → Prop}
    (hP : ∀ outer b : Block, P outer → b.TokenOf outer.body → P b) :
    Invariant limit (Machine.AllBlocks P) P (fun _ => True) where
  push h hv hp := h.push hv hp
  pop h hp := h.pop hp
  above h _ := h.above _
  marks _ h := { h with }
  get h _ hget := h.vars _ _ hget
  set h _ hv := h.set hv _
  input h := { h with }
  enter h _ := { h with }
  leave h := { h with }
  program {outer} h := Coupling.allowsProgram_of_tokens (hP outer · h) fun _ => trivial

/-- So a run keeps it, however it ends, if the blocks that its program writes have it. -/
theorem Machine.AllBlocks.run_of [Allocator] {P : Block → Prop} {m : Machine} {source : String}
    (h : m.AllBlocks P) (hP : ∀ outer b : Block, P outer → b.TokenOf outer.body → P b)
    (hsource : ∀ b : Block, b.TokenOf source → P b) (limit : Nat) :
    (Outcome.machine (EStateM.run (Eval.run limit source) m)).AllBlocks P := by
  have hr := (invariant_allBlocks limit hP).runners
    (Runner.standard limit).beyond (Runner.standard limit).beyond
  have hallows : (Coupling.self (Machine.AllBlocks P) P fun _ => True).AllowsProgram source :=
    Coupling.allowsProgram_of_tokens hsource fun _ => trivial
  exact (Coupling.machine_of_self (hr.run hallows) h).1

/-- A run, however it ends, adds blocks of its program only. -/
theorem Machine.AllBlocks.run [Allocator] {sources : List String} {m : Machine}
    (h : m.AllBlocks (Block.WrittenIn sources)) (limit : Nat) (source : String) :
    (Outcome.machine (EStateM.run (Eval.run limit source) m)).AllBlocks
      (Block.WrittenIn (source :: sources)) := by
  have hmore : m.AllBlocks (Block.WrittenIn (source :: sources)) := h.mono fun _ hb => hb.cons source
  exact hmore.run_of (fun _ _ => .of_body)
    (fun _ hb => hb.writtenIn List.mem_cons_self List.infix_rfl) limit

/-- The machines that runs of programs lead to, whatever they read and however they end, from an
empty stack and the variables of the beginning. The programs are listed last first.

The stack and the variables may be handed over between two runs (`handedOver`), to be used with
other marks, another input and another count of blocks. -/
inductive Machine.Reached [Allocator] : List String → Machine → Prop
  | start (capacity : Nat) (marks : List Nat) (input : Input) (depth : Nat) :
      Reached [] ⟨.empty capacity, .initial, marks, input, depth⟩
  | run {sources : List String} {m : Machine} (limit : Nat) (source : String) :
      Reached sources m →
        Reached (source :: sources) (Outcome.machine (EStateM.run (Eval.run limit source) m))
  | handedOver {sources : List String} {m : Machine} (marks : List Nat) (input : Input)
      (depth : Nat) : Reached sources m → Reached sources { m with marks, input, depth }

namespace Machine.Reached

section

variable [Allocator] {sources : List String} {m : Machine}

/-- The induction is over the runs. -/
theorem allBlocks (h : Reached sources m) : m.AllBlocks (Block.WrittenIn sources) := by
  induction h with
  | start capacity marks input depth => exact .initial _ capacity marks input depth
  | run limit source _ ih => exact ih.run limit source
  | handedOver marks input depth _ ih => exact { ih with }

/-- **Every block comes from a program**: after any runs, the body of every block on the stack, in
an array or in a variable is a part of a program that was run; and the block is shown as one token,
which writes the same block. -/
theorem block_written {b : Block} (h : Reached sources m) (hb : b.Stored m) :
    (∃ source ∈ sources, b.body.toList <:+: source.toList) ∧
      Token.ofSource b.render = .ok [b.render] ∧ Value.ofLiteral? b.render = some (.block b) := by
  have hwritten := h.allBlocks.of_stored hb
  exact ⟨hwritten.part, hwritten.render⟩

end

/-- A block with a quoted brace stands in an array, behind a line that was read, after a second run
that failed. -/
theorem block_written_array :
    ∃ m, Reached ["1 a", "l \x7b \"\x7d\" \x7d ]"] m ∧ (Block.mk "\"\x7d\"").Stored m ∧
      (∃ source ∈ ["1 a", "l \x7b \"\x7d\" \x7d ]"],
        (Block.mk "\"\x7d\"").body.toList <:+: source.toList) ∧
      Token.ofSource (Block.mk "\"\x7d\"").render = .ok [(Block.mk "\"\x7d\"").render] ∧
      Value.ofLiteral? (Block.mk "\"\x7d\"").render = some (.block ⟨"\"\x7d\""⟩) := by
  have hm : Reached ["1 a", "l \x7b \"\x7d\" \x7d ]"] _ :=
    .run 1 _ (.run 1 _ (.start 3 [] ⟨[123, 125, 10]⟩ 0))
  have hstack : (Outcome.machine (EStateM.run (Eval.run 1 "1 a")
      (Outcome.machine (EStateM.run (Eval.run 1 "l \x7b \"\x7d\" \x7d ]")
        (.start 3 ⟨[123, 125, 10]⟩))))).stack.toList =
      [.array [.text "\x7b\x7d\n", .block ⟨"\"\x7d\""⟩], .integer 1] := by cbv
  have hb : (Block.mk "\"\x7d\"").Within (.array [.text "\x7b\x7d\n", .block ⟨"\"\x7d\""⟩]) :=
    .item (List.mem_cons_of_mem _ List.mem_cons_self) .self
  have hstored := Block.Stored.onStack (hstack ▸ List.mem_cons_self) hb
  exact ⟨_, hm, hstored, block_written hm hstored⟩

end Machine.Reached

end StackLang
