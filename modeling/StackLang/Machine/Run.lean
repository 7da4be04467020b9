import StackLang.Instruction
import StackLang.Machine.Basic
import StackLang.Operator.Binary
import StackLang.Operator.Unary
import StackLang.Token

/-!
# Running programs

A program is divided into tokens, all at once, and then its tokens are carried out one by one. An
operator may run a block, whose body is a program again, on the same machine. How deep blocks may
run inside blocks is limited: the machine counts them, and a block that meets the limit is refused.

All functions between an action and a token take the way to run a block as an argument (`call`), so
that each can be understood for blocks of whatever effect.
-/

namespace StackLang

namespace Eval

/-! ## 1. Collections and blocks -/

/-- Pushes a value, runs a block and takes all that the block left above the starting size. A block
that left less leaves nothing to take. -/
def collect (call : Block → Eval Unit) (block : Block) (v : Value) : Eval (List Value) := do
  let before ← size
  push v
  call block
  let after ← size
  takeAbove (min before after)

/-- Runs a block on each of several values and takes all that it left, one behind the other. -/
def collectAll (call : Block → Eval Unit) (block : Block) (vs : List Value) : Eval (List Value) :=
  vs.flatMapM (collect call block)

/-- Runs a block on each of several values and pushes all that it left, as one array. -/
def mapArray (call : Block → Eval Unit) (block : Block) (vs : List Value) : Eval Unit := do
  let results ← collectAll call block vs
  push (.array results)

/-- Runs a block on a character and writes all that it left at the end of a text. -/
def collectInto (call : Block → Eval Unit) (block : Block) (out : String) (c : Char) :
    Eval String := do
  let results ← collect call block (.character c)
  pure (Value.appendAllTo out results)

/-- Runs a block on each character of a text and pushes all that it left, as one text that is
written while the block is run. -/
def mapText (call : Block → Eval Unit) (block : Block) (s : String) : Eval Unit := do
  let written ← s.toList.foldlM (collectInto call block) ""
  push (.text written)

/-- One step of a fold: the value goes on top of what has been combined so far. -/
def combine (call : Block → Eval Unit) (block : Block) (v : Value) : Eval Unit := do
  push v
  call block

/-- Combines values from left to right by a block. -/
def fold (call : Block → Eval Unit) (block : Block) : List Value → Eval Unit
  | [] => throw (.emptyCollection (.binary .multiply))
  | v :: vs => do
    push v
    vs.forM (combine call block)

@[simp] theorem collectAll_nil (call : Block → Eval Unit) (block : Block) :
    collectAll call block [] = pure [] := by
  simp [collectAll]

@[simp] theorem collectAll_cons (call : Block → Eval Unit) (block : Block) (v : Value)
    (vs : List Value) :
    collectAll call block (v :: vs) = (do
      let first ← collect call block v
      let rest ← collectAll call block vs
      pure (first ++ rest)) := by
  simp [collectAll, List.flatMapM_cons]

/-- **A text that grows with every character holds what a list of all results holds.** The induction
is over the characters, for every text that has been written before. -/
theorem foldlM_collectInto (call : Block → Eval Unit) (block : Block) (out : String)
    (cs : List Char) :
    cs.foldlM (collectInto call block) out = (do
      let results ← collectAll call block (cs.map .character)
      pure (Value.appendAllTo out results)) := by
  induction cs generalizing out with
  | nil =>
    rw [List.foldlM_nil, List.map_nil, collectAll_nil, pure_bind]
    rfl
  | cons c cs ih =>
    rw [List.foldlM_cons, List.map_cons, collectAll_cons]
    simp only [collectInto, bind_assoc, pure_bind, ih, Value.appendAllTo_append]

/-- What a block leaves of the characters of a text is written down once and pushed. -/
theorem mapText_eq (call : Block → Eval Unit) (block : Block) (s : String) :
    mapText call block s = (do
      let results ← collectAll call block (s.toList.map .character)
      push (.text (Value.renderAll results))) := by
  rw [mapText, foldlM_collectInto]
  simp only [bind_assoc, pure_bind]
  rfl

/-- To fold is to push the first value and to combine it with the others in order. -/
@[simp] theorem fold_cons (call : Block → Eval Unit) (block : Block) (v : Value)
    (vs : List Value) :
    fold call block (v :: vs) = (do push v; vs.forM (combine call block)) := rfl

/-! ## 2. Actions, instructions, tokens -/

/-- Carries out an action. -/
def perform (call : Block → Eval Unit) : Action → Eval Unit
  | .push results => pushAll results
  | .call block => call block
  | .fold items block => fold call block items
  | .mapArray items block => mapArray call block items
  | .mapText text block => mapText call block text

variable [Allocator]

/-- Takes two operands, the last one first, and carries out what the operator makes of them. -/
def applyBinary (call : Block → Eval Unit) (op : BinaryOperator) : Eval Unit := do
  let x ← pop
  let y ← pop
  let action ← ofExcept (op.act y x)
  perform call action

/-- Takes an operand and carries out what the operator makes of it. -/
def applyUnary (call : Block → Eval Unit) (op : UnaryOperator) : Eval Unit := do
  let x ← pop
  let action ← ofExcept (op.act x)
  perform call action

/-- Carries out an operator. -/
def apply (call : Block → Eval Unit) : Operator → Eval Unit
  | .binary op => applyBinary call op
  | .unary op => applyUnary call op
  | .readLine => readLine
  | .openArray => openArray
  | .closeArray => closeArray

/-- Stores a copy of the top value. -/
def store (name : Char) : Eval Unit := do
  let v ← top
  setVariable name v

/-- Pushes the value of a variable. The name of a variable that is not set means nothing. -/
def load (name : Char) : Eval Unit := do
  match ← getVariable name with
  | some v => push v
  | none => throw (.unreadable (String.singleton name))

/-- Carries out an instruction. -/
def step (call : Block → Eval Unit) : Instruction → Eval Unit
  | .apply op => apply call op
  | .store name => store name
  | .load name => load name
  | .push v => push v

/-- Carries out a token. -/
def dispatch (call : Block → Eval Unit) (token : String) : Eval Unit :=
  match Instruction.ofToken? token with
  | some instruction => step call instruction
  | none => throw (.unreadable token)

theorem dispatch_of_some (call : Block → Eval Unit) {token : String} {i : Instruction}
    (h : Instruction.ofToken? token = some i) : dispatch call token = step call i := by
  rw [dispatch, h]

/-- The symbol of an operator carries out the operator. -/
theorem dispatch_symbol (call : Block → Eval Unit) (op : Operator) :
    dispatch call op.symbol = apply call op :=
  dispatch_of_some call (Instruction.ofToken?_eq_apply_iff.mpr rfl)

/-- Pushes the value that a token writes; a token that writes none cannot be read. -/
def pushLiteral (token : String) : Eval Unit :=
  match Value.ofLiteral? token with
  | some v => push v
  | none => throw (.unreadable token)

/-- A token that is neither an operator nor about a variable is pushed as a literal. -/
theorem dispatch_eq_pushLiteral (call : Block → Eval Unit) {token : String}
    (hop : Operator.ofToken? token = none) (hstore : storeTarget? token = none)
    (hname : variableName? token = none) : dispatch call token = pushLiteral token := by
  simp only [dispatch, Instruction.ofToken?, hop, hstore, hname, pushLiteral]
  cases Value.ofLiteral? token <;> rfl

/-! ## 3. Blocks within blocks -/

/-- Divides a program into tokens and carries them out, all of them read before the first is
carried out. -/
def withTokens (source : String) (body : List String → Eval Unit) : Eval Unit := do
  let tokens ← ofExcept (Token.ofSource source)
  body tokens

/-- Runs a block if the limit allows it. `body` carries out the tokens of its body. -/
def execute (limit : Nat) (body : List String → Eval Unit) (block : Block) : Eval Unit := do
  checkDepth limit
  withTokens block.body fun tokens => nested (body tokens)

end Eval

/-- What a run goes by.

* `limit`: how many blocks may be run inside each other;
* `each`: carries out a token, given a way to run blocks;
* `beyond`: carries out the tokens of a block for which no level is left. A block meets the limit
  before that, so no run comes there. -/
structure Runner where
  limit : Nat
  each : (Block → Eval Unit) → String → Eval Unit
  beyond : List String → Eval Unit

namespace Runner

open Eval

/-- The runner of programs: a token is carried out as it is read. -/
def standard [Allocator] (limit : Nat) : Runner :=
  ⟨limit, dispatch, fun _ => throw (.stackOverflow limit)⟩

/-- Carries out tokens. In what they run blocks may be nested one level less deep than `levels`. -/
def runTokens (r : Runner) : Nat → List String → Eval Unit
  | 0, tokens => r.beyond tokens
  | levels + 1, tokens => tokens.forM (r.each (execute r.limit (r.runTokens levels)))

/-- Runs a block, with as many levels as the limit leaves. -/
def call (r : Runner) (block : Block) : Eval Unit := fun m =>
  execute r.limit (r.runTokens (r.limit - m.depth)) block m

/-- Runs a program. -/
def run (r : Runner) (source : String) : Eval Unit :=
  withTokens source fun tokens => tokens.forM (r.each r.call)

end Runner

namespace Eval

variable [Allocator]

/-- Runs a block under a limit. -/
def call (limit : Nat) : Block → Eval Unit :=
  (Runner.standard limit).call

/-- Runs a program under a limit. -/
def run (limit : Nat) : String → Eval Unit :=
  (Runner.standard limit).run

end Eval

end StackLang
