import StackLang.Proofs.Nesting
import StackLang.Proofs.Pushing
import StackLang.Proofs.Sequence
import StackLang.Proofs.Tokens.BlockLiteral

/-!
# Blocks as operands

A block that stands in front of an operator is pushed, and the operator takes it from the top
(`Eval.run_render_symbol`). When the operator runs it, the program between the braces is run one
level deeper, if the limit allows it (`Eval.run_call_of_lt`, `Eval.run_call_of_le`).

The shortest program that stands between braces is a single operator (`Operator.block`).
-/

namespace StackLang

open StackLang.Text (isBlank)

namespace Operator

/-- An operator between braces, with a space on either side. -/
def block (op : Operator) : Block :=
  ⟨" " ++ op.symbol ++ " "⟩

theorem toList_body_block (op : Operator) :
    op.block.body.toList = [' '] ++ (op.symbol.toList ++ [' ']) := by
  rw [block, String.toList_append, String.toList_append, List.append_assoc]
  rfl

/-- No symbol holds a blank, so only the spaces are cut off. -/
theorem trim_block (op : Operator) : op.block.trim = ⟨op.symbol⟩ := by
  have hsymbols : ∀ op ∈ all, op.symbol.toList.any isBlank = false := by decide
  have hsolid : ∀ c ∈ op.symbol.toList, isBlank c = false := fun c hc =>
    Bool.eq_false_iff.mpr (List.any_eq_false.mp (hsymbols op op.mem_all) c hc)
  have htrimmed : Text.Trimmed op.symbol.toList :=
    ⟨fun c hc => hsolid c (List.mem_of_mem_head? hc),
      fun c hc => hsolid c (List.mem_of_mem_getLast? hc)⟩
  have hspace : Text.Blank [' '] := fun c hc => List.mem_singleton.mp hc ▸ rfl
  rw [Block.trim, Text.trim, toList_body_block, htrimmed.trimChars_append hspace hspace,
    String.ofList_toList]

/-- No symbol holds a quote or a brace. -/
theorem body_block (op : Operator) : Token.Body op.block.body.toList := by
  have hsymbols : ∀ op ∈ all, '"' ∉ op.symbol.toList ∧ '\x7b' ∉ op.symbol.toList ∧
      '\x7d' ∉ op.symbol.toList := by decide
  obtain ⟨hquote, hopen, hclose⟩ := hsymbols op op.mem_all
  have hsymbol : Token.Body op.symbol.toList := .of_plain fun c hc =>
    ⟨fun h => hquote (h ▸ hc), fun h => hopen (h ▸ hc), fun h => hclose (h ▸ hc)⟩
  have hspace : Token.Body [' '] := .of_plain (by simp)
  rw [toList_body_block]
  exact hspace.append (hsymbol.append hspace)

end Operator

namespace Eval

variable [Allocator] {limit : Nat} {m : Machine}

/-- A block in front of an operator is the operand that was entered last. -/
theorem run_render_symbol (limit : Nat) {b : Block} (h : Token.Body b.body.toList) (op : Operator) :
    run limit (b.render ++ " " ++ op.symbol) = (do
      push (.block b.trim)
      apply (call limit) op) := by
  have hpush : run limit b.render = push (.block b.trim) :=
    run_literal limit (Token.lexeme_render h) (Instruction.ofToken?_render b)
  rw [run_append_of_readable limit (Token.readable_lexeme (Token.lexeme_render h))
    Token.gap_space (by decide) (Token.readable_lexeme (Token.lexeme_symbol op)), hpush,
    run_symbol]

theorem run_block_symbol (limit : Nat) (inner op : Operator) :
    run limit (inner.block.render ++ " " ++ op.symbol) = (do
      push (.block ⟨inner.symbol⟩)
      apply (call limit) op) := by
  rw [run_render_symbol limit inner.body_block op, inner.trim_block]

/-- An operator that takes a value and a block of a single operator, where both have room. -/
theorem run_block_symbol_add (limit : Nat) (inner : Operator) {op : BinaryOperator} {v : Value}
    {action : Action} (hact : op.act v (.block ⟨inner.symbol⟩) = .ok action)
    (hroom : m.stack.size + 2 ≤ m.stack.capacity) :
    EStateM.run (run limit (inner.block.render ++ " " ++ op.symbol)) (m.add [v]) =
      EStateM.run (perform (call limit) action) m := by
  have hsource : run limit (inner.block.render ++ " " ++ op.symbol) = (do
      push (.block ⟨inner.symbol⟩)
      applyBinary (call limit) op) :=
    run_block_symbol limit inner (.binary op)
  rw [hsource, EStateM.run_bind, run_push_of_lt (Machine.room_add hroom v), Machine.add_add]
  exact run_applyBinary_of_ok _ hact

/-- A block that is allowed is run one level deeper. -/
theorem run_call_of_lt {b : Block} {tokens : List String}
    (h : Token.ofSource b.body = .ok tokens) (hlt : m.depth < limit) :
    EStateM.run (call limit b) m = EStateM.run (nested (run limit b.body)) m := by
  rw [runsBlocks_call limit b, execute, EStateM.run_bind, run_checkDepth_of_lt hlt,
    withTokens_of_ok _ h, run_of_ok limit h]

/-- A block that meets the limit changes nothing. -/
theorem run_call_of_le (b : Block) (hle : limit ≤ m.depth) :
    EStateM.run (call limit b) m = .error (.stackOverflow limit) m := by
  rw [runsBlocks_call limit b, execute, EStateM.run_bind, run_checkDepth_of_le hle]

/-- A block of a single operator carries it out one level deeper. -/
theorem run_call_symbol (op : Operator) (hlt : m.depth < limit) :
    EStateM.run (call limit ⟨op.symbol⟩) m = EStateM.run (nested (apply (call limit) op)) m := by
  have htokens : Token.ofSource (Block.mk op.symbol).body = .ok [op.symbol] :=
    Token.ofSource_lexeme (Token.lexeme_symbol op)
  rw [run_call_of_lt htokens hlt, run_symbol]

/-- How the operator ends one level deeper is how the block ends. -/
theorem run_call_symbol_of_ok (op : Operator) {m' : Machine} (hlt : m.depth < limit)
    (h : EStateM.run (apply (call limit) op) m.enter = .ok () m'.enter) :
    EStateM.run (call limit ⟨op.symbol⟩) m = .ok () m' :=
  (run_call_symbol op hlt).trans (run_nested_of_ok h)

theorem run_call_symbol_of_error (op : Operator) {m' : Machine} {fault : Fault}
    (hlt : m.depth < limit)
    (h : EStateM.run (apply (call limit) op) m.enter = .error fault m'.enter) :
    EStateM.run (call limit ⟨op.symbol⟩) m = .error fault m' :=
  (run_call_symbol op hlt).trans (run_nested_of_error h)

end Eval

end StackLang
