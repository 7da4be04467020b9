import Mathlib
import StackLang.Proofs.Pushing
import StackLang.Proofs.Tokens.Literals

/-!
# Runs one behind the other

To run two programs that stand one behind the other is to run the first one and then, on the machine
that it leaves, the second one (`Eval.run_append`). All tokens are read before the first is carried
out; so if the second program cannot be read, the first one is not run either.
-/

namespace StackLang

namespace Eval

variable {limit : Nat} {source gap rest : String} {tokens : List String} {fault : Fault}

/-! ## 1. Programs that can be read, and others -/

theorem withTokens_of_ok (body : List String → Eval Unit)
    (h : Token.ofSource source = .ok tokens) : withTokens source body = body tokens := by
  simp [withTokens, h]

section

variable [Allocator]

/-- To run a program is to carry out its tokens. -/
theorem run_of_ok (limit : Nat) (h : Token.ofSource source = .ok tokens) :
    run limit source = tokens.forM (dispatch (call limit)) :=
  withTokens_of_ok _ h

/-- A program that cannot be read does nothing else than to say so. -/
theorem run_of_error (limit : Nat) (h : Token.ofSource source = .error fault) :
    run limit source = throw fault := by
  show (ofExcept (Token.ofSource source) >>= _) = throw fault
  rw [h]
  rfl

/-- A token alone. -/
theorem run_lexeme (limit : Nat) (h : Token.Lexeme source.toList) :
    run limit source = dispatch (call limit) source := by
  rw [run_of_ok limit (Token.ofSource_lexeme h)]
  show (do
    dispatch (call limit) source
    pure ()) = _
  simp only [bind_pure_unit]

/-- The symbol of an operator carries out the operator. -/
theorem run_symbol (limit : Nat) (op : Operator) :
    run limit op.symbol = apply (call limit) op := by
  rw [run_lexeme limit (Token.lexeme_symbol op), dispatch_symbol]

/-- The symbol of an operator of one operand that has a result. -/
theorem run_unary_of_result (limit : Nat) (op : UnaryOperator) {v w : Value} {m : Machine}
    (hroom : m.stack.size < m.stack.capacity) (h : op.act v = .ok (.result w)) :
    EStateM.run (run limit op.symbol) (m.add [v]) = .ok () (m.add [w]) := by
  have hsymbol : run limit op.symbol = applyUnary (call limit) op := run_symbol limit (.unary op)
  rw [hsymbol, run_applyUnary_of_result _ hroom h]

theorem run_unary_of_error (limit : Nat) (op : UnaryOperator) {v : Value}
    (h : op.act v = .error fault) (m : Machine) :
    EStateM.run (run limit op.symbol) (m.add [v]) = .error fault m := by
  have hsymbol : run limit op.symbol = applyUnary (call limit) op := run_symbol limit (.unary op)
  rw [hsymbol, run_applyUnary_of_error _ h]

/-- The symbol of an operator of two operands that has a result. -/
theorem run_binary_of_result (limit : Nat) (op : BinaryOperator) {y x v : Value} {m : Machine}
    (hroom : m.stack.size < m.stack.capacity) (h : op.act y x = .ok (.result v)) :
    EStateM.run (run limit op.symbol) (m.add [y, x]) = .ok () (m.add [v]) := by
  have hsymbol : run limit op.symbol = applyBinary (call limit) op := run_symbol limit (.binary op)
  rw [hsymbol, run_applyBinary_of_result _ hroom h]

theorem run_binary_of_error (limit : Nat) (op : BinaryOperator) {y x : Value}
    (h : op.act y x = .error fault) (m : Machine) :
    EStateM.run (run limit op.symbol) (m.add [y, x]) = .error fault m := by
  have hsymbol : run limit op.symbol = applyBinary (call limit) op := run_symbol limit (.binary op)
  rw [hsymbol, run_applyBinary_of_error _ h]

/-- A token that writes a value pushes it. -/
theorem run_literal (limit : Nat) {v : Value} (h : Token.Lexeme source.toList)
    (hpush : Instruction.ofToken? source = some (.push v)) : run limit source = push v := by
  rw [run_lexeme limit h, dispatch_of_some _ hpush]
  rfl

/-! ## 2. Sequences of programs -/

/-- Behind a gap, a program that can be read is run when the one in front has been run. -/
theorem run_append_of_readable (limit : Nat) (h : Token.Readable source)
    (hgap : Token.Gap gap.toList) (hne : gap ≠ "") (hrest : Token.Readable rest) :
    run limit (source ++ gap ++ rest) = (do run limit source; run limit rest) := by
  obtain ⟨tokens, htokens⟩ := h
  obtain ⟨tokens', htokens'⟩ := hrest
  have happend : Token.ofSource (source ++ gap ++ rest) = .ok (tokens ++ tokens') := by
    rw [Token.ofSource_append htokens hgap hne, htokens']
    rfl
  rw [run_of_ok limit happend, run_of_ok limit htokens, run_of_ok limit htokens']
  exact List.forM_append

/-- Two operators are carried out one after the other. -/
theorem run_symbol_symbol (limit : Nat) (op op' : Operator) :
    run limit (op.symbol ++ " " ++ op'.symbol) = (do
      apply (call limit) op
      apply (call limit) op') := by
  rw [run_append_of_readable limit (Token.readable_lexeme (Token.lexeme_symbol op))
    Token.gap_space (by decide) (Token.readable_lexeme (Token.lexeme_symbol op')), run_symbol,
    run_symbol]

/-- Where both of them end well, the second one works on what the first one left. -/
theorem run_symbol_symbol_of_ok (op op' : Operator) {m m₁ m₂ : Machine}
    (hfirst : EStateM.run (apply (call limit) op) m = .ok () m₁)
    (hsecond : EStateM.run (apply (call limit) op') m₁ = .ok () m₂) :
    EStateM.run (run limit (op.symbol ++ " " ++ op'.symbol)) m = .ok () m₂ := by
  rw [run_symbol_symbol, EStateM.run_bind, hfirst]
  exact hsecond

/-- Programs with single spaces between them are run one after the other. -/
theorem run_intercalate (limit : Nat) {sources : List String}
    (h : ∀ source ∈ sources, Token.Readable source) :
    run limit (" ".intercalate sources) = sources.forM (run limit) := by
  induction sources with
  | nil => exact run_of_ok limit Token.ofSource_empty
  | cons source sources ih =>
    have hsource := h source List.mem_cons_self
    have hsources : ∀ other ∈ sources, Token.Readable other :=
      fun other hother => h other (List.mem_cons_of_mem source hother)
    cases sources with
    | nil =>
      show run limit source = (do
        run limit source
        pure ())
      simp only [bind_pure_unit]
    | cons next sources =>
      rw [String.intercalate_cons_cons, run_append_of_readable limit hsource Token.gap_space
        (by decide) (.intercalate hsources), ih hsources]
      rfl

/-- **Programs one behind the other run one behind the other**: with a gap between them they have
the tokens of both, and end as the second one ends on the machine that the first one leaves, or as
the first one if that fails. If the second one cannot be read, neither is run, and the fault is
that of the second. -/
theorem run_append (limit : Nat) (h : Token.ofSource source = .ok tokens)
    (hgap : Token.Gap gap.toList) (hne : gap ≠ "") (rest : String) (m : Machine) :
    (∀ tokens', Token.ofSource rest = .ok tokens' →
      Token.ofSource (source ++ gap ++ rest) = .ok (tokens ++ tokens') ∧
      EStateM.run (run limit (source ++ gap ++ rest)) m =
        match EStateM.run (run limit source) m with
        | .ok _ m' => EStateM.run (run limit rest) m'
        | .error fault m' => .error fault m') ∧
    (∀ fault, Token.ofSource rest = .error fault →
      EStateM.run (run limit (source ++ gap ++ rest)) m = .error fault m) := by
  have happend := Token.ofSource_append h hgap hne rest
  constructor
  · intro tokens' hrest
    constructor
    · rw [happend, hrest]
      rfl
    · rw [run_append_of_readable limit ⟨tokens, h⟩ hgap hne ⟨tokens', hrest⟩, EStateM.run_bind]
      cases EStateM.run (run limit source) m <;> rfl
  · intro fault hrest
    rw [hrest] at happend
    rw [run_of_error limit happend]
    rfl

end

/-- A first program that ends in a block and a word; a second one that fails on what the first one
left, and one that cannot be read. -/
theorem run_append_of_block :
    Token.ofSource "7 :G \x7bG \"\x7d\"\x7d~" = .ok ["7", ":G", "\x7bG \"\x7d\"\x7d", "~"] ∧
    Token.Gap "\t\n".toList ∧
    (Token.ofSource "+" = .ok ["+"] ∧
      Token.ofSource "7 :G \x7bG \"\x7d\"\x7d~\t\n+" =
        .ok ["7", ":G", "\x7bG \"\x7d\"\x7d", "~", "+"] ∧
      EStateM.run (run 1 "7 :G \x7bG \"\x7d\"\x7d~\t\n+") (.start 3 .empty) =
        EStateM.run (run 1 "+")
          ⟨⟨#[.integer 7, .integer 7, .text "\x7d"], 3⟩, Variables.initial.set 'G' (.integer 7), [],
            .empty, 0⟩) ∧
    (Token.ofSource "\x7b\"" = .error (.unreadable "\"") ∧
      EStateM.run (run 1 "7 :G \x7bG \"\x7d\"\x7d~\t\n\x7b\"") (.start 3 .empty) =
        .error (.unreadable "\"") (.start 3 .empty)) := by
  have hsource : Token.ofSource "7 :G \x7bG \"\x7d\"\x7d~" =
      .ok ["7", ":G", "\x7bG \"\x7d\"\x7d", "~"] := by cbv
  have hgap : Token.Gap "\t\n".toList := by simp [Token.Gap, Text.isGap]
  have hplus : Token.ofSource "+" = .ok ["+"] := by cbv
  have hopen : Token.ofSource "\x7b\"" = .error (.unreadable "\"") := by cbv
  have hrun : EStateM.run (run 1 "7 :G \x7bG \"\x7d\"\x7d~") (.start 3 .empty) =
      .ok () ⟨⟨#[.integer 7, .integer 7, .text "\x7d"], 3⟩,
        Variables.initial.set 'G' (.integer 7), [], .empty, 0⟩ := by cbv
  obtain ⟨htokens, hboth⟩ := (run_append 1 hsource hgap (by decide) "+" (.start 3 .empty)).1 _ hplus
  have hneither := (run_append 1 hsource hgap (by decide) "\x7b\"" (.start 3 .empty)).2 _ hopen
  rw [hrun] at hboth
  exact ⟨hsource, hgap, ⟨hplus, htokens, hboth⟩, hopen, hneither⟩

end Eval

end StackLang
