import StackLang.Proofs.BlockOperand
import StackLang.Proofs.Mapping

/-!
# Shifting the characters of a text

The characters stand in a ring, so to step all characters of a text up and then down gives the text
back. As a program this is two maps, each by the block of a single operator: an operator that puts a
character in the place of each character maps a text to the text of these characters
(`Eval.run_map_unary`), and what the operators `)` and `(` put there are the two neighbours in the
ring, whatever the character is (`Eval.run_shift`).
-/

namespace StackLang

open StackLang.Text (next previous)

/-- The program that maps by an operator. -/
def UnaryOperator.mapSource (op : UnaryOperator) : String :=
  (Operator.unary op).block.render ++ " " ++ (Operator.binary .modulo).symbol

theorem UnaryOperator.readable_mapSource (op : UnaryOperator) : Token.Readable op.mapSource :=
  (Token.readable_lexeme (Token.lexeme_render (Operator.unary op).body_block)).append
    Token.gap_space (by decide) (Token.readable_lexeme (Token.lexeme_symbol (.binary .modulo)))

namespace Eval

section

variable [Allocator] {limit : Nat} {m : Machine}

/-! ## 1. An operator as a block -/

/-- An operator that makes one value of another does so inside a block as well. -/
theorem run_call_unary {op : UnaryOperator} {v w : Value} (hact : op.act v = .ok (.result w))
    (hdepth : m.depth < limit) (hroom : m.stack.size < m.stack.capacity) :
    EStateM.run (call limit ⟨op.symbol⟩) (m.add [v]) = .ok () (m.add [w]) := by
  have hinner : EStateM.run (applyUnary (call limit) op) (m.enter.add [v]) =
      .ok () (m.enter.add [w]) := run_applyUnary_of_result _ hroom hact
  exact run_call_symbol_of_ok (.unary op) hdepth hinner

/-- **A map by an operator that puts a character in the place of each character.** Besides the text
there has to be room for the block; the character that is being mapped lies where the text was. -/
theorem run_map_unary {op : UnaryOperator} {image : Char → Char}
    (hact : ∀ c, op.act (.character c) = .ok (.result (.character (image c))))
    (hdepth : m.depth < limit) (hroom : m.stack.size + 2 ≤ m.stack.capacity) (text : String) :
    EStateM.run (run limit op.mapSource) (m.add [.text text]) =
      .ok () (m.add [.text (text.map image)]) := by
  have hmap : BinaryOperator.modulo.act (.text text) (.block ⟨op.symbol⟩) =
      .ok (.mapText text ⟨op.symbol⟩) := rfl
  exact (run_block_symbol_add limit (.unary op) hmap hroom).trans
    (run_mapText_of_call (by omega) (fun c => run_call_unary (hact c) hdepth (by omega)) text)

/-! ## 2. Up and down -/

/-- Two maps one behind the other, of which the second takes back what the first has done. -/
theorem run_map_unary_twice {op back : UnaryOperator} {image inverse : Char → Char}
    (hact : ∀ c, op.act (.character c) = .ok (.result (.character (image c))))
    (hback : ∀ c, back.act (.character c) = .ok (.result (.character (inverse c))))
    (hinverse : ∀ c, inverse (image c) = c) (hdepth : m.depth < limit)
    (hroom : m.stack.size + 2 ≤ m.stack.capacity) (text : String) :
    EStateM.run (run limit (op.mapSource ++ " " ++ back.mapSource)) (m.add [.text text]) =
      .ok () (m.add [.text text]) := by
  have htext : (text.map image).map inverse = text := by
    have hid : inverse ∘ image = id := funext hinverse
    rw [← String.toList_inj, String.toList_map, String.toList_map, List.map_map, hid, List.map_id]
  rw [run_append_of_readable limit op.readable_mapSource Token.gap_space (by decide)
    back.readable_mapSource, EStateM.run_bind, run_map_unary hact hdepth hroom]
  show EStateM.run (run limit back.mapSource) (m.add [.text (text.map image)]) = _
  rw [run_map_unary hback hdepth hroom, htext]

/-- **Shifting all characters of a text up and down again gives the text back**, and so does shifting
them down and up. On any machine with room for the text and the block and with one level of blocks
left, the first map succeeds and leaves the text of the neighbours, which is as long as the text; both
maps together succeed and leave the machine as it was. -/
theorem run_shift (hdepth : m.depth < limit) (hroom : m.stack.size + 2 ≤ m.stack.capacity)
    (text : String) :
    (EStateM.run (run limit "\x7b ) \x7d %") (m.add [.text text]) =
        .ok () (m.add [.text (text.map next)]) ∧
      (text.map next).length = text.length ∧
      EStateM.run (run limit "\x7b ) \x7d % \x7b ( \x7d %") (m.add [.text text]) =
        .ok () (m.add [.text text])) ∧
    (EStateM.run (run limit "\x7b ( \x7d %") (m.add [.text text]) =
        .ok () (m.add [.text (text.map previous)]) ∧
      (text.map previous).length = text.length ∧
      EStateM.run (run limit "\x7b ( \x7d % \x7b ) \x7d %") (m.add [.text text]) =
        .ok () (m.add [.text text])) := by
  have hup : ∀ c, UnaryOperator.increment.act (.character c) =
      .ok (.result (.character (next c))) := fun _ => rfl
  have hdown : ∀ c, UnaryOperator.decrement.act (.character c) =
      .ok (.result (.character (previous c))) := fun _ => rfl
  refine ⟨⟨?_, String.length_map, ?_⟩, ?_, String.length_map, ?_⟩
  · exact run_map_unary hup hdepth hroom text
  · exact run_map_unary_twice hup hdown Text.previous_next hdepth hroom text
  · exact run_map_unary hdown hdepth hroom text
  · exact run_map_unary_twice hdown hup Text.next_previous hdepth hroom text

end

/-- The last character before the surrogates and the last one of all, shifted up on a stack that
becomes full. -/
theorem run_shift_last :
    (0 < 1 ∧ 1 + 2 ≤ 3) ∧
    EStateM.run (run 1 "\x7b ) \x7d %")
        ⟨⟨#[.integer 7, .text (String.ofList ['\ud7ff', Char.ofNat 0x10ffff])], 3⟩, .initial, [4],
          .empty, 0⟩ =
      .ok () ⟨⟨#[.integer 7, .text "\ue000\x00"], 3⟩, .initial, [4], .empty, 0⟩ ∧
    EStateM.run (run 1 "\x7b ) \x7d % \x7b ( \x7d %")
        ⟨⟨#[.integer 7, .text (String.ofList ['\ud7ff', Char.ofNat 0x10ffff])], 3⟩, .initial, [4],
          .empty, 0⟩ =
      .ok () ⟨⟨#[.integer 7, .text (String.ofList ['\ud7ff', Char.ofNat 0x10ffff])], 3⟩, .initial,
        [4], .empty, 0⟩ := by
  have htext : (String.ofList ['\ud7ff', Char.ofNat 0x10ffff]).map next = "\ue000\x00" := by
    rw [← String.toList_inj, String.toList_map, String.toList_ofList]
    decide
  obtain ⟨⟨hup, -, hboth⟩, -⟩ := run_shift (m := ⟨⟨#[.integer 7], 3⟩, .initial, [4], .empty, 0⟩)
    Nat.zero_lt_one (by decide) (String.ofList ['\ud7ff', Char.ofNat 0x10ffff])
  rw [htext] at hup
  exact ⟨by decide, hup, hboth⟩

end Eval

end StackLang
