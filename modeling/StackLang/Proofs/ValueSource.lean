import StackLang.Proofs.Pushing
import StackLang.Proofs.Sequence
import StackLang.Proofs.Tokens.BlockLiteral

/-!
# Values written as programs

A value can be written as a program that pushes it (`Value.source`): an integer by its numeral, a
character by its code point and the sign that turns it into the character, a text between quotes, a
block between braces, an array between brackets. Not every value is written so that it can be read
again (`Value.Writable`): a text with a quote in it ends too early, a block loses its outer blanks,
and a real is rounded.

Where a value is writable and there is room for all its parts, the program pushes exactly this value
and changes nothing else (`Eval.run_source`), whatever lies on the stack and whatever brackets are
open.
-/

namespace StackLang

open StackLang.Numeral (digits integerChars integerText)

/-! ## 1. The program of a value -/

namespace Value

mutual

/-- The program that writes a value. -/
def source : Value → String
  | .integer n => integerText n
  | .real r => Numeral.realText r
  | .character c => String.ofList (digits c.toNat) ++ " c"
  | .text s => Text.quoted s
  | .array items => "[ " ++ " ".intercalate (sources items) ++ " ]"
  | .block b => b.render

/-- The programs of several values. -/
def sources : List Value → List String
  | [] => []
  | v :: vs => v.source :: sources vs

end

mutual

/-- The number of values that a value is made of, itself among them. -/
def nodes : Value → Nat
  | .array items => nodesAll items + 1
  | .integer _ | .real _ | .character _ | .text _ | .block _ => 1

/-- The number of values that several values are made of. -/
def nodesAll : List Value → Nat
  | [] => 0
  | v :: vs => v.nodes + nodesAll vs

end

/-- A value whose program writes it: no real in it, no quote in its texts, and blocks that are one
token and have no blanks at the ends of their bodies. -/
inductive Writable : Value → Prop
  | integer (n : Int64) : Writable (.integer n)
  | character (c : Char) : Writable (.character c)
  | text {s : String} : '"' ∉ s.toList → Writable (.text s)
  | block {b : Block} : b.trim = b → Token.ofSource b.render = .ok [b.render] → Writable (.block b)
  | array {items : List Value} : (∀ v ∈ items, Writable v) → Writable (.array items)

theorem sources_eq_map (vs : List Value) : sources vs = vs.map source := by
  induction vs with
  | nil => rfl
  | cons v vs ih => rw [sources, ih, List.map_cons]

theorem source_array (items : List Value) :
    (array items).source = "[" ++ " " ++ (" ".intercalate (items.map source) ++ " " ++ "]") := by
  rw [source, sources_eq_map, ← String.toList_inj]
  simp

/-- The code point of a character is within the range of integers. -/
theorem toInt_codePoint (c : Char) : (codePoint c).toInt = c.toNat := by
  have hrange : Integer.InRange c.toNat := by
    have hvalid := Text.isValidChar_toNat c
    unfold Nat.isValidChar at hvalid
    exact ⟨by omega, by omega⟩
  exact Integer.toInt_ofInt hrange

theorem source_character (c : Char) :
    (character c).source = integerText (codePoint c) ++ " " ++ "c" := by
  have hchars : integerChars (codePoint c) = digits c.toNat := by
    rw [integerChars, toInt_codePoint, if_neg (by omega), Int.natAbs_natCast]
  rw [source, integerText, hchars, ← String.toList_inj]
  simp

theorem one_le_nodes (v : Value) : 1 ≤ v.nodes := by
  cases v <;> simp [nodes]

end Value

theorem UnaryOperator.act_toCharacter_codePoint (c : Char) :
    toCharacter.act (.integer (Value.codePoint c)) = .ok (.result (.character c)) := by
  have hcode : (Value.codePoint c).toInt.toNat = c.toNat := by
    rw [Value.toInt_codePoint, Int.toNat_natCast]
  have hvalid : 0 ≤ (Value.codePoint c).toInt ∧ c.toNat.isValidChar :=
    ⟨by rw [Value.toInt_codePoint]; omega, Text.isValidChar_toNat c⟩
  show (characterOf (Value.codePoint c)).map Action.result = _
  rw [characterOf, hcode, if_pos hvalid, Char.ofNat_toNat]
  rfl

namespace Eval

variable {limit : Nat} {m : Machine}

/-- The code point of a character is the integer that the sign `c` turns into it. -/
theorem run_toCharacter_add [Allocator] (h : m.stack.size < m.stack.capacity) (c : Char) :
    EStateM.run (apply (call limit) (.unary .toCharacter)) (m.add [.integer (Value.codePoint c)]) =
      .ok () (m.add [.character c]) :=
  run_applyUnary_of_result _ h (UnaryOperator.act_toCharacter_codePoint c)

end Eval

/-! ## 2. Programs that push a value -/

/-- A program that pushes a value and does nothing else, where so much room is left. -/
structure Pushes [Allocator] (limit : Nat) (source : String) (v : Value) (room : Nat) : Prop where
  readable : Token.Readable source
  run (m : Machine) : m.stack.size + room ≤ m.stack.capacity →
    EStateM.run (Eval.run limit source) m = .ok () (m.add [v])

namespace Pushes

open Eval

variable [Allocator] {limit : Nat} {v : Value} {items : List Value}

theorem literal {token : String} (hlexeme : Token.Lexeme token.toList)
    (hpush : Instruction.ofToken? token = some (.push v)) : Pushes limit token v 1 where
  readable := Token.readable_lexeme hlexeme
  run m hroom := by
    rw [run_literal limit hlexeme hpush]
    exact run_push_of_lt (by omega) v

theorem character (c : Char) : Pushes limit (Value.character c).source (.character c) 1 := by
  have hcode : Pushes limit (integerText (Value.codePoint c)) (.integer (Value.codePoint c)) 1 :=
    literal (Token.lexeme_integerText _) (Instruction.ofToken?_integerText _)
  have hsign : Token.Readable "c" := Token.readable_lexeme (Token.lexeme_symbol (.unary .toCharacter))
  rw [Value.source_character]
  refine ⟨hcode.readable.append Token.gap_space (by decide) hsign, fun m hroom => ?_⟩
  have hlt : m.stack.size < m.stack.capacity := by omega
  have hrun : Eval.run limit "c" = apply (call limit) (.unary .toCharacter) :=
    run_symbol limit (.unary .toCharacter)
  rw [run_append_of_readable limit hcode.readable Token.gap_space (by decide) hsign,
    EStateM.run_bind, hcode.run m hroom, hrun]
  exact run_toCharacter_add hlt c

/-- Programs that push one value each, run one after the other, push all of them. -/
theorem run_sources (h : ∀ v ∈ items, Pushes limit v.source v v.nodes) (m : Machine)
    (hroom : m.stack.size + Value.nodesAll items ≤ m.stack.capacity) :
    EStateM.run ((items.map Value.source).forM (Eval.run limit)) m = .ok () (m.add items) := by
  induction items generalizing m with
  | nil =>
    rw [Machine.add, Stack.add_nil]
    rfl
  | cons v items ih =>
    have hfirst := h v List.mem_cons_self
    have hrest : ∀ w ∈ items, Pushes limit w.source w w.nodes :=
      fun w hw => h w (List.mem_cons_of_mem v hw)
    rw [Value.nodesAll] at hroom
    have hnodes := v.one_le_nodes
    have hroom' : (m.add [v]).stack.size + Value.nodesAll items ≤ (m.add [v]).stack.capacity := by
      show (m.stack.add [v]).size + _ ≤ m.stack.capacity
      rw [Stack.size_add, List.length_singleton]
      omega
    show EStateM.run (do
      Eval.run limit v.source
      (items.map Value.source).forM (Eval.run limit)) m = _
    rw [EStateM.run_bind, hfirst.run m (by omega)]
    show EStateM.run ((items.map Value.source).forM (Eval.run limit)) (m.add [v]) = _
    rw [ih hrest _ hroom', Machine.add, Machine.add, Machine.add, Stack.add_add]
    rfl

/-- Between brackets the values become an array. -/
theorem array (h : ∀ v ∈ items, Pushes limit v.source v v.nodes) :
    Pushes limit (Value.array items).source (.array items) (Value.array items).nodes := by
  have hsources : ∀ source ∈ items.map Value.source, Token.Readable source := by
    intro source hsource
    obtain ⟨v, hv, rfl⟩ := List.mem_map.mp hsource
    exact (h v hv).readable
  have hinner : Token.Readable (" ".intercalate (items.map Value.source)) := .intercalate hsources
  have hopen : Token.Readable "[" := Token.readable_lexeme (Token.lexeme_symbol .openArray)
  have hclose : Token.Readable "]" := Token.readable_lexeme (Token.lexeme_symbol .closeArray)
  have hbody := hinner.append Token.gap_space (by decide) hclose
  rw [Value.source_array]
  refine ⟨hopen.append Token.gap_space (by decide) hbody, fun m hroom => ?_⟩
  rw [Value.nodes] at hroom
  have hrunOpen : Eval.run limit "[" = openArray := run_symbol limit .openArray
  have hrunClose : Eval.run limit "]" = closeArray := run_symbol limit .closeArray
  rw [run_append_of_readable limit hopen Token.gap_space (by decide) hbody,
    run_append_of_readable limit hinner Token.gap_space (by decide) hclose,
    run_intercalate limit hsources, hrunOpen, hrunClose, EStateM.run_bind, run_openArray]
  -- inside the brackets the stack is the same, so there is the same room
  have hroom' : m.stack.size + Value.nodesAll items ≤ m.stack.capacity := by omega
  have hitems := run_sources h { m with marks := m.stack.size :: m.marks } hroom'
  show EStateM.run (do
    (items.map Value.source).forM (Eval.run limit)
    closeArray) { m with marks := m.stack.size :: m.marks } = _
  rw [EStateM.run_bind, hitems]
  exact run_closeArray_add (by omega) items

/-- **Every writable value is pushed by its program.** The induction is over the value; the arrays
inside an array have the room that is left by what stands in front of them. -/
theorem source (h : v.Writable) : Pushes limit v.source v v.nodes := by
  induction h with
  | integer n => exact literal (Token.lexeme_integerText n) (Instruction.ofToken?_integerText n)
  | character c => exact character c
  | text h => exact literal (Token.lexeme_quoted h) (Instruction.ofToken?_quoted _)
  | @block b htrim htoken =>
    have hlexeme := (Token.of_mem_ofSource htoken List.mem_cons_self).1
    have hpush := Instruction.ofToken?_render b
    rw [htrim] at hpush
    exact literal hlexeme hpush
  | array _ ih => exact array ih

end Pushes

namespace Eval

/-- **Values can be written as programs**: on a machine with room for all parts of a writable value,
the program of the value succeeds and pushes exactly this value; the values below it, the variables,
the open brackets and the input stay as they are. -/
theorem run_source [Allocator] (limit : Nat) {v : Value} {m : Machine} (h : v.Writable)
    (hroom : m.stack.size + v.nodes ≤ m.stack.capacity) :
    EStateM.run (run limit v.source) m = .ok () (m.add [v]) :=
  (Pushes.source h).run m hroom

/-- An array of all kinds but reals, with the least integer, an empty array and a quoted brace, behind
a bracket that is open above the top of the stack. -/
theorem run_source_array :
    (Value.array [.integer (-9223372036854775808), .character 'é', .text "\x7b ", .array [],
      .block ⟨"\"\x7d\""⟩]).Writable ∧
    1 + (Value.array [.integer (-9223372036854775808), .character 'é', .text "\x7b ", .array [],
      .block ⟨"\"\x7d\""⟩]).nodes ≤ 7 ∧
    EStateM.run (run 0 "[ -9223372036854775808 233 c \"\x7b \" [  ] \x7b\"\x7d\"\x7d ]")
        ⟨⟨#[.integer 7], 7⟩, .initial, [9], .empty, 0⟩ =
      .ok () ⟨⟨#[.integer 7, .array [.integer (-9223372036854775808), .character 'é', .text "\x7b ",
        .array [], .block ⟨"\"\x7d\""⟩]], 7⟩, .initial, [9], .empty, 0⟩ := by
  have hwritable : (Value.array [.integer (-9223372036854775808), .character 'é', .text "\x7b ",
      .array [], .block ⟨"\"\x7d\""⟩]).Writable := by
    refine .array fun v hv => ?_
    simp only [List.mem_cons, List.not_mem_nil, or_false] at hv
    rcases hv with rfl | rfl | rfl | rfl | rfl
    · exact .integer _
    · exact .character 'é'
    · exact .text (by decide)
    · exact .array nofun
    · exact .block (by cbv) (by cbv)
  have hsource : (Value.array [.integer (-9223372036854775808), .character 'é', .text "\x7b ",
      .array [], .block ⟨"\"\x7d\""⟩]).source =
      "[ -9223372036854775808 233 c \"\x7b \" [  ] \x7b\"\x7d\"\x7d ]" := by cbv
  have hrun := run_source 0 (m := ⟨⟨#[.integer 7], 7⟩, .initial, [9], .empty, 0⟩) hwritable
    (by decide)
  rw [hsource] at hrun
  exact ⟨hwritable, by decide, hrun⟩

end Eval

end StackLang
