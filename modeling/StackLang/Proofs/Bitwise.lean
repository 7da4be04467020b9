import StackLang.Proofs.Converting
import StackLang.Proofs.Rows

/-!
# Bitwise operators

`&`, `|` and `^` see two scalars as integers and combine them bit by bit
(`BinaryOperator.Bitwise.bit_eq`); `~` turns every bit of one. An integer is given by its 64 bits
(`Integer.eq_of_bit`), so what holds of truth values holds of integers, De Morgan's law for instance
(`Integer.not_and_eq`), and in two's complement all bits turned are the opposite less one
(`Integer.toInt_not`).

Main statement: `Eval.run_bitwise`.
-/

namespace StackLang

/-! ## 1. Bits -/

namespace Integer

/-- A bit of an integer in two's complement, counted from the lowest one. -/
def bit (n : Int64) (k : Nat) : Bool := n.toBitVec.getLsbD k

theorem eq_of_bit {a b : Int64} (h : ∀ k < 64, bit a k = bit b k) : a = b :=
  Int64.toBitVec_inj.mp (BitVec.eq_of_getLsbD_eq h)

theorem bit_and (a b : Int64) (k : Nat) : bit (a &&& b) k = (bit a k && bit b k) := by
  rw [bit, Int64.toBitVec_and, BitVec.getLsbD_and]
  rfl

theorem bit_or (a b : Int64) (k : Nat) : bit (a ||| b) k = (bit a k || bit b k) := by
  rw [bit, Int64.toBitVec_or, BitVec.getLsbD_or]
  rfl

theorem bit_xor (a b : Int64) (k : Nat) : bit (a ^^^ b) k = (bit a k ^^ bit b k) := by
  rw [bit, Int64.toBitVec_xor, BitVec.getLsbD_xor]
  rfl

theorem bit_not (a : Int64) {k : Nat} (h : k < 64) : bit (~~~a) k = !bit a k := by
  rw [bit, Int64.toBitVec_not, BitVec.getLsbD_not, decide_eq_true h, Bool.true_and]
  rfl

/-- De Morgan's law. -/
theorem not_and_eq (a b : Int64) : ~~~(a &&& b) = ~~~a ||| ~~~b :=
  eq_of_bit fun k hk => by
    rw [bit_not _ hk, bit_and, bit_or, bit_not _ hk, bit_not _ hk, Bool.not_and]

theorem xor_xor_cancel (a b : Int64) : (a ^^^ b) ^^^ b = a := by
  rw [Int64.xor_assoc, Int64.xor_self, Int64.xor_zero]

/-- The opposite less one is always in range. -/
theorem toInt_not (a : Int64) : (~~~a).toInt = -a.toInt - 1 := by
  obtain ⟨hlo, hhi⟩ := inRange_toInt a
  rw [Int64.toInt_not]
  exact Int.bmod_eq_of_le (by omega) (by omega)

end Integer

/-! ## 2. The operators -/

namespace BinaryOperator

/-- What a bitwise operator does with two integers, and with every two of their bits. -/
inductive Bitwise : BinaryOperator → (Int64 → Int64 → Int64) → (Bool → Bool → Bool) → Prop
  | bitAnd : Bitwise .bitAnd (· &&& ·) (· && ·)
  | bitOr : Bitwise .bitOr (· ||| ·) (· || ·)
  | bitXor : Bitwise .bitXor (· ^^^ ·) (· ^^ ·)

namespace Bitwise

variable {op : BinaryOperator} {combine : Int64 → Int64 → Int64} {f : Bool → Bool → Bool}
variable {y x : Value} {a b : Int64}

theorem bit_eq (h : op.Bitwise combine f) (a b : Int64) (k : Nat) :
    Integer.bit (combine a b) k = f (Integer.bit a k) (Integer.bit b k) := by
  cases h with
  | bitAnd => exact Integer.bit_and a b k
  | bitOr => exact Integer.bit_or a b k
  | bitXor => exact Integer.bit_xor a b k

variable [Allocator]

theorem act_eq (h : op.Bitwise combine f) (y x : Value) :
    op.act y x = (bitwise op combine y x).map .result := by
  cases h <;> rfl

theorem act_of_integer? (h : op.Bitwise combine f) (hy : y.integer? = some a)
    (hx : x.integer? = some b) : op.act y x = .ok (.result (.integer (combine a b))) := by
  rw [h.act_eq, bitwise, hy, hx]
  rfl

/-- One operand that is no scalar is enough to be refused. -/
theorem act_of_not_isScalar (h : op.Bitwise combine f)
    (hnot : y.tag.isScalar = false ∨ x.tag.isScalar = false) :
    op.act y x = .error (.binaryMismatch op y.tag x.tag) := by
  rw [← Value.isSome_integer?_eq_isScalar, ← Value.isSome_integer?_eq_isScalar,
    Option.isSome_eq_false_iff, Option.isSome_eq_false_iff, Option.isNone_iff_eq_none,
    Option.isNone_iff_eq_none] at hnot
  rw [h.act_eq, bitwise]
  rcases hnot with hy | hx
  · rw [hy]
    rfl
  · rw [hx]
    cases y.integer? <;> rfl

end Bitwise

end BinaryOperator

theorem UnaryOperator.act_bitNot_of_integer? {v : Value} {n : Int64} (h : v.integer? = some n) :
    bitNot.act v = .ok (.result (.integer (~~~n))) := by
  cases v with
  | integer | real | character =>
    cases h
    rfl
  | text | array | block => cases h

/-! ## 3. On a machine -/

namespace Eval

variable {m : Machine}

section

variable {α : Type} {v w : Value}

/-- A value is pushed and turned into another one, and then something is done with that. -/
theorem run_push_unary_bind [Allocator] (limit : Nat) (op : UnaryOperator)
    (hroom : m.stack.size < m.stack.capacity) (h : op.act v = .ok (.result w)) (rest : Eval α) :
    EStateM.run (do push v; run limit op.symbol; rest) m = EStateM.run rest (m.add [w]) := by
  rw [run_push_bind hroom]
  exact run_bind_of_ok (run_unary_of_result limit op hroom h) fun _ => rest

theorem run_push_unary [Allocator] (limit : Nat) (op : UnaryOperator)
    (hroom : m.stack.size < m.stack.capacity) (h : op.act v = .ok (.result w)) :
    EStateM.run (do push v; run limit op.symbol) m = .ok () (m.add [w]) := by
  rw [run_push_bind hroom]
  exact run_unary_of_result limit op hroom h

/-- Two values are pushed, and then something is done with them. -/
theorem run_push_push (hroom : m.stack.size + 2 ≤ m.stack.capacity) (y x : Value) (rest : Eval α) :
    EStateM.run (do push y; push x; rest) m = EStateM.run rest (m.add [y, x]) := by
  have hsecond := Machine.room_add hroom y
  rw [run_push_bind (by omega), run_push_bind (by omega), Machine.add_add]
  rfl

end

section

variable [Allocator] {y x : Value} {a b : Int64} (limit : Nat)
  (hroom : m.stack.size + 2 ≤ m.stack.capacity)
include hroom

/-! ### One operator -/

section

variable {op : BinaryOperator} {combine : Int64 → Int64 → Int64} {f : Bool → Bool → Bool}

/-- Two scalars are combined, whatever their kinds are. -/
theorem run_bitwise_scalars (h : op.Bitwise combine f) (hy : y.integer? = some a)
    (hx : x.integer? = some b) :
    EStateM.run (do push y; push x; run limit op.symbol) m =
      .ok () (m.add [.integer (combine a b)]) := by
  rw [run_push_push hroom]
  exact run_binary_of_result limit op (by omega) (h.act_of_integer? hy hx)

/-- To see them as integers first makes no difference. -/
theorem run_bitwise_integers (h : op.Bitwise combine f) (hy : y.integer? = some a)
    (hx : x.integer? = some b) :
    EStateM.run (do push y; run limit "i"; push x; run limit "i"; run limit op.symbol) m =
      .ok () (m.add [.integer (combine a b)]) := by
  have hsymbol : "i" = UnaryOperator.toInteger.symbol := rfl
  have hsecond := Machine.room_add hroom (.integer a)
  rw [hsymbol,
    run_push_unary_bind limit .toInteger (by omega) (UnaryOperator.act_toInteger_of_integer? hy),
    run_push_unary_bind limit .toInteger (by omega) (UnaryOperator.act_toInteger_of_integer? hx),
    Machine.add_add]
  exact run_binary_of_result limit op (by omega) (h.act_of_integer? rfl rfl)

theorem run_bitwise_of_not_isScalar (h : op.Bitwise combine f)
    (hnot : y.tag.isScalar = false ∨ x.tag.isScalar = false) :
    EStateM.run (do push y; push x; run limit op.symbol) m =
      .error (.binaryMismatch op y.tag x.tag) m := by
  rw [run_push_push hroom]
  exact run_binary_of_error limit op (h.act_of_not_isScalar hnot) m

end

/-! ### Several operators -/

theorem run_and_not (hy : y.integer? = some a) (hx : x.integer? = some b) :
    EStateM.run (do push y; push x; run limit "& ~") m =
      .ok () (m.add [.integer (~~~(a &&& b))]) := by
  have hsource : "& ~" = BinaryOperator.bitAnd.symbol ++ " " ++ UnaryOperator.bitNot.symbol := rfl
  have hand := BinaryOperator.Bitwise.bitAnd.act_of_integer? hy hx
  have hnot := UnaryOperator.act_bitNot_of_integer? (v := .integer (a &&& b)) rfl
  rw [run_push_push hroom, hsource]
  exact run_symbol_symbol_of_ok (.binary .bitAnd) (.unary .bitNot)
    (run_applyBinary_of_result _ (by omega) hand) (run_applyUnary_of_result _ (by omega) hnot)

theorem run_not_not_or (hy : y.integer? = some a) (hx : x.integer? = some b) :
    EStateM.run (do push y; run limit "~"; push x; run limit "~ |") m =
      .ok () (m.add [.integer (~~~a ||| ~~~b)]) := by
  have hsymbol : "~" = UnaryOperator.bitNot.symbol := rfl
  have hsource : "~ |" = UnaryOperator.bitNot.symbol ++ " " ++ BinaryOperator.bitOr.symbol := rfl
  have hsecond := Machine.room_add hroom (.integer (~~~a))
  have hnot := run_applyUnary_of_result (m := m.add [.integer (~~~a)]) (call limit) (by omega)
    (UnaryOperator.act_bitNot_of_integer? hx)
  have hor := run_applyBinary_of_result (m := m) (call limit) (by omega)
    (BinaryOperator.Bitwise.bitOr.act_of_integer? (y := .integer (~~~a)) (x := .integer (~~~b))
      rfl rfl)
  rw [hsymbol,
    run_push_unary_bind limit .bitNot (by omega) (UnaryOperator.act_bitNot_of_integer? hy),
    run_push_bind (by omega), Machine.add_add, hsource]
  rw [Machine.add_add, Machine.add_add] at hnot
  exact run_symbol_symbol_of_ok (.unary .bitNot) (.binary .bitOr) hnot hor

theorem run_xor_xor (hy : y.integer? = some a) (hx : x.integer? = some b) :
    EStateM.run (do push y; push x; run limit "^"; push x; run limit "^") m =
      .ok () (m.add [.integer a]) := by
  have hfirst := run_binary_of_result limit .bitXor (m := m) (by omega)
    (BinaryOperator.Bitwise.bitXor.act_of_integer? hy hx)
  have hback := BinaryOperator.Bitwise.bitXor.act_of_integer? (y := .integer (a ^^^ b)) rfl hx
  rw [Integer.xor_xor_cancel] at hback
  have hsecond := Machine.room_add hroom (.integer (a ^^^ b))
  rw [run_push_push hroom]
  refine (run_bind_of_ok hfirst _).trans ?_
  rw [run_push_bind (by omega), Machine.add_add]
  exact run_binary_of_result limit .bitXor (by omega) hback

omit hroom in
theorem run_not_not (hroom : m.stack.size < m.stack.capacity) (hy : y.integer? = some a) :
    EStateM.run (do push y; run limit "~ ~") m = .ok () (m.add [.integer a]) := by
  have hsource : "~ ~" = UnaryOperator.bitNot.symbol ++ " " ++ UnaryOperator.bitNot.symbol := rfl
  have hback := UnaryOperator.act_bitNot_of_integer? (v := .integer (~~~a)) rfl
  rw [Int64.not_not] at hback
  rw [run_push_bind hroom, hsource]
  exact run_unary_unary limit hroom (UnaryOperator.act_bitNot_of_integer? hy) hback

/-- **Bitwise operators are one Boolean algebra on scalars seen as integers.** On every machine with
room for two values, two scalars can be seen as integers by `i`, and of these

* `&`, `|` and `^` make the integer with their bits combined, with and without `i` in front;
* `~` makes the opposite less one;
* `&` and then `~` is `~` on both and then `|`;
* `^` twice with the same scalar, and `~` twice, are no more than `i`.

An operand of any other kind is refused, and both operands are gone. -/
theorem run_bitwise (y x : Value) :
    (y.tag.isScalar = true → x.tag.isScalar = true → ∃ a b : Int64,
      (EStateM.run (do push y; run limit "i") m = .ok () (m.add [.integer a]) ∧
        EStateM.run (do push x; run limit "i") m = .ok () (m.add [.integer b])) ∧
      (∀ op combine f, BinaryOperator.Bitwise op combine f →
        EStateM.run (do push y; push x; run limit op.symbol) m =
          .ok () (m.add [.integer (combine a b)]) ∧
        EStateM.run (do push y; run limit "i"; push x; run limit "i"; run limit op.symbol) m =
          .ok () (m.add [.integer (combine a b)]) ∧
        ∀ k < 64, Integer.bit (combine a b) k = f (Integer.bit a k) (Integer.bit b k)) ∧
      (∃ c : Int64, c.toInt = -a.toInt - 1 ∧
        EStateM.run (do push y; run limit "~") m = .ok () (m.add [.integer c])) ∧
      (∃ c : Int64,
        EStateM.run (do push y; push x; run limit "& ~") m = .ok () (m.add [.integer c]) ∧
        EStateM.run (do push y; run limit "~"; push x; run limit "~ |") m =
          .ok () (m.add [.integer c])) ∧
      EStateM.run (do push y; push x; run limit "^"; push x; run limit "^") m =
        .ok () (m.add [.integer a]) ∧
      EStateM.run (do push y; run limit "~ ~") m = .ok () (m.add [.integer a])) ∧
    (y.tag.isScalar = false ∨ x.tag.isScalar = false →
      ∀ op combine f, BinaryOperator.Bitwise op combine f →
        EStateM.run (do push y; push x; run limit op.symbol) m =
          .error (.binaryMismatch op y.tag x.tag) m) := by
  constructor
  · intro hy hx
    have hone : m.stack.size < m.stack.capacity := by omega
    obtain ⟨a, ha⟩ := Option.isSome_iff_exists.mp (y.isSome_integer?_eq_isScalar.trans hy)
    obtain ⟨b, hb⟩ := Option.isSome_iff_exists.mp (x.isSome_integer?_eq_isScalar.trans hx)
    refine ⟨a, b, ⟨?_, ?_⟩, fun op combine f h => ⟨?_, ?_, fun k _ => h.bit_eq a b k⟩, ?_, ?_,
      run_xor_xor limit hroom ha hb, run_not_not limit hone ha⟩
    · exact run_push_unary limit .toInteger hone (UnaryOperator.act_toInteger_of_integer? ha)
    · exact run_push_unary limit .toInteger hone (UnaryOperator.act_toInteger_of_integer? hb)
    · exact run_bitwise_scalars limit hroom h ha hb
    · exact run_bitwise_integers limit hroom h ha hb
    · exact ⟨~~~a, Integer.toInt_not a,
        run_push_unary limit .bitNot hone (UnaryOperator.act_bitNot_of_integer? ha)⟩
    · refine ⟨~~~(a &&& b), run_and_not limit hroom ha hb, ?_⟩
      rw [run_not_not_or limit hroom ha hb, Integer.not_and_eq]
  · intro hnot op combine f h
    exact run_bitwise_of_not_isScalar limit hroom h hnot

end

/-- A letter and a negative integer, with a full stack in between; a text, even one that writes an
integer. -/
theorem run_bitwise_letter :
    (0 + 2 ≤ 2 ∧ (Value.character 'A').tag.isScalar = true ∧
      (Value.integer (-2)).tag.isScalar = true ∧ (Value.text "7").tag.isScalar = false) ∧
    EStateM.run (do push (.character 'A'); push (.integer (-2)); run 0 "&")
        (.start 2 .empty) =
      .ok () ⟨⟨#[.integer 64], 2⟩, .initial, [], .empty, 0⟩ ∧
    EStateM.run (do push (.character 'A'); push (.text "7"); run 0 "&")
        (.start 2 .empty) =
      .error (.binaryMismatch .bitAnd .character .text) (.start 2 .empty) := by
  have hroom : (Machine.start 2 .empty).stack.size + 2 ≤ 2 := by decide
  obtain ⟨a, b, ⟨hy, hx⟩, hop, -⟩ :=
    (run_bitwise 0 hroom (.character 'A') (.integer (-2))).1 rfl rfl
  have hletter : EStateM.run (do push (.character 'A'); run 0 "i") (.start 2 .empty) =
      .ok () ⟨⟨#[.integer 65], 2⟩, .initial, [], .empty, 0⟩ := by cbv
  have hnegative : EStateM.run (do push (.integer (-2)); run 0 "i") (.start 2 .empty) =
      .ok () ⟨⟨#[.integer (-2)], 2⟩, .initial, [], .empty, 0⟩ := by cbv
  obtain rfl : a = 65 := by
    simpa [Machine.add, Stack.add, Machine.start, Stack.empty] using hy.symm.trans hletter
  obtain rfl : b = -2 := by
    simpa [Machine.add, Stack.add, Machine.start, Stack.empty] using hx.symm.trans hnegative
  have hmismatch := (run_bitwise 0 hroom (.character 'A') (.text "7")).2 (.inr rfl) _ _ _ .bitAnd
  exact ⟨⟨by decide, rfl, rfl, rfl⟩, (hop _ _ _ .bitAnd).1, hmismatch⟩

end Eval

end StackLang
