import StackLang.Proofs.Tokens.Trimming
import StackLang.Proofs.ValueSource

/-!
# Conversions there and back

The text of an integer is its decimal numeral, the one that the standard library writes
(`Numeral.integerText_eq`). It reads back to the same integer, alone as a token and inside a text
with any blanks around it, because no blank is part of a numeral (`Numeral.trimmed_integerChars`).

A character goes to its code point and back. Among the integers exactly the code points of
characters come from a character (`Value.exists_codePoint_iff`), however large the others are; they
are refused by name.

Main statement: `Eval.run_conversions`.
-/

namespace StackLang

open StackLang.Text (isBlank Blank Trimmed)

/-! ## 1. Numerals -/

namespace Numeral

/-- An integer is written as the standard library writes it. -/
theorem integerText_eq (n : Int64) : integerText n = toString n.toInt := by
  rw [integerText, integerChars]
  cases n.toInt with
  | ofNat k => rfl
  | negSucc k =>
    rw [if_pos (Int.negSucc_lt_zero k), ← String.toList_inj]
    show _ = ("-" ++ Nat.repr (k + 1)).toList
    simp only [String.toList_append, Nat.repr, String.toList_ofList, Int.natAbs_negSucc]
    rfl

theorem isBlank_of_isDigit {c : Char} (h : c.isDigit = true) : isBlank c = false := by
  have hdigit : 48 ≤ c.toNat ∧ c.toNat ≤ 57 := by
    simpa [Char.isDigit, UInt32.le_iff_toNat_le] using h
  simp only [isBlank, Bool.or_eq_false_iff, Bool.and_eq_false_iff, decide_eq_false_iff_not]
  omega

/-- A numeral neither begins nor ends with a blank, since there is none in it. -/
theorem trimmed_integerChars (n : Int64) : Trimmed (integerChars n) := by
  have hsolid : ∀ c ∈ integerChars n, isBlank c = false := by
    intro c hc
    rcases mem_integerChars hc with rfl | hdigit
    · rfl
    · exact isBlank_of_isDigit hdigit
  exact ⟨fun c hc => hsolid c (List.mem_of_mem_head? hc),
    fun c hc => hsolid c (List.mem_of_mem_getLast? hc)⟩

end Numeral

/-! ## 2. Code points -/

/-- The code points of characters: all up to the last one, the surrogates apart. -/
def Text.IsScalarValue (n : Int) : Prop :=
  (0 ≤ n ∧ n ≤ 0xD7FF) ∨ (0xE000 ≤ n ∧ n ≤ 0x10FFFF)

instance (n : Int) : Decidable (Text.IsScalarValue n) :=
  inferInstanceAs (Decidable (_ ∨ _))

open StackLang.Text (IsScalarValue)

theorem Text.isScalarValue_iff (n : Int) : IsScalarValue n ↔ 0 ≤ n ∧ n.toNat.isValidChar := by
  unfold IsScalarValue Nat.isValidChar
  omega

namespace Value

/-- The integers that are code points, whatever their other 32 bits are. -/
theorem exists_codePoint_iff (n : Int64) : (∃ c, codePoint c = n) ↔ IsScalarValue n.toInt := by
  rw [Text.isScalarValue_iff]
  constructor
  · rintro ⟨c, rfl⟩
    rw [toInt_codePoint, Int.toNat_natCast]
    exact ⟨Int.natCast_nonneg _, Text.isValidChar_toNat c⟩
  · intro ⟨hpos, hvalid⟩
    refine ⟨Char.ofNat n.toInt.toNat, Int64.toInt_inj.mp ?_⟩
    rw [toInt_codePoint, Text.toNat_ofNat_of_isValidChar hvalid, Int.toNat_of_nonneg hpos]

end Value

/-! ## 3. The operators -/

namespace UnaryOperator

theorem act_toText_integer (n : Int64) :
    toText.act (.integer n) = .ok (.result (.text (toString n.toInt))) := by
  rw [← Numeral.integerText_eq, ← Value.render_integer]
  rfl

/-- Blanks around a numeral do not matter. -/
theorem act_toInteger_numeral (n : Int64) {front back : String} (hfront : Blank front.toList)
    (hback : Blank back.toList) :
    toInteger.act (.text (front ++ toString n.toInt ++ back)) = .ok (.result (.integer n)) := by
  have hchars : Text.trimChars (front ++ toString n.toInt ++ back).toList =
      Numeral.integerChars n := by
    rw [← Numeral.integerText_eq, String.toList_append, String.toList_append, List.append_assoc,
      Numeral.integerText, String.toList_ofList,
      (Numeral.trimmed_integerChars n).trimChars_append hfront hback]
  show (toIntegerValue _).map Action.result = _
  simp only [toIntegerValue, hchars, Numeral.integer?_integerChars]
  rfl

/-- A scalar is seen as an integer. -/
theorem act_toInteger_of_integer? {v : Value} {n : Int64} (h : v.integer? = some n) :
    toInteger.act v = .ok (.result (.integer n)) := by
  cases v with
  | integer | real | character =>
    cases h
    rfl
  | text | array | block => cases h

theorem act_toCharacter_of_not {n : Int64} (h : ¬IsScalarValue n.toInt) :
    toCharacter.act (.integer n) = .error (.invalidCharacter n) := by
  rw [Text.isScalarValue_iff] at h
  show (characterOf n).map Action.result = _
  rw [characterOf, if_neg h]
  rfl

end UnaryOperator

/-! ## 4. On a machine -/

namespace Eval

variable {m : Machine}

/-- One conversion after another. -/
theorem run_unary_unary [Allocator] (limit : Nat) {op op' : UnaryOperator} {v w u : Value}
    (hroom : m.stack.size < m.stack.capacity) (hfirst : op.act v = .ok (.result w))
    (hsecond : op'.act w = .ok (.result u)) :
    EStateM.run (run limit (op.symbol ++ " " ++ op'.symbol)) (m.add [v]) =
      .ok () (m.add [u]) :=
  run_symbol_symbol_of_ok (.unary op) (.unary op')
    (run_applyUnary_of_result _ hroom hfirst) (run_applyUnary_of_result _ hroom hsecond)

/-- **Conversions go there and back.** On every machine with room for one value,

* an integer becomes the text of its decimal numeral; this text, with any blanks around it, becomes
  the integer again, and as a token the numeral pushes the integer;
* a character becomes its code point, and this becomes the character again;
* an integer becomes a character exactly if it is the code point of one, and this becomes the integer
  again; every other integer is refused as no character, and it is gone. -/
theorem run_conversions [Allocator] (limit : Nat) (hroom : m.stack.size < m.stack.capacity) :
    (∀ n : Int64,
      EStateM.run (run limit "s") (m.add [.integer n]) =
        .ok () (m.add [.text (toString n.toInt)]) ∧
      EStateM.run (run limit "s i") (m.add [.integer n]) = .ok () (m.add [.integer n]) ∧
      (∀ front back : String, Blank front.toList → Blank back.toList →
        EStateM.run (run limit "i") (m.add [.text (front ++ toString n.toInt ++ back)]) =
          .ok () (m.add [.integer n])) ∧
      EStateM.run (dispatch (call limit) (toString n.toInt)) m = .ok () (m.add [.integer n])) ∧
    (∀ c : Char, EStateM.run (run limit "i c") (m.add [.character c]) =
      .ok () (m.add [.character c])) ∧
    ∀ n : Int64,
      if IsScalarValue n.toInt then
        (∃ c : Char, c.toNat = n.toInt ∧
          EStateM.run (run limit "c") (m.add [.integer n]) = .ok () (m.add [.character c])) ∧
        EStateM.run (run limit "c i") (m.add [.integer n]) = .ok () (m.add [.integer n])
      else
        EStateM.run (run limit "c") (m.add [.integer n]) = .error (.invalidCharacter n) m := by
  have hcode : ∀ c, UnaryOperator.toInteger.act (.character c) =
      .ok (.result (.integer (Value.codePoint c))) :=
    fun c => UnaryOperator.act_toInteger_of_integer? rfl
  refine ⟨fun n => ⟨?_, ?_, fun front back hfront hback => ?_, ?_⟩, fun c => ?_, fun n => ?_⟩
  · exact run_unary_of_result limit .toText hroom (UnaryOperator.act_toText_integer n)
  · have hsource : "s i" = UnaryOperator.toText.symbol ++ " " ++ UnaryOperator.toInteger.symbol :=
      rfl
    have hnone : Blank "".toList := nofun
    have hback := UnaryOperator.act_toInteger_numeral n hnone hnone
    rw [String.empty_append, String.append_empty] at hback
    rw [hsource, run_unary_unary limit hroom (UnaryOperator.act_toText_integer n) hback]
  · exact run_unary_of_result limit .toInteger hroom
      (UnaryOperator.act_toInteger_numeral n hfront hback)
  · rw [← Numeral.integerText_eq, dispatch_of_some _ (Instruction.ofToken?_integerText n)]
    exact run_push_of_lt hroom _
  · have hsource : "i c" =
        UnaryOperator.toInteger.symbol ++ " " ++ UnaryOperator.toCharacter.symbol := rfl
    rw [hsource, run_unary_unary limit hroom (hcode c) (UnaryOperator.act_toCharacter_codePoint c)]
  · split
    case isTrue hscalar =>
      obtain ⟨c, rfl⟩ := (Value.exists_codePoint_iff n).mpr hscalar
      have hsource : "c i" =
          UnaryOperator.toCharacter.symbol ++ " " ++ UnaryOperator.toInteger.symbol := rfl
      have hcharacter := UnaryOperator.act_toCharacter_codePoint c
      refine ⟨⟨c, (Value.toInt_codePoint c).symm, ?_⟩, ?_⟩
      · exact run_unary_of_result limit .toCharacter hroom hcharacter
      · rw [hsource, run_unary_unary limit hroom hcharacter (hcode c)]
    case isFalse hscalar =>
      exact run_unary_of_error limit .toCharacter (UnaryOperator.act_toCharacter_of_not hscalar) m

/-- The least integer as a text with a no-break space and a line feed around it; the last character;
and an integer that would be a letter without its upper 32 bits. -/
theorem run_conversions_least :
    (0 < 1 ∧ Blank "\u00a0".toList ∧ Blank "\n".toList) ∧
    EStateM.run (run 0 "i")
        ⟨⟨#[.text "\u00a0-9223372036854775808\n"], 1⟩, .initial, [], .empty, 0⟩ =
      .ok () ⟨⟨#[.integer Int64.minValue], 1⟩, .initial, [], .empty, 0⟩ ∧
    EStateM.run (run 0 "c i") ⟨⟨#[.integer 0x10FFFF], 1⟩, .initial, [], .empty, 0⟩ =
      .ok () ⟨⟨#[.integer 0x10FFFF], 1⟩, .initial, [], .empty, 0⟩ ∧
    EStateM.run (run 0 "c") ⟨⟨#[.integer 4294967361], 1⟩, .initial, [], .empty, 0⟩ =
      .error (.invalidCharacter 4294967361) ⟨⟨#[], 1⟩, .initial, [], .empty, 0⟩ := by
  have hfront : Blank "\u00a0".toList := by simp [Blank, isBlank]
  have hback : Blank "\n".toList := by simp [Blank, isBlank]
  obtain ⟨hnumerals, -, hcodes⟩ := run_conversions 0
    (m := ⟨⟨#[], 1⟩, .initial, [], .empty, 0⟩) Nat.zero_lt_one
  have hlast := hcodes 0x10FFFF
  rw [if_pos (by decide)] at hlast
  have hlarge := hcodes 4294967361
  rw [if_neg (by decide)] at hlarge
  exact ⟨⟨Nat.zero_lt_one, hfront, hback⟩,
    (hnumerals Int64.minValue).2.2.1 "\u00a0" "\n" hfront hback, hlast.2, hlarge⟩

end Eval

end StackLang
