import StackLang.Proofs.Tokens.Joining
import StackLang.Proofs.Tokens.Kinds

/-!
# Tokens that name operators and tokens that write values

The symbol of an operator is a token (`Token.lexeme_symbol`). A text between quotes is a token that
writes that text (`Instruction.ofToken?_quoted`), and the numeral of an integer is a token that writes
that integer (`Instruction.ofToken?_integerText`).
-/

namespace StackLang

open StackLang.Numeral (digits integerChars integerText)
open StackLang.Text (isGap)

/-! ## 1. Operators -/

theorem Token.lexeme_symbol (op : Operator) : Lexeme op.symbol.toList := by
  have hsymbols : ∀ op ∈ Operator.all, op.symbol.toList ≠ [] ∧
      op.symbol.toList.any isGap = false ∧ op.symbol.toList.head? ≠ some '"' ∧
      op.symbol.toList.head? ≠ some '\x7b' := by decide
  obtain ⟨hne, hsolid, hquote, hopen⟩ := hsymbols op op.mem_all
  exact .word ⟨hne, fun c hc => Bool.eq_false_iff.mpr (List.any_eq_false.mp hsolid c hc), hquote,
    hopen⟩

/-! ## 2. Quoted texts -/

/-- A text between quotes. -/
def Text.quoted (s : String) : String :=
  "\"" ++ s ++ "\""

@[simp] theorem Text.toList_quoted (s : String) :
    (quoted s).toList = '"' :: (s.toList ++ ['"']) := by
  simp [quoted]

open StackLang.Text (quoted toList_quoted)

theorem Token.lexeme_quoted {s : String} (h : '"' ∉ s.toList) : Lexeme (quoted s).toList := by
  rw [toList_quoted]
  exact .quoted (.enclose h)

theorem Value.ofLiteral?_quoted (s : String) : ofLiteral? (quoted s) = some (.text s) := by
  have hbody : enclosed? '"' '"' (quoted s).toList = some s.toList :=
    enclosed?_eq_some_iff.mpr (toList_quoted s)
  simp only [ofLiteral?, hbody, String.ofList_toList]

theorem Instruction.ofToken?_quoted (s : String) :
    ofToken? (quoted s) = some (.push (.text s)) :=
  ofToken?_of_ofLiteral? (Value.ofLiteral?_quoted s)

/-! ## 3. Integers -/

namespace Numeral

/-- The characters of an integer's numeral. -/
theorem mem_integerChars {n : Int64} {c : Char} (h : c ∈ integerChars n) :
    c = '-' ∨ c.isDigit = true := by
  unfold integerChars at h
  split at h
  · rcases List.mem_cons.mp h with rfl | hdigit
    · exact .inl rfl
    · exact .inr (isDigit_of_mem_digits hdigit)
  · exact .inr (isDigit_of_mem_digits h)

theorem not_mem_integerChars {c : Char} (hminus : c ≠ '-') (hdigit : c.isDigit = false)
    (n : Int64) : c ∉ integerChars n := by
  intro hmem
  rcases mem_integerChars hmem with heq | hmem
  · exact hminus heq
  · rw [hdigit] at hmem
    cases hmem

theorem integerChars_ne_nil (n : Int64) : integerChars n ≠ [] := by
  unfold integerChars
  split
  · exact List.cons_ne_nil _ _
  · exact Nat.toDigits_ne_nil

end Numeral

theorem Token.lexeme_integerText (n : Int64) : Lexeme (integerText n).toList := by
  rw [integerText, String.toList_ofList]
  refine .word ⟨Numeral.integerChars_ne_nil n, fun d hd => ?_, fun hhead => ?_, fun hhead => ?_⟩
  · cases hgap : isGap d with
    | false => rfl
    | true =>
      simp only [isGap, Bool.or_eq_true, decide_eq_true_eq] at hgap
      rcases hgap with (((rfl | rfl) | rfl) | rfl) | rfl <;>
        exact absurd hd (Numeral.not_mem_integerChars (by decide) rfl n)
  · exact Numeral.not_mem_integerChars (by decide) rfl n (List.mem_of_head? hhead)
  · exact Numeral.not_mem_integerChars (by decide) rfl n (List.mem_of_head? hhead)

theorem Value.ofLiteral?_integerText (n : Int64) :
    ofLiteral? (integerText n) = some (.integer n) := by
  -- a numeral begins with none of the marks that enclose something
  have hnone : ∀ first last : Char, first ∉ integerChars n →
      enclosed? first last (integerText n).toList = none := by
    intro first last hfirst
    rw [Option.eq_none_iff_forall_ne_some]
    intro body hbody
    rw [integerText, String.toList_ofList, enclosed?_eq_some_iff] at hbody
    exact hfirst (hbody ▸ List.mem_cons_self)
  have hquote := hnone '"' '"' (Numeral.not_mem_integerChars (by decide) rfl n)
  have hbrace := hnone '\x7b' '\x7d' (Numeral.not_mem_integerChars (by decide) rfl n)
  have hpoint : '.' ∉ integerChars n := Numeral.not_mem_integerChars (by decide) rfl n
  simp only [ofLiteral?, hquote, hbrace]
  rw [integerText, String.toList_ofList, ofNumeral?, if_neg hpoint, Numeral.integer?_integerChars,
    Option.map_some]

theorem Instruction.ofToken?_integerText (n : Int64) :
    ofToken? (integerText n) = some (.push (.integer n)) :=
  ofToken?_of_ofLiteral? (Value.ofLiteral?_integerText n)

end StackLang
