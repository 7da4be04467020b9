import StackLang.Instruction

/-!
# Kinds of tokens

A token means something in one of four ways: it names an operator, it stores into a variable, it
loads a variable that has a value, or it writes a value. The characters of a token leave one of these
ways to it, whatever the variables hold (`TokenKind.of`): a literal has a character that no other
such token has (`Text.marksLiteral`), a variable is named by a capital letter, and of these tokens
only the stores have a colon.

So no token means something in two ways (`TokenKind.eq_of_isSome`), and to ask for the ways in
another order makes no difference (`TokenKind.findSome?_instruction?`).
-/

namespace StackLang

/-! ## 1. The four kinds -/

/-- The ways in which a token can mean something. -/
inductive TokenKind where
  | operator
  | store
  | load
  | literal
  deriving DecidableEq, Repr

/-- What a token asks for if it is taken as one of a kind, where it can be. To load a variable is to
push the value that it has. -/
def TokenKind.instruction? (vars : Variables) (token : String) : TokenKind → Option Instruction
  | operator => (Operator.ofToken? token).map .apply
  | store => (storeTarget? token).map .store
  | load => (vars.lookup token).map .push
  | literal => (Value.ofLiteral? token).map .push

/-- The characters of which every literal has one: the marks that open a text or a block, the point
and the digits. -/
def Text.marksLiteral (c : Char) : Bool :=
  c == '"' || c == '\x7b' || c == '.' || c.isDigit

open StackLang.Text (marksLiteral)

/-- The kind that the characters of a token leave to it. -/
def TokenKind.of (token : String) : TokenKind :=
  if token.toList.any marksLiteral then literal
  else if token.toList.any Char.isUpper then
    if ':' ∈ token.toList then store else load
  else operator

/-! ## 2. Literals have a mark -/

namespace Numeral

variable {cs : List Char}

theorem exists_isDigit_of_natural? {n : Nat} (h : natural? cs = some n) :
    ∃ c ∈ cs, c.isDigit = true := by
  unfold natural? at h
  split at h
  case isTrue hdigits =>
    obtain ⟨hne, hall⟩ := Bool.and_eq_true_iff.mp hdigits
    obtain ⟨c, rest, rfl⟩ := List.exists_cons_of_ne_nil (l := cs) (by simpa using hne)
    exact ⟨c, List.mem_cons_self, List.all_eq_true.mp hall c List.mem_cons_self⟩
  case isFalse => cases h

/-- A sign alone is no numeral. -/
theorem exists_isDigit_of_integer? {n : Int64} (h : integer? cs = some n) :
    ∃ c ∈ cs, c.isDigit = true := by
  unfold integer? at h
  split at h
  case h_1 ds | h_2 ds =>
    obtain ⟨k, hk, -⟩ := Option.bind_eq_some_iff.mp h
    obtain ⟨c, hmem, hdigit⟩ := exists_isDigit_of_natural? hk
    exact ⟨c, List.mem_cons_of_mem _ hmem, hdigit⟩
  case h_3 ds _ _ =>
    obtain ⟨k, hk, -⟩ := Option.bind_eq_some_iff.mp h
    exact exists_isDigit_of_natural? hk

end Numeral

namespace Value

variable {v : Value}

theorem exists_marksLiteral_of_ofNumeral? {cs : List Char} (h : ofNumeral? cs = some v) :
    ∃ c ∈ cs, marksLiteral c = true := by
  unfold ofNumeral? at h
  split at h
  case isTrue hpoint => exact ⟨'.', hpoint, rfl⟩
  case isFalse =>
    obtain ⟨n, hn, -⟩ := Option.map_eq_some_iff.mp h
    obtain ⟨c, hmem, hdigit⟩ := Numeral.exists_isDigit_of_integer? hn
    exact ⟨c, hmem, by rw [marksLiteral, hdigit, Bool.or_true]⟩

theorem exists_marksLiteral {token : String} (h : ofLiteral? token = some v) :
    ∃ c ∈ token.toList, marksLiteral c = true := by
  simp only [ofLiteral?] at h
  split at h
  next body hquote =>
    rw [enclosed?_eq_some_iff.mp hquote]
    exact ⟨'"', List.mem_cons_self, rfl⟩
  next =>
    split at h
    next body hbrace =>
      rw [enclosed?_eq_some_iff.mp hbrace]
      exact ⟨'\x7b', List.mem_cons_self, rfl⟩
    next => exact exists_marksLiteral_of_ofNumeral? h

end Value

/-! ## 3. Letters are no marks -/

namespace Text

variable {c : Char}

/-- The digits end before the letters begin. -/
theorem isDigit_of_isUpper (h : c.isUpper = true) : c.isDigit = false := by
  refine Bool.eq_false_iff.mpr fun hdigit => ?_
  have hnine : c.val ≤ '9'.val := of_decide_eq_true (Bool.and_eq_true_iff.mp hdigit).2
  have hletter : 'A'.val ≤ c.val := (of_decide_eq_true h).1
  exact absurd (UInt32.le_trans hletter hnine) (by decide)

theorem marksLiteral_of_isUpper (h : c.isUpper = true) : marksLiteral c = false := by
  simp only [marksLiteral, isDigit_of_isUpper h, Bool.or_false, Bool.or_eq_false_iff,
    beq_eq_false_iff_ne]
  refine ⟨⟨?_, ?_⟩, ?_⟩ <;>
  · rintro rfl
    cases h

end Text

/-! ## 4. A token is of one kind -/

namespace TokenKind

variable {token : String} {vars : Variables} {kind : TokenKind}

theorem of_operator {op : Operator} (h : Operator.ofToken? token = some op) :
    of token = operator := by
  have hsymbols : ∀ op ∈ Operator.all, of op.symbol = operator := by decide
  rw [← Operator.ofToken?_eq_some_iff.mp h]
  exact hsymbols op op.mem_all

theorem of_store {name : Char} (h : storeTarget? token = some name) : of token = store := by
  obtain ⟨hupper, hchars⟩ := storeTarget?_eq_some_iff.mp h
  have hmark : marksLiteral ':' = false := by decide
  simp [of, hchars, hupper, hmark, Text.marksLiteral_of_isUpper hupper]

theorem of_load {name : Char} (h : variableName? token = some name) : of token = load := by
  obtain ⟨hupper, hchars⟩ := variableName?_eq_some_iff.mp h
  have hcolon : ':' ≠ name := by
    rintro rfl
    cases hupper
  simp [of, hchars, hupper, hcolon, Text.marksLiteral_of_isUpper hupper]

theorem of_literal {v : Value} (h : Value.ofLiteral? token = some v) : of token = literal := by
  rw [of, if_pos (List.any_eq_true.mpr (Value.exists_marksLiteral h))]

/-- **A token means nothing but as one of its own kind.** -/
theorem eq_of_isSome (h : (kind.instruction? vars token).isSome) : kind = of token := by
  obtain ⟨i, hi⟩ := Option.isSome_iff_exists.mp h
  cases kind with
  | operator =>
    obtain ⟨op, hop, -⟩ := Option.map_eq_some_iff.mp hi
    exact (of_operator hop).symm
  | store =>
    obtain ⟨name, hname, -⟩ := Option.map_eq_some_iff.mp hi
    exact (of_store hname).symm
  | load =>
    obtain ⟨v, hv, -⟩ := Option.map_eq_some_iff.mp hi
    obtain ⟨name, hname, -⟩ := Option.bind_eq_some_iff.mp hv
    exact (of_load hname).symm
  | literal =>
    obtain ⟨v, hv, -⟩ := Option.map_eq_some_iff.mp hi
    exact (of_literal hv).symm

theorem instruction?_eq_none (h : kind ≠ of token) : kind.instruction? vars token = none :=
  Option.not_isSome_iff_eq_none.mp (mt eq_of_isSome h)

/-- Whichever kinds are asked for first, a token is taken as one of its own kind. -/
theorem findSome?_instruction? {order : List TokenKind} (h : of token ∈ order) :
    order.findSome? (instruction? vars token) = (of token).instruction? vars token := by
  cases hfound : order.findSome? (instruction? vars token) with
  | none => exact (List.findSome?_eq_none_iff.mp hfound (of token) h).symm
  | some i =>
    obtain ⟨kind, -, hi⟩ := List.exists_of_findSome?_eq_some hfound
    rw [← eq_of_isSome (Option.isSome_of_eq_some hi), hi]

end TokenKind

/-- **A token that writes a value stands for nothing else.** -/
theorem Instruction.ofToken?_of_ofLiteral? {token : String} {v : Value}
    (h : Value.ofLiteral? token = some v) : ofToken? token = some (.push v) := by
  have hkind := TokenKind.of_literal h
  have hop : Operator.ofToken? token = none := by
    rw [Option.eq_none_iff_forall_ne_some]
    intro op hop
    rw [TokenKind.of_operator hop] at hkind
    cases hkind
  have hstore : storeTarget? token = none := by
    rw [Option.eq_none_iff_forall_ne_some]
    intro name hstore
    rw [TokenKind.of_store hstore] at hkind
    cases hkind
  have hload : variableName? token = none := by
    rw [Option.eq_none_iff_forall_ne_some]
    intro name hload
    rw [TokenKind.of_load hload] at hkind
    cases hkind
  simp only [ofToken?, hop, hstore, hload, h, Option.map_some]

end StackLang
