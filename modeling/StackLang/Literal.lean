import StackLang.Numeral.Integer
import StackLang.Numeral.Real
import StackLang.Text.Blank
import StackLang.Value.Basic

/-!
# Literals: tokens that write a value

* Between two quotes stands a text, taken as it is.
* Between two braces stands a block; blanks at the ends of its body do not belong to it.
* Any other token is a numeral: with a point it writes a real, without one an integer.

A single quote or a single brace encloses nothing and is no numeral either.
-/

namespace StackLang

open StackLang.Text (trimChars)

/-- What stands between two marks at the ends of a list. -/
def enclosed? (first last : Char) : List Char → Option (List Char)
  | [] => none
  | c :: cs => if c = first ∧ cs.getLast? = some last then some cs.dropLast else none

/-- Exactly the lists with both marks enclose something. -/
theorem enclosed?_eq_some_iff {first last : Char} {cs body : List Char} :
    enclosed? first last cs = some body ↔ cs = first :: (body ++ [last]) := by
  cases cs with
  | nil => simp [enclosed?]
  | cons c cs =>
    simp only [enclosed?, List.cons.injEq]
    constructor
    · intro h
      split at h
      case isTrue hc =>
        obtain ⟨init, rfl⟩ := List.getLast?_eq_some_iff.1 hc.2
        simp only [List.dropLast_concat, Option.some.injEq] at h
        exact ⟨hc.1, by rw [h]⟩
      case isFalse => simp at h
    · rintro ⟨rfl, rfl⟩
      simp

namespace Value

/-- The value that a list of characters writes, enclosed in nothing. -/
def ofNumeral? (cs : List Char) : Option Value :=
  if '.' ∈ cs then (Numeral.real? cs).map .real else (Numeral.integer? cs).map .integer

/-- The value that a token writes. -/
def ofLiteral? (token : String) : Option Value :=
  let cs := token.toList
  match enclosed? '"' '"' cs with
  | some body => some (.text (String.ofList body))
  | none =>
    match enclosed? '\x7b' '\x7d' cs with
    | some body => some (.block ⟨String.ofList (trimChars body)⟩)
    | none => ofNumeral? cs

end Value

end StackLang
