import StackLang.Real
import StackLang.Value.Tag

/-!
# Values

What a slot of the stack, an element of an array or a variable holds: an integer, a real, a
character, a text, an array of values or a block of program text. A value owns all it consists of.

* `Value.integer?`, `Value.real?`: a value seen as an integer or as a real, where it can be;
* `Value.same`: equality, with reals compared as numbers.
-/

namespace StackLang

/-! ## 1. The type -/

/-- A piece of program that is run when an operator asks for it: the text between the braces. -/
structure Block where
  body : String
  deriving DecidableEq, Repr, Inhabited

/-- A value. -/
inductive Value where
  | integer (n : Int64)
  | real (r : Float)
  | character (c : Char)
  | text (s : String)
  | array (items : List Value)
  | block (b : Block)
  deriving Inhabited

namespace Value

/-- The kind of a value. -/
def tag : Value → Tag
  | .integer _ => .integer
  | .real _ => .real
  | .character _ => .character
  | .text _ => .text
  | .array _ => .array
  | .block _ => .block

@[simp] theorem tag_integer (n : Int64) : (integer n).tag = .integer := rfl
@[simp] theorem tag_real (r : Float) : (real r).tag = .real := rfl
@[simp] theorem tag_character (c : Char) : (character c).tag = .character := rfl
@[simp] theorem tag_text (s : String) : (text s).tag = .text := rfl
@[simp] theorem tag_array (items : List Value) : (array items).tag = .array := rfl
@[simp] theorem tag_block (b : Block) : (block b).tag = .block := rfl

/-- Whether a value is an integer or a real. -/
def isNumeric (v : Value) : Bool :=
  v.tag.isNumeric

/-! ## 2. Views -/

/-- The code point of a character, as an integer. -/
def codePoint (c : Char) : Int64 :=
  Int64.ofInt c.toNat

/-- A scalar seen as an integer: a real is truncated, a character gives its code point. -/
def integer? : Value → Option Int64
  | .integer n => some n
  | .real r => some (Real.truncate r)
  | .character c => some (codePoint c)
  | .text _ | .array _ | .block _ => none

/-- A number seen as a real. -/
def real? : Value → Option Float
  | .integer n => some (Real.ofInteger n)
  | .real r => some r
  | .character _ | .text _ | .array _ | .block _ => none

/-- Exactly the numbers have a real view. -/
theorem isSome_real? (v : Value) : v.real?.isSome = v.isNumeric := by
  cases v <;> rfl

/-! ## 3. Equality -/

mutual

/-- Equality of values. Values of different kinds differ; reals are compared as numbers, so the
two zeros are the same and a value that is not a number differs from itself. -/
def same : Value → Value → Bool
  | .integer m, .integer n => m == n
  | .real q, .real r => q == r
  | .character c, .character d => c == d
  | .text s, .text t => s == t
  | .array items, .array others => sameAll items others
  | .block a, .block b => a.body == b.body
  | _, _ => false

/-- Equality of lists of values: one by one, and of the same length. -/
def sameAll : List Value → List Value → Bool
  | [], [] => true
  | v :: vs, w :: ws => v.same w && sameAll vs ws
  | _, _ => false

end

/-- Equal values are of one kind. -/
theorem tag_eq_of_same {v w : Value} (h : v.same w = true) : v.tag = w.tag := by
  cases v <;> cases w <;> simp_all [same]

end Value

end StackLang
