/-!
# The six kinds of value

Which row of an operator's table applies depends on the kinds of its operands alone. The kinds are
ordered as they are listed here.
-/

namespace StackLang

/-- The kind of a value. -/
inductive Tag where
  | integer
  | real
  | character
  | text
  | array
  | block
  deriving DecidableEq, Repr

namespace Tag

/-- Every kind, in order. -/
def all : List Tag :=
  [.integer, .real, .character, .text, .array, .block]

/-- No kind is missing from the list. -/
theorem mem_all (t : Tag) : t ∈ all := by
  cases t <;> decide

/-- The letter of a kind. -/
def symbol : Tag → Char
  | .integer => 'I'
  | .real => 'R'
  | .character => 'C'
  | .text => 'T'
  | .array => 'A'
  | .block => 'B'

/-- The word for a kind in messages. -/
def name : Tag → String
  | .integer => "integer"
  | .real => "real"
  | .character => "character"
  | .text => "text"
  | .array => "array"
  | .block => "block"

/-- Integers and reals are numbers. -/
def isNumeric : Tag → Bool
  | .integer | .real => true
  | _ => false

/-- The place of a kind in the order. -/
def rank : Tag → Nat
  | .integer => 0
  | .real => 1
  | .character => 2
  | .text => 3
  | .array => 4
  | .block => 5

/-- The order of the kinds is that of their ranks. -/
instance : Ord Tag := ⟨fun a b => compare a.rank b.rank⟩

/-- The list of all kinds is sorted by rank. -/
example : all.map rank = List.range 6 := rfl

end Tag

end StackLang
