/-!
# Finding and splitting

Search for one list of characters inside another, always for the leftmost place, and the division
of a text at every place found. Positions count characters, never bytes.

* `indexOf? needle hay`: the first position at which `needle` stands in `hay`;
* `pieces separator text`: the parts between the separators, found from left to right without
  overlap; an empty separator divides a text into its single characters.
-/

namespace StackLang.Text

/-! ## 1. Search -/

/-- The first position at which `needle` stands in `hay`, counted from `index`. -/
def indexFrom? (needle : List Char) (index : Nat) : List Char → Option Nat
  | [] => if needle.isEmpty then some index else none
  | c :: hay =>
    if needle.isPrefixOf (c :: hay) then some index else indexFrom? needle (index + 1) hay

/-- The first position at which `needle` stands in `hay`. -/
def indexOf? (needle hay : List Char) : Option Nat :=
  indexFrom? needle 0 hay

/-- The empty text is found at once. -/
@[simp] theorem indexOf?_nil (hay : List Char) : indexOf? [] hay = some 0 := by
  cases hay <;> rfl

/-! ## 2. Division -/

/-- The pieces of `text` between its separators. `piece` holds the characters of the piece being
read, last first; `skip` counts the characters of a separator that are still to be passed. -/
def piecesFrom (separator : List Char) (piece : List Char) : Nat → List Char → List (List Char)
  | _, [] => [piece.reverse]
  | skip + 1, _ :: text => piecesFrom separator piece skip text
  | 0, c :: text =>
    if separator.isPrefixOf (c :: text) then
      piece.reverse :: piecesFrom separator [] (separator.length - 1) text
    else
      piecesFrom separator (c :: piece) 0 text

/-- The pieces of `text` between its separators; an empty separator stands between any two
characters and at no end. -/
def pieces (separator text : List Char) : List (List Char) :=
  match separator with
  | [] => text.map fun c => [c]
  | _ :: _ => piecesFrom separator [] 0 text

@[simp] theorem pieces_nil (text : List Char) : pieces [] text = text.map fun c => [c] := rfl

/-- A text without a character is one empty piece under every real separator. -/
theorem pieces_cons_nil (c : Char) (separator : List Char) : pieces (c :: separator) [] = [[]] :=
  rfl

end StackLang.Text
