/-!
# Blank characters and trimming

Two classes of blank character, and they differ on purpose:

* `isGap`: the five ASCII characters that separate the tokens of a program;
* `isBlank`: the white space of the Unicode standard, which is cut from the ends of a block's
  body and of a numeral inside a text.

Every gap is blank (`isBlank_of_isGap`); a vertical tab or a no-break space is blank and no gap,
so it may stand inside a word.
-/

namespace StackLang.Text

/-! ## 1. The two classes -/

/-- Separates two tokens: tab, line feed, form feed, carriage return or space. -/
def isGap (c : Char) : Bool :=
  c = ' ' || c = '\t' || c = '\n' || c = '\x0c' || c = '\r'

/-- Has the property White_Space of the Unicode standard. -/
def isBlank (c : Char) : Bool :=
  let n := c.toNat
  (0x09 ≤ n && n ≤ 0x0D) || n = 0x20 || n = 0x85 || n = 0xA0 || n = 0x1680
    || (0x2000 ≤ n && n ≤ 0x200A) || n = 0x2028 || n = 0x2029 || n = 0x202F || n = 0x205F
    || n = 0x3000

/-- What separates tokens is also cut at the ends of a text. -/
theorem isBlank_of_isGap {c : Char} (h : isGap c = true) : isBlank c = true := by
  simp only [isGap, Bool.or_eq_true, decide_eq_true_eq] at h
  rcases h with (((rfl | rfl) | rfl) | rfl) | rfl <;> rfl

/-- A vertical tab is blank and separates nothing. -/
example : isGap '\x0b' = false ∧ isBlank '\x0b' = true := ⟨rfl, rfl⟩

/-! ## 2. Trimming -/

/-- The characters without the blanks at their two ends. -/
def trimChars (cs : List Char) : List Char :=
  ((cs.dropWhile isBlank).reverse.dropWhile isBlank).reverse

/-- The text without the blanks at its two ends. -/
def trim (s : String) : String :=
  String.ofList (trimChars s.toList)

@[simp] theorem trimChars_nil : trimChars [] = [] := rfl

/-- A list whose two ends are no blanks is its own trim. -/
theorem trimChars_eq_self {cs : List Char}
    (hhead : ∀ c ∈ cs.head?, isBlank c = false) (hlast : ∀ c ∈ cs.getLast?, isBlank c = false) :
    trimChars cs = cs := by
  have drop_self : ∀ {l : List Char}, (∀ c ∈ l.head?, isBlank c = false) →
      l.dropWhile isBlank = l
    | [], _ => rfl
    | c :: l, h => by simp [h c (by simp)]
  rw [trimChars, drop_self hhead, drop_self (by simpa using hlast), List.reverse_reverse]

end StackLang.Text
