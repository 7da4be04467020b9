/-!
# The characters in a ring

Every character has a neighbour on either side. The neighbours follow the code points, pass over
the surrogates, which are no characters, and join the last character to the first.

Main statements: `previous_next` and `next_previous`, the two ways are inverse.
-/

namespace StackLang.Text

/-- The code point after that of a character, in the ring. -/
def nextCode (n : Nat) : Nat :=
  if n = 0x10FFFF then 0 else if n = 0xD7FF then 0xE000 else n + 1

/-- The code point before that of a character, in the ring. -/
def previousCode (n : Nat) : Nat :=
  if n = 0 then 0x10FFFF else if n = 0xE000 then 0xD7FF else n - 1

/-- The character after another. -/
def next (c : Char) : Char :=
  Char.ofNat (nextCode c.toNat)

/-- The character before another. -/
def previous (c : Char) : Char :=
  Char.ofNat (previousCode c.toNat)

theorem isValidChar_toNat (c : Char) : c.toNat.isValidChar := c.valid

theorem toNat_ofNat_of_isValidChar {n : Nat} (h : n.isValidChar) : (Char.ofNat n).toNat = n := by
  rw [Char.ofNat, dif_pos h]
  rfl

theorem isValidChar_nextCode {n : Nat} (h : n.isValidChar) : (nextCode n).isValidChar := by
  unfold Nat.isValidChar at *
  unfold nextCode
  split
  · omega
  · split <;> omega

theorem isValidChar_previousCode {n : Nat} (h : n.isValidChar) : (previousCode n).isValidChar := by
  unfold Nat.isValidChar at *
  unfold previousCode
  split
  · omega
  · split <;> omega

theorem toNat_next (c : Char) : (next c).toNat = nextCode c.toNat :=
  toNat_ofNat_of_isValidChar (isValidChar_nextCode (isValidChar_toNat c))

theorem toNat_previous (c : Char) : (previous c).toNat = previousCode c.toNat :=
  toNat_ofNat_of_isValidChar (isValidChar_previousCode (isValidChar_toNat c))

theorem previousCode_nextCode {n : Nat} (h : n.isValidChar) : previousCode (nextCode n) = n := by
  unfold Nat.isValidChar at h
  unfold nextCode
  split
  · simp_all [previousCode]
  · split
    · simp_all [previousCode]
    · unfold previousCode
      split
      · omega
      · split <;> omega

theorem nextCode_previousCode {n : Nat} (h : n.isValidChar) : nextCode (previousCode n) = n := by
  unfold Nat.isValidChar at h
  unfold previousCode
  split
  · simp_all [nextCode]
  · split
    · simp_all [nextCode]
    · unfold nextCode
      split
      · omega
      · split <;> omega

@[simp] theorem previous_next (c : Char) : previous (next c) = c := by
  rw [previous, toNat_next, previousCode_nextCode (isValidChar_toNat c), Char.ofNat_toNat]

@[simp] theorem next_previous (c : Char) : next (previous c) = c := by
  rw [next, toNat_previous, nextCode_previousCode (isValidChar_toNat c), Char.ofNat_toNat]

end StackLang.Text
