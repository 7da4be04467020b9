import StackLang.Numeral.Size

/-!
# Reserving memory

A repeated collection is reserved as a whole before it is written. How many bytes a value takes in
an array, and which reservations are granted, is a matter of the memory that a program runs in. Both
are left open here (`Allocator`), so what is stated of programs is stated for every memory. Two
bounds hold in all of them: a number of entries is a size, and the bytes of a reservation can be
counted by a signed integer of 64 bits.
-/

namespace StackLang

/-- The memory in which programs run. -/
class Allocator where
  /-- How many bytes a value takes in an array. -/
  valueBytes : Nat
  /-- Whether a reservation of this many bytes is granted. -/
  grants : Nat → Bool

namespace Allocator

/-- No reservation is larger, two to the power of sixty-three less one. -/
def maxBytes : Nat := 9223372036854775807

/-- Whether a number of entries can be reserved, where each takes the given number of bytes. -/
def Reserves [Allocator] (entryBytes entries : Nat) : Prop :=
  entries < Numeral.sizeBound ∧ entryBytes * entries ≤ maxBytes ∧
    grants (entryBytes * entries) = true

instance [Allocator] (entryBytes entries : Nat) : Decidable (Reserves entryBytes entries) :=
  inferInstanceAs (Decidable (_ ∧ _ ∧ _))

/-- A memory that grants up to a gibibyte at a time. Programs run in it where no other is named. -/
instance standard : Allocator where
  valueBytes := 32
  grants bytes := decide (bytes ≤ 1073741824)

end Allocator

end StackLang
