import StackLang.Allocator
import StackLang.Fault
import StackLang.Value.Basic

/-!
# Repetition of arrays and texts

A collection is written several times, one copy behind the other. A count of zero or less gives
the empty collection, and so does any count of an empty one. Otherwise the whole result is reserved
before it is written, an array in values and a text in bytes; where it cannot be reserved there is
no result.
-/

namespace StackLang

namespace Repetition

/-- How often a count asks for a copy. -/
def copies (count : Int64) : Nat :=
  count.toInt.toNat

/-- A count that is not positive asks for no copy. -/
theorem copies_eq_zero {count : Int64} (h : count.toInt ≤ 0) : copies count = 0 := by
  unfold copies
  omega

theorem join_replicate_empty (n : Nat) : String.join (List.replicate n "") = "" := by
  rw [← String.toList_inj]
  simp

variable [Allocator]

/-- Whether the given number of copies can be made of a collection of the given size, where each of
its entries takes the given number of bytes. An empty result needs no reservation. -/
def Allowed (entryBytes size copies : Nat) : Prop :=
  size * copies = 0 ∨ Allocator.Reserves entryBytes (size * copies)

instance (entryBytes size copies : Nat) : Decidable (Allowed entryBytes size copies) :=
  inferInstanceAs (Decidable (_ ∨ _))

/-- A list, copied. -/
def items (vs : List Value) (count : Int64) : Except Fault (List Value) :=
  if vs.isEmpty ∨ copies count = 0 then
    .ok []
  else if Allocator.Reserves Allocator.valueBytes (vs.length * copies count) then
    .ok (List.replicate (copies count) vs).flatten
  else
    .error (.integerOverflow .repetition)

/-- A text, copied. Its size is counted in bytes. -/
def text (s : String) (count : Int64) : Except Fault String :=
  if s.isEmpty ∨ copies count = 0 then
    .ok ""
  else if Allocator.Reserves 1 (s.utf8ByteSize * copies count) then
    .ok (String.join (List.replicate (copies count) s))
  else
    .error (.integerOverflow .repetition)

/-- It is the size of the result alone that matters. -/
theorem allowed_congr {entryBytes size size' n n' : Nat} (h : size * n = size' * n') :
    Allowed entryBytes size n ↔ Allowed entryBytes size' n' := by
  rw [Allowed, Allowed, h]

/-- A test for an empty result in front changes nothing where the copies amount to the same. -/
theorem ite_empty {α : Type} {entryBytes size n : Nat} {isEmpty : Bool} {empty copied : α}
    {fault : Fault} (hsize : isEmpty = true ↔ size = 0)
    (hcopied : isEmpty = true ∨ n = 0 → copied = empty) :
    (if isEmpty = true ∨ n = 0 then Except.ok empty
      else if Allocator.Reserves entryBytes (size * n) then .ok copied else .error fault) =
      if Allowed entryBytes size n then .ok copied else .error fault := by
  have hzero : isEmpty = true ∨ n = 0 ↔ size * n = 0 := by rw [hsize, Nat.mul_eq_zero]
  by_cases hempty : isEmpty = true ∨ n = 0
  · have hallowed : Allowed entryBytes size n := .inl (hzero.mp hempty)
    rw [if_pos hempty, if_pos hallowed, hcopied hempty]
  · have hallowed : Allowed entryBytes size n ↔ Allocator.Reserves entryBytes (size * n) :=
      or_iff_right (mt hzero.mpr hempty)
    rw [if_neg hempty]
    simp only [hallowed]

theorem items_eq (vs : List Value) (count : Int64) :
    items vs count =
      if Allowed Allocator.valueBytes vs.length (copies count) then
        .ok (List.replicate (copies count) vs).flatten
      else .error (.integerOverflow .repetition) := by
  refine ite_empty (List.isEmpty_iff.trans List.length_eq_zero_iff.symm) fun hempty => ?_
  rcases hempty with hvs | hn
  · rw [List.isEmpty_iff.mp hvs, List.flatten_replicate_nil]
  · rw [hn]
    rfl

theorem text_eq (s : String) (count : Int64) :
    text s count =
      if Allowed 1 s.utf8ByteSize (copies count) then
        .ok (String.join (List.replicate (copies count) s))
      else .error (.integerOverflow .repetition) := by
  refine ite_empty (String.isEmpty_iff.trans String.utf8ByteSize_eq_zero_iff.symm) fun hempty => ?_
  rcases hempty with hs | hn
  · rw [String.isEmpty_iff.mp hs, join_replicate_empty]
  · rw [hn]
    rfl

/-- What is repeated successfully is the concatenation of its copies. -/
theorem items_eq_ok_iff {vs ws : List Value} {count : Int64} :
    items vs count = .ok ws ↔
      Allowed Allocator.valueBytes vs.length (copies count) ∧
        (List.replicate (copies count) vs).flatten = ws := by
  rw [items_eq]
  split
  case isTrue h => simp [h]
  case isFalse h => simp [h]

end Repetition

end StackLang
