import StackLang.Value.Render

/-!
# The stack

A stack holds values from the bottom up and never more than its capacity. Each operation is
described by what it does to the list of values, bottom first (`Stack.toList`):

* `push?` adds on top, or fails on a full stack;
* `pop?` takes the top away, `top?` shows it; both fail on an empty stack;
* `above` takes away everything above a depth.
-/

namespace StackLang

/-- Values, bottom first, and the number of values that fit. -/
structure Stack where
  values : Array Value
  capacity : Nat

namespace Stack

/-! ## 1. Views -/

/-- An empty stack. -/
def empty (capacity : Nat) : Stack :=
  ⟨#[], capacity⟩

/-- The values, bottom first. -/
def toList (s : Stack) : List Value :=
  s.values.toList

/-- The number of values. -/
def size (s : Stack) : Nat :=
  s.values.size

/-- No more values than fit. -/
def Fits (s : Stack) : Prop :=
  s.size ≤ s.capacity

@[simp] theorem toList_empty (capacity : Nat) : (empty capacity).toList = [] := rfl

@[simp] theorem length_toList (s : Stack) : s.toList.length = s.size := rfl

/-- A stack is its capacity and its list of values. -/
theorem ext_toList {s t : Stack} (hvalues : s.toList = t.toList) (hcapacity : s.capacity = t.capacity) :
    s = t := by
  cases s
  cases t
  simp_all [toList]

theorem empty_fits (capacity : Nat) : (empty capacity).Fits :=
  Nat.zero_le capacity

/-! ## 2. Pushing and popping -/

/-- Adds a value on top. -/
@[inline] def push? (s : Stack) (v : Value) : Option Stack :=
  match s with
  | ⟨values, capacity⟩ => if values.size < capacity then some ⟨values.push v, capacity⟩ else none

/-- The value on top. -/
def top? (s : Stack) : Option Value :=
  s.values.back?

/-- Takes the top away. -/
@[inline] def pop? (s : Stack) : Option (Value × Stack) :=
  match s with
  | ⟨values, capacity⟩ =>
    match values.back? with
    | some v => some (v, ⟨values.pop, capacity⟩)
    | none => none

/-- Pushing succeeds exactly if there is room, and puts the value on top. -/
theorem push?_eq_some_iff {s t : Stack} {v : Value} :
    s.push? v = some t ↔
      s.size < s.capacity ∧ t.toList = s.toList ++ [v] ∧ t.capacity = s.capacity := by
  simp only [push?]
  split
  case isTrue h =>
    rw [Option.some.injEq]
    constructor
    · rintro rfl
      exact ⟨h, by simp [toList], rfl⟩
    · rintro ⟨_, hvalues, hcapacity⟩
      exact ext_toList (by rw [hvalues]; simp [toList]) hcapacity.symm
  case isFalse h =>
    simp only [reduceCtorEq, false_iff, not_and]
    intro hroom
    exact absurd hroom h

/-- Pushing fails exactly on a full stack. -/
theorem push?_eq_none_iff {s : Stack} {v : Value} :
    s.push? v = none ↔ s.capacity ≤ s.size := by
  simp only [push?]
  split
  case isTrue h =>
    have h' : s.size < s.capacity := h
    simp only [reduceCtorEq, false_iff]
    omega
  case isFalse h =>
    have h' : ¬s.size < s.capacity := h
    simp only [true_iff]
    omega

/-- Popping succeeds exactly if there is a value, and takes the top one. -/
theorem pop?_eq_some_iff {s t : Stack} {v : Value} :
    s.pop? = some (v, t) ↔ s.toList = t.toList ++ [v] ∧ t.capacity = s.capacity := by
  obtain ⟨values, capacity⟩ := s
  simp only [pop?, toList]
  split
  case h_1 w hw =>
    obtain ⟨rest, rfl⟩ := Array.back?_eq_some_iff.1 hw
    simp only [Array.pop_push, Option.some.injEq, Prod.mk.injEq, Array.toList_push,
      List.append_singleton_inj]
    constructor
    · rintro ⟨rfl, rfl⟩
      exact ⟨⟨rfl, rfl⟩, rfl⟩
    · rintro ⟨⟨hrest, rfl⟩, hcapacity⟩
      exact ⟨rfl, ext_toList hrest hcapacity.symm⟩
  case h_2 hw =>
    obtain rfl := Array.back?_eq_none_iff.1 hw
    simp

/-- Popping fails exactly on an empty stack. -/
theorem pop?_eq_none_iff {s : Stack} : s.pop? = none ↔ s.toList = [] := by
  obtain ⟨values, capacity⟩ := s
  simp only [pop?, toList]
  split
  case h_1 w hw =>
    obtain ⟨rest, rfl⟩ := Array.back?_eq_some_iff.1 hw
    simp
  case h_2 hw =>
    obtain rfl := Array.back?_eq_none_iff.1 hw
    simp

/-- The top is the last of the values. -/
theorem top?_eq (s : Stack) : s.top? = s.toList.getLast? := by
  simp [top?, toList]

/-- The top is what popping takes. -/
theorem top?_eq_some_iff {s : Stack} {v : Value} :
    s.top? = some v ↔ ∃ t, s.pop? = some (v, t) := by
  rw [top?_eq, List.getLast?_eq_some_iff]
  constructor
  · intro h
    obtain ⟨below, hvalues⟩ := h
    exact ⟨⟨below.toArray, s.capacity⟩, pop?_eq_some_iff.mpr ⟨hvalues, rfl⟩⟩
  · intro h
    obtain ⟨t, hp⟩ := h
    exact ⟨t.toList, (pop?_eq_some_iff.mp hp).1⟩

/-- There is no top exactly on an empty stack. -/
theorem top?_eq_none_iff {s : Stack} : s.top? = none ↔ s.toList = [] := by
  rw [top?_eq, List.getLast?_eq_none_iff]

/-! ## 3. Cutting at a depth -/

/-- The values above a depth, bottom first, and the stack without them. -/
@[inline] def above (s : Stack) (depth : Nat) : List Value × Stack :=
  match s with
  | ⟨values, capacity⟩ =>
    ((values.extract depth values.size).toList, ⟨values.shrink depth, capacity⟩)

@[simp] theorem above_values (s : Stack) (depth : Nat) :
    (s.above depth).1 = s.toList.drop depth := by
  simp [above, toList, List.take_of_length_le]

@[simp] theorem toList_above (s : Stack) (depth : Nat) :
    (s.above depth).2.toList = s.toList.take depth := by
  simp [above, toList]

@[simp] theorem capacity_above (s : Stack) (depth : Nat) :
    (s.above depth).2.capacity = s.capacity := rfl

/-! ## 4. The text of a stack -/

/-- All values from the bottom up without anything between them, and a line feed. -/
def render (s : Stack) : String :=
  (Value.renderAll s.toList).push '\n'

end Stack

end StackLang
