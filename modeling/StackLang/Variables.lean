import StackLang.Value.Basic

/-!
# Variables

A variable has a character for its name and holds a value once it has been set. Some letters are
set from the beginning. Programs name variables by the capital letters `A` to `Z`
(`variableName?`, `storeTarget?`).
-/

namespace StackLang

/-! ## 1. Names in programs -/

/-- The variable that a token names: a single capital letter. -/
def variableName? (token : String) : Option Char :=
  match token.toList with
  | [c] => if c.isUpper then some c else none
  | _ => none

/-- The variable into which a token stores: a colon and a capital letter. -/
def storeTarget? (token : String) : Option Char :=
  match token.toList with
  | [':', c] => if c.isUpper then some c else none
  | _ => none

/-- A load token is its variable's name. -/
theorem variableName?_eq_some_iff {token : String} {c : Char} :
    variableName? token = some c ↔ c.isUpper = true ∧ token.toList = [c] := by
  unfold variableName?
  split
  next d heq => rw [heq]; grind
  next h =>
    simp only [reduceCtorEq, false_iff, not_and]
    intro _ heq
    exact h c heq

/-- A store token is a colon and its variable's name. -/
theorem storeTarget?_eq_some_iff {token : String} {c : Char} :
    storeTarget? token = some c ↔ c.isUpper = true ∧ token.toList = [':', c] := by
  unfold storeTarget?
  split
  next d heq => rw [heq]; grind
  next h =>
    simp only [reduceCtorEq, false_iff, not_and]
    intro _ heq
    exact h c heq

/-! ## 2. What variables hold -/

/-- The variables that are set, with their values. -/
structure Variables where
  bindings : List (Char × Value)

namespace Variables

/-- The value of a variable, if it has been set. -/
def get? (vars : Variables) (name : Char) : Option Value :=
  vars.bindings.lookup name

/-- Gives a variable a value, in place of the one it may have had. -/
def set (vars : Variables) (name : Char) (v : Value) : Variables :=
  ⟨(name, v) :: vars.bindings.filter fun binding => binding.1 ≠ name⟩

/-- The value of the variable that a token names. -/
def lookup (vars : Variables) (token : String) : Option Value :=
  (variableName? token).bind vars.get?

/-- At the beginning `A` to `F` hold ten to fifteen, `N` a line feed, `S` a space, and `X`, `Y`, `Z`
hold zero, one, two. -/
def initial : Variables :=
  ⟨[('A', .integer 10), ('B', .integer 11), ('C', .integer 12), ('D', .integer 13),
    ('E', .integer 14), ('F', .integer 15), ('N', .text "\n"), ('S', .text " "),
    ('X', .integer 0), ('Y', .integer 1), ('Z', .integer 2)]⟩

/-- After setting a variable it has the new value and all others have their old ones. -/
theorem get?_set (vars : Variables) (name other : Char) (v : Value) :
    (vars.set name v).get? other = if other = name then some v else vars.get? other := by
  unfold get? set
  rw [List.lookup_cons]
  by_cases h : other = name
  · simp [h]
  · have hbeq : (other == name) = false := by simpa using h
    simp only [hbeq, h, if_false]
    induction vars.bindings with
    | nil => rfl
    | cons binding rest ih =>
      by_cases hb : binding.1 = name
      · have hne : (other == binding.1) = false := by simpa [hb] using h
        rw [List.filter_cons_of_neg (by simpa using hb), List.lookup_cons, hne, ih]
      · rw [List.filter_cons_of_pos (by simpa using hb), List.lookup_cons, List.lookup_cons, ih]

@[simp] theorem get?_set_self (vars : Variables) (name : Char) (v : Value) :
    (vars.set name v).get? name = some v := by
  simp [get?_set]

theorem get?_set_ne (vars : Variables) {name other : Char} (v : Value) (h : other ≠ name) :
    (vars.set name v).get? other = vars.get? other := by
  simp [get?_set, h]

end Variables

end StackLang
