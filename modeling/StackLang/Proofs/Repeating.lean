import Mathlib
import StackLang.Proofs.PrintedText
import StackLang.Proofs.Sequence

/-!
# Repeating arrays and texts

To repeat a collection is to join copies of it (`Value.copied`). Joining is what `+` does with two
collections of one kind, so counts are added where results are joined, and multiplied where a result
is repeated again (`Value.copied_add`, `Value.copied_copied`). Whether there is a result depends on
the memory and on nothing of the result but its size, and the size of a repetition is that of the
collection times the count; this is why a repetition in two steps has a result wherever the one in a
single step has one (`Eval.run_repetition`).
-/

namespace StackLang

open Repetition (Allowed copies)

/-! ## 1. Copies of a collection -/

namespace Value

/-- The size of a collection: elements of an array, bytes of a text. -/
def extent : Value → Nat
  | .array vs => vs.length
  | .text s => s.utf8ByteSize
  | .integer _ | .real _ | .character _ | .block _ => 0

/-- The empty collection of the same kind. -/
def emptied : Value → Value
  | .array _ => .array []
  | .text _ => .text ""
  | v => v

/-- Two collections of one kind, one behind the other. -/
def joined : Value → Value → Value
  | .array vs, .array ws => .array (vs ++ ws)
  | .text s, .text t => .text (s ++ t)
  | v, _ => v

/-- A collection as many times as a number says. -/
def copied : Value → Nat → Value
  | .array vs, n => .array (List.replicate n vs).flatten
  | .text s, n => .text (String.join (List.replicate n s))
  | v, _ => v

variable {y : Value}

theorem tag_copied (y : Value) (n : Nat) : (y.copied n).tag = y.tag := by
  cases y <;> rfl

theorem copied_zero (y : Value) : y.copied 0 = y.emptied := by
  cases y <;> rfl

theorem copied_one (y : Value) : y.copied 1 = y := by
  cases y <;> simp [copied]

/-- Copies behind copies. -/
theorem copied_add (hy : y.tag.isCollection = true) (m n : Nat) :
    y.copied (m + n) = (y.copied m).joined (y.copied n) := by
  cases y with
  | array vs => rw [copied, List.replicate_add, List.flatten_append]; rfl
  | text s => rw [copied, List.replicate_add, String.join_append]; rfl
  | integer | real | character | block => cases hy

/-- Copies of copies. The induction is over the number of copies that are made last. -/
theorem copied_copied (hy : y.tag.isCollection = true) (m n : Nat) :
    (y.copied m).copied n = y.copied (m * n) := by
  have hcopied : (y.copied m).tag.isCollection = true := by rwa [tag_copied]
  induction n with
  | zero =>
    rw [copied_zero, Nat.mul_zero, copied_zero]
    cases y <;> rfl
  | succ n ih => rw [copied_add hcopied, ih, copied_one, Nat.mul_succ, copied_add hy]

theorem copied_emptied (hy : y.tag.isCollection = true) (n : Nat) :
    y.emptied.copied n = y.emptied := by
  rw [← copied_zero, copied_copied hy, Nat.zero_mul]

/-- A number of copies is that number of times as large. -/
theorem extent_copied (hy : y.tag.isCollection = true) (n : Nat) :
    (y.copied n).extent = y.extent * n := by
  induction n with
  | zero =>
    rw [copied_zero]
    cases y <;> rfl
  | succ n ih =>
    rw [copied_add hy, copied_one, Nat.mul_succ, ← ih]
    cases y with
    | array vs => exact List.length_append
    | text s => exact String.utf8ByteSize_append
    | integer | real | character | block => cases hy

/-! ## 2. What the operators make of it -/

variable [Allocator]

/-- How many bytes an entry of a collection takes: a value of an array, or a byte of a text. -/
def entryBytes : Value → Nat
  | .array _ => Allocator.valueBytes
  | .integer _ | .real _ | .character _ | .text _ | .block _ => 1

theorem entryBytes_copied (y : Value) (n : Nat) : (y.copied n).entryBytes = y.entryBytes := by
  cases y <;> rfl

/-- A collection repeated, unless the result cannot be reserved. -/
def repeated (y : Value) (count : Int64) : Except Fault Value :=
  if Allowed y.entryBytes y.extent (copies count) then .ok (y.copied (copies count))
  else .error (.integerOverflow .repetition)

variable {count : Int64} {w : Value}

theorem repeated_of_allowed (h : Allowed y.entryBytes y.extent (copies count)) :
    y.repeated count = .ok (y.copied (copies count)) :=
  if_pos h

theorem repeated_of_not_allowed (h : ¬Allowed y.entryBytes y.extent (copies count)) :
    y.repeated count = .error (.integerOverflow .repetition) :=
  if_neg h

theorem allowed_of_repeated (h : y.repeated count = .ok w) :
    Allowed y.entryBytes y.extent (copies count) := by
  by_contra hnot
  rw [repeated_of_not_allowed hnot] at h
  cases h

theorem eq_copied_of_repeated (h : y.repeated count = .ok w) : w = y.copied (copies count) := by
  rw [repeated_of_allowed (allowed_of_repeated h)] at h
  exact (Except.ok.inj h).symm

/-- To repeat copies is to repeat the collection more often: the result is the same, and so is its
size. -/
theorem repeated_copied (hy : y.tag.isCollection = true) {n : Nat} {total : Int64}
    (h : copies total = n * copies count) : (y.copied n).repeated count = y.repeated total := by
  have hextent : (y.copied n).extent * copies count = y.extent * copies total := by
    rw [extent_copied hy, h, Nat.mul_assoc]
  have hiff : Allowed (y.copied n).entryBytes (y.copied n).extent (copies count) ↔
      Allowed y.entryBytes y.extent (copies total) := by
    rw [entryBytes_copied, Repetition.allowed_congr hextent]
  by_cases hallowed : Allowed y.entryBytes y.extent (copies total)
  · rw [repeated_of_allowed hallowed, repeated_of_allowed (hiff.mpr hallowed), copied_copied hy, h]
  · rw [repeated_of_not_allowed hallowed, repeated_of_not_allowed (hiff.not.mpr hallowed)]

/-- Without a copy, or without anything to be copied, the result is empty. -/
theorem repeated_eq_emptied (hy : y.tag.isCollection = true)
    (h : count.toInt ≤ 0 ∨ y = y.emptied) : y.repeated count = .ok y.emptied := by
  have hcopied : y.copied (copies count) = y.emptied := by
    rcases h with hcount | hempty
    · rw [Repetition.copies_eq_zero hcount, copied_zero]
    · exact (congrArg (copied · (copies count)) hempty).trans (copied_emptied hy _)
  have hextent : y.extent * copies count = 0 := by
    rw [← extent_copied hy, hcopied]
    cases y <;> rfl
  rw [repeated_of_allowed (.inl hextent), hcopied]

end Value

namespace Repetition

theorem copies_of_add {a b c : Int64} (ha : 0 ≤ a.toInt) (hb : 0 ≤ b.toInt)
    (hc : c.toInt = a.toInt + b.toInt) : copies c = copies a + copies b := by
  unfold copies
  omega

theorem copies_of_mul {a b c : Int64} (ha : 0 ≤ a.toInt) (hb : 0 ≤ b.toInt)
    (hc : c.toInt = a.toInt * b.toInt) : copies c = copies a * copies b := by
  rw [copies, hc, Int.toNat_mul ha hb]
  rfl

variable [Allocator]

theorem items_map_array (vs : List Value) (count : Int64) :
    (items vs count).map .array = (Value.array vs).repeated count := by
  rw [items_eq, apply_ite (Except.map Value.array)]
  rfl

theorem text_map_text (s : String) (count : Int64) :
    (text s count).map .text = (Value.text s).repeated count := by
  rw [text_eq, apply_ite (Except.map Value.text)]
  rfl

end Repetition

namespace BinaryOperator

variable [Allocator] {y : Value}

/-- `+` joins two collections of one kind. -/
theorem act_add_copied (hy : y.tag.isCollection = true) (m n : Nat) :
    act .add (y.copied m) (y.copied n) = .ok (.result (y.copied (m + n))) := by
  rw [Value.copied_add hy]
  cases y with
  | array | text => rfl
  | integer | real | character | block => cases hy

/-- `*` repeats a collection as often as the integer view of a number says. -/
theorem act_multiply_repeated (hy : y.tag.isCollection = true) {x : Value} {count : Int64}
    (hx : x.isNumeric = true) (hcount : x.integer? = some count) :
    act .multiply y x = (y.repeated count).map .result := by
  cases y with
  | integer | real | character | block => cases hy
  | array vs =>
    rw [← Repetition.items_map_array]
    cases x with
    | integer | real => cases hcount; rfl
    | character | text | array | block => cases hx
  | text s =>
    rw [← Repetition.text_map_text]
    cases x with
    | integer | real => cases hcount; rfl
    | character | text | array | block => cases hx

end BinaryOperator

/-! ## 3. On a machine -/

namespace Eval

section

variable [Allocator]

/-- On some machine, repeating `y` by the count `x` succeeds with `w`. -/
def Repeats (limit : Nat) (y x w : Value) : Prop :=
  ∃ m : Machine, EStateM.run (run limit "*") (m.add [y, x]) = .ok () (m.add [w])

variable {limit : Nat} {m : Machine} {y x w : Value} {count : Int64}

theorem run_repeat (limit : Nat) (m : Machine) (hy : y.tag.isCollection = true)
    (hx : x.isNumeric = true) (hcount : x.integer? = some count) :
    EStateM.run (run limit "*") (m.add [y, x]) =
      match y.repeated count with
      | .ok w => EStateM.run (push w) m
      | .error fault => .error fault m := by
  have hsymbol : run limit "*" = applyBinary (call limit) .multiply :=
    run_symbol limit (.binary .multiply)
  rw [hsymbol, run_applyBinary_add, BinaryOperator.act_multiply_repeated hy hx hcount]
  cases y.repeated count with
  | ok w =>
    show EStateM.run (do push w; pure ()) m = _
    rw [bind_pure_unit]
  | error fault => rfl

/-- Whether a repetition succeeds, and with what, is no matter of the machine. -/
theorem Repeats.eq (h : Repeats limit y x w) (hy : y.tag.isCollection = true)
    (hx : x.isNumeric = true) (hcount : x.integer? = some count) : y.repeated count = .ok w := by
  obtain ⟨m, hrun⟩ := h
  rw [run_repeat limit m hy hx hcount] at hrun
  cases hresult : y.repeated count with
  | error fault =>
    rw [hresult] at hrun
    cases hrun
  | ok v =>
    rw [hresult] at hrun
    have hvalues := congrArg (fun m : Machine => m.stack.toList) (eq_add_of_run_push hrun)
    simp only [Machine.stack_add, Stack.toList_add, List.append_cancel_left_eq] at hvalues
    rw [List.singleton_inj.mp hvalues]

/-- **Repetition turns sums of counts into joined collections and products of counts into repetitions
of repetitions.** Wherever the repetitions of an array or text succeed,

* those by `a` and by `b` are joined by `+` to the one by their sum;
* to repeat the one by `a` again by `b` ends as to repeat by their product, in success and in
  failure;
* the one by one is the collection itself.

A count whose integer view is zero or less gives the empty collection of the same kind, and so does
any count of an empty one. In general a repetition gives a collection of the same kind if the result
is empty or can be reserved, and otherwise fails with nothing but its own overflow. -/
theorem run_repetition (limit : Nat) {y : Value} (hy : y.tag.isCollection = true) {m : Machine}
    (hroom : m.stack.size < m.stack.capacity) :
    (∀ a b c : Int64, 0 ≤ a.toInt → 0 ≤ b.toInt → c.toInt = a.toInt + b.toInt → ∀ u v w,
      Repeats limit y (.integer a) u → Repeats limit y (.integer b) v →
        Repeats limit y (.integer c) w →
          EStateM.run (run limit "+") (m.add [u, v]) = .ok () (m.add [w])) ∧
    (∀ a b c : Int64, 0 ≤ a.toInt → 0 ≤ b.toInt → c.toInt = a.toInt * b.toInt → ∀ u,
      Repeats limit y (.integer a) u →
        EStateM.run (run limit "*") (m.add [u, .integer b]) =
          EStateM.run (run limit "*") (m.add [y, .integer c])) ∧
    (∀ w, Repeats limit y (.integer 1) w → w = y) ∧
    ∀ x count, x.isNumeric = true → x.integer? = some count →
      (count.toInt ≤ 0 ∨ y = y.emptied →
        EStateM.run (run limit "*") (m.add [y, x]) = .ok () (m.add [y.emptied])) ∧
      if Allowed y.entryBytes y.extent (copies count) then
        ∃ w, w.tag = y.tag ∧ EStateM.run (run limit "*") (m.add [y, x]) = .ok () (m.add [w])
      else
        EStateM.run (run limit "*") (m.add [y, x]) = .error (.integerOverflow .repetition) m := by
  have hplus : run limit "+" = applyBinary (call limit) .add := run_symbol limit (.binary .add)
  refine ⟨?_, ?_, ?_, fun x count hx hcount => ⟨fun hempty => ?_, ?_⟩⟩
  · intro a b c ha hb hc u v w hu hv hw
    rw [Value.eq_copied_of_repeated (hu.eq hy rfl rfl),
      Value.eq_copied_of_repeated (hv.eq hy rfl rfl),
      Value.eq_copied_of_repeated (hw.eq hy rfl rfl), Repetition.copies_of_add ha hb hc, hplus]
    exact run_applyBinary_of_result _ hroom (BinaryOperator.act_add_copied hy _ _)
  · intro a b c ha hb hc u hu
    have htag : (y.copied (copies a)).tag.isCollection = true := by rwa [Value.tag_copied]
    rw [Value.eq_copied_of_repeated (hu.eq hy rfl rfl), run_repeat limit m htag rfl rfl,
      run_repeat limit m hy rfl rfl,
      Value.repeated_copied hy (Repetition.copies_of_mul ha hb hc)]
  · intro w hw
    rw [Value.eq_copied_of_repeated (hw.eq hy rfl rfl)]
    exact y.copied_one
  · rw [run_repeat limit m hy hx hcount, Value.repeated_eq_emptied hy hempty]
    exact run_push_of_lt hroom _
  · rw [run_repeat limit m hy hx hcount]
    split
    case isTrue hallowed =>
      rw [Value.repeated_of_allowed hallowed]
      exact ⟨_, y.tag_copied _, run_push_of_lt hroom _⟩
    case isFalse hallowed =>
      rw [Value.repeated_of_not_allowed hallowed]

end

/-- Two and three copies of a text, joined and repeated; a count of zero; and a size that is not
allowed. -/
theorem run_repetition_text :
    ((Value.text "é").tag.isCollection = true ∧ 1 < 2) ∧
    (Repeats 0 (.text "é") (.integer 2) (.text "éé") ∧
      Repeats 0 (.text "é") (.integer 3) (.text "ééé") ∧
      Repeats 0 (.text "é") (.integer 5) (.text "ééééé") ∧
      EStateM.run (run 0 "+")
          ⟨⟨#[.integer 7, .text "éé", .text "ééé"], 2⟩, .initial, [], .empty, 0⟩ =
        .ok () ⟨⟨#[.integer 7, .text "ééééé"], 2⟩, .initial, [], .empty, 0⟩) ∧
    EStateM.run (run 0 "*")
        ⟨⟨#[.integer 7, .text "éé", .integer 3], 2⟩, .initial, [], .empty, 0⟩ =
      EStateM.run (run 0 "*")
        ⟨⟨#[.integer 7, .text "é", .integer 6], 2⟩, .initial, [], .empty, 0⟩ ∧
    EStateM.run (run 0 "*")
        ⟨⟨#[.integer 7, .text "é", .integer 0], 2⟩, .initial, [], .empty, 0⟩ =
      .ok () ⟨⟨#[.integer 7, .text ""], 2⟩, .initial, [], .empty, 0⟩ ∧
    EStateM.run (run 0 "*")
        ⟨⟨#[.integer 7, .text "é", .integer Int64.maxValue], 2⟩, .initial, [], .empty, 0⟩ =
      .error (.integerOverflow .repetition) ⟨⟨#[.integer 7], 2⟩, .initial, [], .empty, 0⟩ := by
  have htwo : Repeats 0 (.text "é") (.integer 2) (.text "éé") :=
    ⟨⟨⟨#[], 2⟩, .initial, [], .empty, 0⟩, by cbv⟩
  have hthree : Repeats 0 (.text "é") (.integer 3) (.text "ééé") :=
    ⟨⟨⟨#[], 2⟩, .initial, [], .empty, 0⟩, by cbv⟩
  have hfive : Repeats 0 (.text "é") (.integer 5) (.text "ééééé") :=
    ⟨⟨⟨#[], 2⟩, .initial, [], .empty, 0⟩, by cbv⟩
  obtain ⟨hadd, hmultiply, -, hcount⟩ := run_repetition 0 (y := .text "é") rfl
    (m := ⟨⟨#[.integer 7], 2⟩, .initial, [], .empty, 0⟩) (by decide)
  have hnone := (hcount (.integer 0) 0 rfl rfl).1 (.inl (Int.le_refl 0))
  have hmany := (hcount (.integer Int64.maxValue) Int64.maxValue rfl rfl).2
  rw [if_neg (by decide)] at hmany
  exact ⟨⟨rfl, Nat.one_lt_two⟩,
    ⟨htwo, hthree, hfive, hadd 2 3 5 (by decide) (by decide) (by decide) _ _ _ htwo hthree hfive⟩,
    hmultiply 2 3 6 (by decide) (by decide) (by decide) _ htwo, hnone, hmany⟩

end Eval

end StackLang
