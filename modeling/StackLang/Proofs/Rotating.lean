import Mathlib.Data.List.Rotate
import StackLang.Proofs.Locality
import StackLang.Proofs.Sequence

/-!
# Turning a collection

What `(` takes off the front of a collection `+` puts at its end, so the two together turn the
collection by one element (`Eval.run_detach_join`). Turned as often as it has elements, it is what it
was; in general it is turned by the rest of the division by their number (`Eval.run_rotate`). What
`)` takes off the end comes back to where it was.

An element comes back only if `+` takes it for one: a character at the end of a text, a scalar at the
end of an array (`Value.Turnable`). The last element leaves an empty collection, which keeps its
kind.
-/

namespace StackLang

/-! ## 1. Collections that can be turned -/

namespace Value

/-- A text or an array of scalars, with one element or more. -/
inductive Turnable : Value → Prop
  | text {s : String} : s ≠ "" → Turnable (.text s)
  | array {vs : List Value} : vs ≠ [] → (∀ v ∈ vs, v.tag.isScalar = true) → Turnable (.array vs)

/-- The number of the elements of an array, or of the characters of a text. -/
def length : Value → Nat
  | .array vs => vs.length
  | .text s => s.toList.length
  | .integer _ | .real _ | .character _ | .block _ => 0

/-- A collection with so many of its first elements behind the others. -/
def rotated : Value → Nat → Value
  | .array vs, k => .array (vs.rotate k)
  | .text s, k => .text (String.ofList (s.toList.rotate k))
  | v, _ => v

variable {y : Value}

theorem rotated_zero (y : Value) : y.rotated 0 = y := by
  cases y <;> simp [rotated]

theorem rotated_rotated (y : Value) (j k : Nat) : (y.rotated j).rotated k = y.rotated (j + k) := by
  cases y <;> simp [rotated, List.rotate_rotate]

theorem rotated_mod (y : Value) (k : Nat) : y.rotated (k % y.length) = y.rotated k := by
  cases y <;> simp [rotated, length, List.rotate_mod]

theorem rotated_length (y : Value) : y.rotated y.length = y := by
  rw [← rotated_mod, Nat.mod_self, rotated_zero]

theorem Turnable.rotated (h : y.Turnable) (k : Nat) : (y.rotated k).Turnable := by
  cases h with
  | @text s hs =>
    refine .text fun hnil => hs ?_
    rw [String.ofList_eq_empty_iff, List.rotate_eq_nil_iff] at hnil
    exact String.toList_eq_nil_iff.mp hnil
  | array hvs hscalars =>
    refine .array (fun hnil => hvs (List.rotate_eq_nil_iff.mp hnil)) fun v hv => ?_
    exact hscalars v (List.mem_rotate.mp hv)

/-! ## 2. Taken off and put back -/

variable [Allocator]

/-- A scalar is put at the end of an array. -/
theorem act_add_scalar {w : Value} (vs : List Value) (hw : w.tag.isScalar = true) :
    BinaryOperator.add.act (.array vs) w = .ok (.result (.array (vs ++ [w]))) := by
  cases w with
  | integer | real | character => rfl
  | text | array | block => cases hw

/-- A character is put at the end of a text. -/
theorem act_add_character (cs : List Char) (c : Char) :
    BinaryOperator.add.act (.text (String.ofList cs)) (.character c) =
      .ok (.result (.text (String.ofList (cs ++ [c])))) := by
  rw [String.ofList_append, ← String.singleton_eq_ofList, String.append_singleton]
  rfl

/-- The first element comes to stand at the end. -/
theorem Turnable.exists_first (h : y.Turnable) : ∃ rest w,
    UnaryOperator.decrement.Detaches y rest w ∧
      BinaryOperator.add.act rest w = .ok (.result (y.rotated 1)) := by
  cases h with
  | @text s hs =>
    obtain ⟨c, cs, hcs⟩ : ∃ c cs, s.toList = c :: cs :=
      List.exists_cons_of_ne_nil fun hnil => hs (String.toList_eq_nil_iff.mp hnil)
    obtain rfl : String.ofList (c :: cs) = s := by rw [← hcs, String.ofList_toList]
    refine ⟨_, _, .firstCharacter c cs, ?_⟩
    rw [act_add_character, Value.rotated, String.toList_ofList, List.rotate_cons_succ,
      List.rotate_zero]
  | @array vs hvs hscalars =>
    obtain ⟨v, vs, rfl⟩ := List.exists_cons_of_ne_nil hvs
    refine ⟨_, _, .first v vs, ?_⟩
    rw [act_add_scalar vs (hscalars v List.mem_cons_self), Value.rotated, List.rotate_cons_succ,
      List.rotate_zero]

/-- The last element comes to stand where it was. -/
theorem Turnable.exists_last (h : y.Turnable) : ∃ rest w,
    UnaryOperator.increment.Detaches y rest w ∧
      BinaryOperator.add.act rest w = .ok (.result y) := by
  cases h with
  | @text s hs =>
    obtain ⟨cs, rfl⟩ : ∃ cs, s = String.ofList cs := ⟨s.toList, String.ofList_toList.symm⟩
    rcases List.eq_nil_or_concat' cs with rfl | ⟨cs, c, rfl⟩
    · exact absurd rfl hs
    · exact ⟨_, _, .lastCharacter cs c, act_add_character cs c⟩
  | @array vs hvs hscalars =>
    rcases List.eq_nil_or_concat' vs with rfl | ⟨vs, v, rfl⟩
    · exact absurd rfl hvs
    · exact ⟨_, _, .last vs v, act_add_scalar vs (hscalars v (by simp))⟩

end Value

/-! ## 3. On a machine -/

namespace Eval

section

variable [Allocator] {limit : Nat} {m : Machine} {y : Value}

/-- An element that is taken off and put back by `+`. While it is off, it takes a slot of its own. -/
theorem run_detach_join {op : UnaryOperator} {rest w v : Value} (hdetaches : op.Detaches y rest w)
    (hjoin : BinaryOperator.add.act rest w = .ok (.result v))
    (hroom : m.stack.size + 2 ≤ m.stack.capacity) :
    EStateM.run (run limit (op.symbol ++ " " ++ BinaryOperator.add.symbol)) (m.add [y]) =
      .ok () (m.add [v]) := by
  have htaken : EStateM.run (applyUnary (call limit) op) (m.add [y]) = .ok () (m.add [rest, w]) := by
    rw [run_applyUnary_add _ hdetaches.act_eq]
    exact run_pushAll_of_le hroom
  exact run_symbol_symbol_of_ok (.unary op) (.binary .add) htaken
    (run_applyBinary_of_result _ (by omega) hjoin)

theorem run_first_join (hy : y.Turnable) (hroom : m.stack.size + 2 ≤ m.stack.capacity) :
    EStateM.run (run limit "( +") (m.add [y]) = .ok () (m.add [y.rotated 1]) := by
  have hsource : "( +" = UnaryOperator.decrement.symbol ++ " " ++ BinaryOperator.add.symbol := rfl
  obtain ⟨rest, w, hdetaches, hjoin⟩ := hy.exists_first
  rw [hsource, run_detach_join hdetaches hjoin hroom]

theorem run_last_join (hy : y.Turnable) (hroom : m.stack.size + 2 ≤ m.stack.capacity) :
    EStateM.run (run limit ") +") (m.add [y]) = .ok () (m.add [y]) := by
  have hsource : ") +" = UnaryOperator.increment.symbol ++ " " ++ BinaryOperator.add.symbol := rfl
  obtain ⟨rest, w, hdetaches, hjoin⟩ := hy.exists_last
  rw [hsource, run_detach_join hdetaches hjoin hroom]

/-- The program that turns a collection a number of times. -/
def rotations (k : Nat) : String :=
  " ".intercalate (List.replicate k "( +")

/-- One turn after the other. The induction is over their number, for every collection that can be
turned. -/
theorem run_rotations (hy : y.Turnable) (hroom : m.stack.size + 2 ≤ m.stack.capacity) (k : Nat) :
    EStateM.run (run limit (rotations k)) (m.add [y]) = .ok () (m.add [y.rotated k]) := by
  have hreadable : Token.Readable "( +" :=
    (Token.readable_lexeme (Token.lexeme_symbol (.unary .decrement))).append Token.gap_space
      (by decide) (Token.readable_lexeme (Token.lexeme_symbol (.binary .add)))
  rw [rotations, run_intercalate limit fun source hsource =>
    List.eq_of_mem_replicate hsource ▸ hreadable]
  induction k generalizing y with
  | zero =>
    rw [Value.rotated_zero]
    rfl
  | succ k ih =>
    rw [List.replicate_succ]
    show EStateM.run (do
      run limit "( +"
      (List.replicate k "( +").forM (run limit)) (m.add [y]) = _
    rw [run_bind_of_ok (run_first_join hy hroom), ih (hy.rotated 1), Value.rotated_rotated,
      Nat.add_comm 1 k]

/-- **To take off the first element and to put it at the end turns a collection**, and doing so again
turns it further: after any number of times it is turned by the rest of their division by the number
of elements, so after as many times as there are elements it is what it was. To take off the last
element and to put it back changes nothing. This holds on every machine with room for the element
that is off. -/
theorem run_rotate (limit : Nat) (hy : y.Turnable) (hroom : m.stack.size + 2 ≤ m.stack.capacity) :
    (∀ k, EStateM.run (run limit (rotations k)) (m.add [y]) =
      .ok () (m.add [y.rotated (k % y.length)])) ∧
    EStateM.run (run limit (rotations y.length)) (m.add [y]) = .ok () (m.add [y]) ∧
    EStateM.run (run limit ") +") (m.add [y]) = .ok () (m.add [y]) := by
  refine ⟨fun k => ?_, ?_, run_last_join hy hroom⟩
  · rw [Value.rotated_mod]
    exact run_rotations hy hroom k
  · rw [run_rotations hy hroom, Value.rotated_length]

end

/-- A text of three characters turned four times, and an array of one element, which is empty while
the element is off; on stacks that become full. -/
theorem run_rotate_text :
    ((Value.text "aéz").Turnable ∧ (Value.array [.real 0.5]).Turnable ∧ 1 + 2 ≤ 3) ∧
    EStateM.run (run 0 "( + ( + ( + ( +")
        ⟨⟨#[.integer 7, .text "aéz"], 3⟩, .initial, [], .empty, 0⟩ =
      .ok () ⟨⟨#[.integer 7, .text "éza"], 3⟩, .initial, [], .empty, 0⟩ ∧
    EStateM.run (run 0 "( +") ⟨⟨#[.integer 7, .array [.real 0.5]], 3⟩, .initial, [], .empty, 0⟩ =
      .ok () ⟨⟨#[.integer 7, .array [.real 0.5]], 3⟩, .initial, [], .empty, 0⟩ := by
  have htext : (Value.text "aéz").Turnable := .text (by decide)
  have harray : (Value.array [.real 0.5]).Turnable := .array (by simp) (by simp [Tag.isScalar])
  have hfour := (run_rotate 0 (m := ⟨⟨#[.integer 7], 3⟩, .initial, [], .empty, 0⟩) htext
    (by decide)).1 4
  have hone := (run_rotate 0 (m := ⟨⟨#[.integer 7], 3⟩, .initial, [], .empty, 0⟩) harray
    (by decide)).2.1
  exact ⟨⟨htext, harray, by decide⟩, hfour, hone⟩

end Eval

end StackLang
