import StackLang.Operator.Binary
import StackLang.Operator.Unary

/-!
# The blocks inside values

A block may stand on its own or as an element of an array, at any depth (`Block.Within`). No
operator makes a block: whatever holds of all blocks inside the operands (`Value.AllBlocks`) holds
of all blocks inside the results and of the block that is to be run
(`BinaryOperator.act_allBlocks`, `UnaryOperator.act_allBlocks`).
-/

namespace StackLang

/-! ## 1. Where blocks stand -/

/-- A block stands in a value: it is the value, or it stands in an element of it. -/
inductive Block.Within (b : Block) : Value → Prop
  | self : Within b (.block b)
  | item {v : Value} {items : List Value} : v ∈ items → Within b v → Within b (.array items)

namespace Value

/-- All blocks that stand in a value have a property. -/
def AllBlocks (P : Block → Prop) (v : Value) : Prop :=
  ∀ b : Block, b.Within v → P b

section

variable {P : Block → Prop}

@[simp] theorem allBlocks_integer (n : Int64) : (integer n).AllBlocks P := nofun

@[simp] theorem allBlocks_real (r : Float) : (real r).AllBlocks P := nofun

@[simp] theorem allBlocks_character (c : Char) : (character c).AllBlocks P := nofun

@[simp] theorem allBlocks_text (s : String) : (text s).AllBlocks P := nofun

@[simp] theorem allBlocks_block {b : Block} : (block b).AllBlocks P ↔ P b := by
  constructor
  · intro h
    exact h b .self
  · intro h c hc
    cases hc with
    | self => exact h

@[simp] theorem allBlocks_array {items : List Value} :
    (array items).AllBlocks P ↔ ∀ v ∈ items, v.AllBlocks P := by
  constructor
  · intro h v hv b hb
    exact h b (.item hv hb)
  · intro h b hb
    cases hb with
    | item hv hb => exact h _ hv b hb

/-- A property that all blocks have puts no condition on a value. -/
theorem allBlocks_of_forall (h : ∀ b, P b) (v : Value) : v.AllBlocks P :=
  fun b _ => h b

theorem allBlocks_true (v : Value) : v.AllBlocks fun _ => True :=
  allBlocks_of_forall (fun _ => trivial) v

end

end Value

/-- All blocks that an action deals with, in its values or as what is to be run, have a
property. -/
def Action.AllBlocks (P : Block → Prop) : Action → Prop
  | .push results => ∀ v ∈ results, v.AllBlocks P
  | .call b => P b
  | .fold items b => (∀ v ∈ items, v.AllBlocks P) ∧ P b
  | .mapArray items b => (∀ v ∈ items, v.AllBlocks P) ∧ P b
  | .mapText _ b => P b

section

variable {P : Block → Prop}

@[simp] theorem Action.allBlocks_result {v : Value} :
    (Action.result v).AllBlocks P ↔ v.AllBlocks P := by
  simp [Action.result, Action.AllBlocks]

/-- What was mapped successfully was there to be mapped. -/
theorem exists_of_map_eq_ok {α β : Type} {result : Except Fault α} {f : α → β} {b : β}
    (h : result.map f = .ok b) : ∃ a, result = .ok a ∧ f a = b := by
  cases result with
  | error fault => cases h
  | ok a =>
    cases h
    exact ⟨a, rfl, rfl⟩

/-- An action that only pushes one result is known by the result. -/
theorem Action.allBlocks_of_result {result : Except Fault Value} {action : Action}
    (h : result.map Action.result = .ok action) (hv : ∀ v, result = .ok v → v.AllBlocks P) :
    action.AllBlocks P := by
  obtain ⟨v, hr, rfl⟩ := exists_of_map_eq_ok h
  exact allBlocks_result.mpr (hv v hr)

/-! ## 2. Binary operators -/

theorem allBlocks_checked {calculation : Calculation} {n : Option Int64} {v : Value}
    (h : checked calculation n = .ok v) : v.AllBlocks P := by
  cases n with
  | none => cases h
  | some n =>
    cases h
    exact Value.allBlocks_integer n

namespace BinaryOperator

theorem allBlocks_reals {op : BinaryOperator} {calculate : Float → Float → Float} {y x v : Value}
    (h : reals op calculate y x = .ok v) : v.AllBlocks P := by
  unfold reals at h
  split at h
  · cases h
    exact Value.allBlocks_real _
  · cases h

theorem allBlocks_bitwise {op : BinaryOperator} {combine : Int64 → Int64 → Int64} {y x v : Value}
    (h : bitwise op combine y x = .ok v) : v.AllBlocks P := by
  unfold bitwise at h
  split at h
  · cases h
    exact Value.allBlocks_integer _
  · cases h

theorem allBlocks_sum {y x v : Value} (h : sum y x = .ok v) (hy : y.AllBlocks P)
    (hx : x.AllBlocks P) : v.AllBlocks P := by
  unfold sum at h
  split at h
  case h_1 => exact allBlocks_checked h
  case h_12 => exact allBlocks_reals h
  -- the rows that join collections: the elements are those of the operands
  all_goals
    cases h
    simp_all [or_imp]

theorem allBlocks_difference {y x v : Value} (h : difference y x = .ok v) : v.AllBlocks P := by
  unfold difference at h
  split at h
  · exact allBlocks_checked h
  · exact allBlocks_reals h

/-- The elements of a repeated array are elements of the array. -/
theorem allBlocks_items [Allocator] {vs : List Value} {count : Int64} {v : Value}
    (h : (Repetition.items vs count).map Value.array = .ok v) (hvs : ∀ w ∈ vs, w.AllBlocks P) :
    v.AllBlocks P := by
  obtain ⟨ws, hr, rfl⟩ := exists_of_map_eq_ok h
  obtain ⟨_, rfl⟩ := Repetition.items_eq_ok_iff.mp hr
  rw [Value.allBlocks_array]
  intro w hw
  obtain ⟨copy, hcopy, hmem⟩ := List.mem_flatten.mp hw
  rw [List.eq_of_mem_replicate hcopy] at hmem
  exact hvs w hmem

theorem allBlocks_ofText {s : Except Fault String} {v : Value} (h : s.map Value.text = .ok v) :
    v.AllBlocks P := by
  obtain ⟨t, _, rfl⟩ := exists_of_map_eq_ok h
  exact Value.allBlocks_text t

theorem allBlocks_product [Allocator] {y x v : Value} (h : product y x = .ok v)
    (hy : y.AllBlocks P) : v.AllBlocks P := by
  unfold product at h
  split at h
  · exact allBlocks_checked h
  · exact allBlocks_items h (Value.allBlocks_array.mp hy)
  · exact allBlocks_items h (Value.allBlocks_array.mp hy)
  · exact allBlocks_ofText h
  · exact allBlocks_ofText h
  · exact allBlocks_reals h

theorem allBlocks_division (text separator : String) : (division text separator).AllBlocks P := by
  rw [division, Value.allBlocks_array]
  intro v hv
  obtain ⟨piece, _, rfl⟩ := List.mem_map.mp hv
  exact Value.allBlocks_text _

theorem allBlocks_quotient {y x v : Value} (h : quotient y x = .ok v) : v.AllBlocks P := by
  unfold quotient at h
  split at h
  · split at h
    · cases h
    · exact allBlocks_checked h
  · cases h
    exact allBlocks_division _ _
  · exact allBlocks_reals h

theorem allBlocks_remainder {y x v : Value} (h : remainder y x = .ok v) : v.AllBlocks P := by
  unfold remainder at h
  split at h
  · split at h
    · cases h
    · exact allBlocks_checked h
  · cases h

theorem allBlocks_position {needle hay : List Char} {v : Value} (h : position needle hay = .ok v) :
    v.AllBlocks P := by
  unfold position at h
  split at h
  · exact allBlocks_checked h
  · cases h
    exact Value.allBlocks_integer _

theorem allBlocks_powerOrPosition {y x v : Value} (h : powerOrPosition y x = .ok v) :
    v.AllBlocks P := by
  unfold powerOrPosition at h
  split at h
  · unfold integerPower at h
    split at h
    · cases h
    · exact allBlocks_checked h
  · exact allBlocks_position h
  · exact allBlocks_position h
  · exact allBlocks_reals h

/-- **A binary operator makes no block.** -/
theorem act_allBlocks [Allocator] (op : BinaryOperator) {y x : Value} {action : Action}
    (h : op.act y x = .ok action) (hy : y.AllBlocks P) (hx : x.AllBlocks P) :
    action.AllBlocks P := by
  unfold act at h
  split at h
  · exact Action.allBlocks_of_result h fun v hv => allBlocks_sum hv hy hx
  · exact Action.allBlocks_of_result h fun v hv => allBlocks_difference hv
  · cases h
    exact ⟨Value.allBlocks_array.mp hy, Value.allBlocks_block.mp hx⟩
  · exact Action.allBlocks_of_result h fun v hv => allBlocks_product hv hy
  · exact Action.allBlocks_of_result h fun v hv => allBlocks_quotient hv
  · cases h
    exact ⟨Value.allBlocks_array.mp hy, Value.allBlocks_block.mp hx⟩
  · cases h
    exact Value.allBlocks_block.mp hx
  · exact Action.allBlocks_of_result h fun v hv => allBlocks_remainder hv
  · exact Action.allBlocks_of_result h fun v hv => allBlocks_powerOrPosition hv
  all_goals exact Action.allBlocks_of_result h fun v hv => allBlocks_bitwise hv

end BinaryOperator

/-! ## 3. Unary operators -/

namespace UnaryOperator

theorem allBlocks_stepDown {v : Value} {vs : List Value} (h : stepDown v = .ok vs)
    (hv : v.AllBlocks P) : ∀ w ∈ vs, w.AllBlocks P := by
  unfold stepDown at h
  split at h
  · obtain ⟨w, hw, rfl⟩ := exists_of_map_eq_ok h
    simpa using allBlocks_checked hw
  · cases h
    simp
  · cases h
    simp
  · cases h
  · cases h
    simpa [and_comm] using hv
  · split at h
    · cases h
    · cases h
      simp
  · cases h

theorem allBlocks_stepUp {v : Value} {vs : List Value} (h : stepUp v = .ok vs)
    (hv : v.AllBlocks P) : ∀ w ∈ vs, w.AllBlocks P := by
  unfold stepUp at h
  split at h
  · obtain ⟨w, hw, rfl⟩ := exists_of_map_eq_ok h
    simpa using allBlocks_checked hw
  · cases h
    simp
  · cases h
    simp
  · next items =>
    split at h
    · cases h
    · next last hlast =>
      cases h
      rw [Value.allBlocks_array] at hv
      have hinit : (Value.array items.dropLast).AllBlocks P :=
        Value.allBlocks_array.mpr fun w hw => hv w (List.dropLast_subset items hw)
      intro w hw
      simp only [List.mem_cons, List.not_mem_nil, or_false] at hw
      rcases hw with rfl | rfl
      · exact hinit
      · exact hv w (List.mem_of_getLast? hlast)
  · split at h
    · cases h
    · cases h
      simp
  · cases h

theorem allBlocks_complement {v : Value} {action : Action} (h : complement v = .ok action)
    (hv : v.AllBlocks P) : action.AllBlocks P := by
  unfold complement at h
  split at h
  · cases h
    exact Value.allBlocks_array.mp hv
  · cases h
    exact Value.allBlocks_block.mp hv
  · split at h
    · cases h
      simp
    · cases h

theorem allBlocks_toIntegerValue {v w : Value} (h : toIntegerValue v = .ok w) :
    w.AllBlocks P := by
  unfold toIntegerValue at h
  split at h
  all_goals
    split at h
    · cases h
      exact Value.allBlocks_integer _
    · cases h

theorem allBlocks_toRealValue {v w : Value} (h : toRealValue v = .ok w) : w.AllBlocks P := by
  unfold toRealValue at h
  split at h
  · split at h
    · cases h
      exact Value.allBlocks_real _
    · cases h
  · cases h
    exact Value.allBlocks_real _
  · split at h
    · cases h
      exact Value.allBlocks_real _
    · cases h

theorem allBlocks_characterOf {code : Int64} {w : Value} (h : characterOf code = .ok w) :
    w.AllBlocks P := by
  unfold characterOf at h
  split at h
  · cases h
    exact Value.allBlocks_character _
  · cases h

theorem allBlocks_toCharacterValue {v w : Value} (h : toCharacterValue v = .ok w) :
    w.AllBlocks P := by
  unfold toCharacterValue at h
  split at h
  · cases h
    exact Value.allBlocks_character _
  · exact allBlocks_characterOf h
  · exact allBlocks_characterOf h
  · cases h

/-- **A unary operator makes no block.** -/
theorem act_allBlocks (op : UnaryOperator) {v : Value} {action : Action}
    (h : op.act v = .ok action) (hv : v.AllBlocks P) : action.AllBlocks P := by
  cases op with
  | bitNot => exact allBlocks_complement h hv
  | decrement =>
    obtain ⟨vs, hvs, rfl⟩ := exists_of_map_eq_ok h
    exact allBlocks_stepDown hvs hv
  | increment =>
    obtain ⟨vs, hvs, rfl⟩ := exists_of_map_eq_ok h
    exact allBlocks_stepUp hvs hv
  | toInteger => exact Action.allBlocks_of_result h fun w hw => allBlocks_toIntegerValue hw
  | toReal => exact Action.allBlocks_of_result h fun w hw => allBlocks_toRealValue hw
  | toCharacter => exact Action.allBlocks_of_result h fun w hw => allBlocks_toCharacterValue hw
  | toText =>
    cases h
    exact Action.allBlocks_result.mpr (Value.allBlocks_text _)

end UnaryOperator

end

end StackLang
