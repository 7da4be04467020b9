import Mathlib
import StackLang.Proofs.Pushing
import StackLang.Proofs.Requests

/-!
# Maps and folds

* To map over a text is to map over its characters and to write the results as a text
  (`Eval.mapText_eq_mapArray`), whatever the block does.
* To map over two lists one behind the other is to map over the first and then, on the machine that
  this leaves, over the second (`Eval.mapArray_append`); to fold them is to fold the first and to
  combine it with the elements of the second in turn.

Each element is mapped on the stack that the elements before it have left. A block may take values
from below its element, so the stack may get lower, but it never gets higher
(`Eval.noHigher_collectAll`): where there is room at the beginning, there is room for the array at
the end.
-/

namespace StackLang

/-- The stack is no higher than it was, and has the same capacity. -/
structure Stack.NoHigher (before after : Stack) : Prop where
  size : after.size ≤ before.size
  capacity : after.capacity = before.capacity

namespace Stack.NoHigher

variable {s t u : Stack}

theorem refl (s : Stack) : s.NoHigher s :=
  ⟨Nat.le_refl _, rfl⟩

theorem trans (h : s.NoHigher t) (h' : t.NoHigher u) : s.NoHigher u :=
  ⟨Nat.le_trans h'.size h.size, h'.capacity.trans h.capacity⟩

/-- Room stays room. -/
theorem room (h : s.NoHigher t) (hroom : s.size < s.capacity) : t.size < t.capacity := by
  have hsize := h.size
  have hcapacity := h.capacity
  omega

end Stack.NoHigher

namespace Eval

variable {α β : Type} {m m' : Machine} {fault : Fault}

/-! ## 1. What was pushed is taken by the next operator -/

/-- An operator that gives one result puts it in the place of what was pushed. On a full stack the
operand has no place, and neither has the result. -/
theorem run_push_applyUnary (call : Block → Eval Unit) {op : UnaryOperator} {v result : Value}
    (h : op.act v = .ok (.result result)) (m : Machine) :
    EStateM.run (do push v; applyUnary call op) m = EStateM.run (push result) m := by
  rw [EStateM.run_bind]
  rcases Nat.lt_or_ge m.stack.size m.stack.capacity with hroom | hfull
  · rw [run_push_of_lt hroom]
    show EStateM.run (applyUnary call op) (m.add [v]) = _
    rw [run_applyUnary_add call h]
    show EStateM.run (do push result; pure ()) m = _
    rw [bind_pure_unit]
  · rw [run_push_of_none (Stack.push?_eq_none_iff.mpr hfull),
      run_push_of_none (Stack.push?_eq_none_iff.mpr hfull)]

/-- **To map over a text is to map over its characters**, and to write what the block left as a
text. -/
theorem mapText_eq_mapArray (call : Block → Eval Unit) (block : Block) (text : String) :
    mapText call block text = (do
      mapArray call block (text.toList.map .character)
      applyUnary call .toText) := by
  have htext : ∀ results m, EStateM.run (do
      push (.array results)
      applyUnary call .toText) m = EStateM.run (push (.text (Value.renderAll results))) m := by
    intro results m
    have hact : UnaryOperator.act .toText (.array results) =
        .ok (.result (.text (Value.renderAll results))) := by
      rw [← Value.render_array]
      rfl
    exact run_push_applyUnary call hact m
  rw [mapText_eq, mapArray, bind_assoc]
  congr 1
  funext results m
  exact (htext results m).symm

/-! ## 2. One list behind another -/

theorem collectAll_append (call : Block → Eval Unit) (block : Block) (vs ws : List Value) :
    collectAll call block (vs ++ ws) = (do
      let first ← collectAll call block vs
      let second ← collectAll call block ws
      pure (first ++ second)) := by
  induction vs with
  | nil => simp
  | cons v vs ih =>
    rw [List.cons_append, collectAll_cons, collectAll_cons, ih]
    simp only [bind_assoc, pure_bind, List.append_assoc]

theorem fold_append (call : Block → Eval Unit) (block : Block) {vs : List Value} (h : vs ≠ [])
    (ws : List Value) :
    fold call block (vs ++ ws) = (do
      fold call block vs
      ws.forM (combine call block)) := by
  obtain ⟨v, vs, rfl⟩ := List.exists_cons_of_ne_nil h
  rw [List.cons_append, fold_cons, fold_cons, bind_assoc]
  congr 1
  funext _
  exact List.forM_append

/-! ## 3. The stack gets no higher -/

/-- A way to run blocks that leaves the capacity of the stack as it is. -/
def KeepsCapacity (call : Block → Eval Unit) : Prop :=
  ∀ block m, (Outcome.machine (EStateM.run (call block) m)).stack.capacity = m.stack.capacity

theorem invariant_capacity (limit capacity : Nat) :
    Invariant limit (fun m => m.stack.capacity = capacity) (fun _ => True) (fun _ => True) where
  push hm _ hp := (Stack.push?_eq_some_iff.mp hp).2.2.trans hm
  pop hm hp := ⟨(Stack.pop?_eq_some_iff.mp hp).2.trans hm, Value.allBlocks_true _⟩
  above {m height} hm _ :=
    ⟨(Stack.capacity_above m.stack height).trans hm, fun v _ => v.allBlocks_true⟩
  marks _ hm := hm
  get _ _ _ := Value.allBlocks_true _
  set hm _ _ := hm
  input hm := hm
  enter hm _ := hm
  leave hm := hm
  program _ := Coupling.allowsProgram_of_forall (fun _ => trivial) (fun _ _ => trivial) _

theorem keepsCapacity_call [Allocator] (limit : Nat) : KeepsCapacity (call limit) :=
  fun block m => (Coupling.machine_of_self ((invariant_capacity limit m.stack.capacity).perform
    (fun _ _ => trivial) (.call block)) rfl).1

section

variable {call : Block → Eval Unit} {block : Block} {results : List Value}

/-- A block that is run on a value leaves nothing above the starting size, and may have taken more
than the value. -/
theorem noHigher_collect (hcall : KeepsCapacity call) {v : Value}
    (h : EStateM.run (collect call block v) m = .ok results m') : m.stack.NoHigher m'.stack := by
  obtain ⟨before, m₀, hbefore, h⟩ := exists_of_run_bind_ok h
  cases hbefore
  obtain ⟨_, m₁, hpush, h⟩ := exists_of_run_bind_ok h
  obtain ⟨_, m₂, hblock, h⟩ := exists_of_run_bind_ok h
  obtain ⟨after, m₃, hafter, htake⟩ := exists_of_run_bind_ok h
  cases hafter
  obtain rfl := eq_add_of_run_push hpush
  have hcapacity := hcall block (m.add [v])
  rw [hblock, Outcome.machine_ok] at hcapacity
  rw [run_takeAbove_of_le (Nat.min_le_right _ _)] at htake
  cases htake
  constructor
  · show (m₂.stack.above (min m.stack.size m₂.stack.size)).2.size ≤ m.stack.size
    rw [← Stack.length_toList, Stack.toList_above, List.length_take]
    omega
  · exact hcapacity

/-- **The stack gets no higher by a map.** The induction is over the elements: each is mapped on
the stack that the one before it has left. -/
theorem noHigher_collectAll (hcall : KeepsCapacity call) {vs : List Value}
    (h : EStateM.run (collectAll call block vs) m = .ok results m') :
    m.stack.NoHigher m'.stack := by
  induction vs generalizing m results with
  | nil =>
    rw [collectAll_nil] at h
    cases h
    exact .refl _
  | cons v vs ih =>
    rw [collectAll_cons] at h
    obtain ⟨first, m₁, hfirst, h⟩ := exists_of_run_bind_ok h
    obtain ⟨rest, m₂, hrest, h⟩ := exists_of_run_bind_ok h
    cases h
    exact (noHigher_collect hcall hfirst).trans (ih hrest)

/-! ## 4. Blocks that do not reach below their element -/

section

variable {call : Block → Eval Unit} {block : Block}

/-- What a block puts in the place of a value is all that is taken from above the starting size. -/
theorem run_collect_of_call (hroom : m.stack.size < m.stack.capacity) {v : Value}
    {results : List Value}
    (h : EStateM.run (call block) (m.add [v]) = .ok () (m.add results)) :
    EStateM.run (collect call block v) m = .ok results m := by
  have habove := m.stack.above_add results
  have hle : m.stack.size ≤ (m.add results).stack.size := by
    rw [Machine.stack_add, Stack.size_add]
    exact Nat.le_add_right _ _
  rw [collect, EStateM.run_bind, run_size]
  show EStateM.run (do
    push v
    call block
    let after ← size
    takeAbove (min m.stack.size after)) m = _
  rw [EStateM.run_bind, run_push_of_lt hroom]
  show EStateM.run (do
    call block
    let after ← size
    takeAbove (min m.stack.size after)) (m.add [v]) = _
  rw [EStateM.run_bind, h]
  show EStateM.run (takeAbove (min m.stack.size (m.add results).stack.size)) (m.add results) = _
  rw [Nat.min_eq_left hle, run_takeAbove_of_le hle]
  show EStateM.Result.ok ((m.stack.add results).above m.stack.size).1
    { m with stack := ((m.stack.add results).above m.stack.size).2 } = _
  rw [habove]

/-- A block that puts other values in the place of each value: all of them are collected, and the
machine is as it was. -/
theorem run_collectAll_of_call (hroom : m.stack.size < m.stack.capacity) {γ : Type} {l : List γ}
    {value : γ → Value} {image : γ → List Value}
    (h : ∀ a ∈ l, EStateM.run (call block) (m.add [value a]) = .ok () (m.add (image a))) :
    EStateM.run (collectAll call block (l.map value)) m = .ok (l.flatMap image) m := by
  induction l with
  | nil =>
    rw [List.map_nil, collectAll_nil]
    rfl
  | cons a l ih =>
    have hfirst := run_collect_of_call hroom (h a List.mem_cons_self)
    have hrest := ih fun b hb => h b (List.mem_cons_of_mem a hb)
    rw [List.map_cons, collectAll_cons, EStateM.run_bind, hfirst]
    show EStateM.run (do
      let rest ← collectAll call block (l.map value)
      pure (image a ++ rest)) m = _
    rw [EStateM.run_bind, hrest, List.flatMap_cons]
    rfl

/-- **A block that puts a character in the place of each character** maps a text to the text of these
characters. -/
theorem run_mapText_of_call (hroom : m.stack.size < m.stack.capacity) {image : Char → Char}
    (h : ∀ c, EStateM.run (call block) (m.add [.character c]) =
      .ok () (m.add [.character (image c)])) (text : String) :
    EStateM.run (mapText call block text) m = .ok () (m.add [.text (text.map image)]) := by
  have hresults : text.toList.flatMap (fun c => [Value.character (image c)]) =
      (text.toList.map image).map .character := by
    rw [List.map_map, List.map_eq_flatMap]
    rfl
  have htext : String.ofList (text.toList.map image) = text.map image := by
    rw [← String.toList_inj, String.toList_ofList, String.toList_map]
  rw [mapText_eq, EStateM.run_bind, run_collectAll_of_call hroom fun c _ => h c]
  show EStateM.run (push (.text (Value.renderAll _))) m = _
  rw [hresults, Value.renderAll_map_character, htext]
  exact run_push_of_lt hroom _

end

/-! ## 5. Maps over one list behind another -/

/-- Where there is room, a map ends as the collecting does, with the results on top. -/
theorem run_mapArray (hcall : KeepsCapacity call) (hroom : m.stack.size < m.stack.capacity)
    {vs : List Value} (h : EStateM.run (collectAll call block vs) m = .ok results m') :
    EStateM.run (mapArray call block vs) m = .ok () (m'.add [.array results]) := by
  rw [mapArray, EStateM.run_bind, h]
  exact run_push_of_lt ((noHigher_collectAll hcall h).room hroom) _

end

/-- **Maps and folds of two lists, one behind the other.** The map over both does what the map over
the first does, if that fails; else what the map over the second does on the machine from which the
first array has been taken; and if neither fails it pushes both arrays as one. The fold over both
does what the fold over the first does and then combines it with the elements of the second. -/
theorem mapArray_append [Allocator] (limit : Nat) (block : Block) (vs ws : List Value) {m : Machine}
    (hroom : m.stack.size < m.stack.capacity) :
    (match EStateM.run (mapArray (call limit) block vs) m with
      | .error fault m₁ =>
        EStateM.run (mapArray (call limit) block (vs ++ ws)) m = .error fault m₁
      | .ok _ m₁ => ∃ first m₂, EStateM.run pop m₁ = .ok (.array first) m₂ ∧
        match EStateM.run (mapArray (call limit) block ws) m₂ with
        | .error fault m₃ =>
          EStateM.run (mapArray (call limit) block (vs ++ ws)) m = .error fault m₃
        | .ok _ m₃ => ∃ second m₄, EStateM.run pop m₃ = .ok (.array second) m₄ ∧
          EStateM.run (mapArray (call limit) block (vs ++ ws)) m =
            EStateM.run (push (.array (first ++ second))) m₄) ∧
    (vs ≠ [] → fold (call limit) block (vs ++ ws) = do
      fold (call limit) block vs
      ws.forM fun w => do
        push w
        call limit block) := by
  have hcall := keepsCapacity_call limit
  have hboth : ∀ n, EStateM.run (mapArray (call limit) block (vs ++ ws)) n =
      EStateM.run (do
        let first ← collectAll (call limit) block vs
        let second ← collectAll (call limit) block ws
        push (.array (first ++ second))) n := fun n => by
    rw [mapArray, collectAll_append]
    simp only [bind_assoc, pure_bind]
  refine ⟨?_, fun h => fold_append (call limit) block h ws⟩
  rw [hboth, EStateM.run_bind]
  cases hfirst : EStateM.run (collectAll (call limit) block vs) m with
  | error fault m₁ =>
    rw [mapArray, run_bind_of_error hfirst]
  | ok first m₁ =>
    have hroom₁ := (noHigher_collectAll hcall hfirst).room hroom
    rw [run_mapArray hcall hroom hfirst]
    refine ⟨first, m₁, run_pop_add m₁ _, ?_⟩
    dsimp only
    rw [EStateM.run_bind]
    cases hsecond : EStateM.run (collectAll (call limit) block ws) m₁ with
    | error fault m₂ =>
      rw [mapArray, run_bind_of_error hsecond]
    | ok second m₂ =>
      rw [run_mapArray hcall hroom₁ hsecond]
      exact ⟨second, m₂, run_pop_add m₂ _, rfl⟩

/-- A block that takes more than its element: the second element is mapped on a lower stack than the
first. -/
theorem mapArray_append_of_lower :
    (Machine.mk ⟨#[.integer 5, .integer 6, .integer 7], 4⟩ .initial [] .empty 0).stack.size < 4 ∧
    EStateM.run (mapArray (call 1) ⟨"+ +"⟩ [.integer 1])
        ⟨⟨#[.integer 5, .integer 6, .integer 7], 4⟩, .initial, [], .empty, 0⟩ =
      .ok () ⟨⟨#[.integer 5, .integer 14, .array []], 4⟩, .initial, [], .empty, 0⟩ ∧
    EStateM.run (mapArray (call 1) ⟨"+ +"⟩ [.integer 1, .integer 2])
        ⟨⟨#[.integer 5, .integer 6, .integer 7], 4⟩, .initial, [], .empty, 0⟩ =
      EStateM.run (push (.array [])) ⟨⟨#[.integer 21], 4⟩, .initial, [], .empty, 0⟩ ∧
    fold (call 1) ⟨"+ +"⟩ [.integer 1, .integer 2] = (do
      fold (call 1) ⟨"+ +"⟩ [.integer 1]
      [.integer 2].forM fun w => do
        push w
        call 1 ⟨"+ +"⟩) := by
  have hroom :
      (Machine.mk ⟨#[.integer 5, .integer 6, .integer 7], 4⟩ .initial [] .empty 0).stack.size <
        4 := by
    decide
  have hfirst : EStateM.run (mapArray (call 1) ⟨"+ +"⟩ [.integer 1])
      ⟨⟨#[.integer 5, .integer 6, .integer 7], 4⟩, .initial, [], .empty, 0⟩ =
      .ok () ⟨⟨#[.integer 5, .integer 14, .array []], 4⟩, .initial, [], .empty, 0⟩ := by cbv
  have hsecond : EStateM.run (mapArray (call 1) ⟨"+ +"⟩ [.integer 2])
      ⟨⟨#[.integer 5, .integer 14], 4⟩, .initial, [], .empty, 0⟩ =
      .ok () ⟨⟨#[.integer 21, .array []], 4⟩, .initial, [], .empty, 0⟩ := by cbv
  obtain ⟨hmap, hfold⟩ := mapArray_append 1 ⟨"+ +"⟩ [.integer 1] [.integer 2] hroom
  rw [hfirst] at hmap
  obtain ⟨first, m₂, hpop, hmap⟩ := hmap
  cases hpop
  rw [List.pop_toArray, List.dropLast_cons_cons, List.dropLast_cons_cons, List.dropLast_singleton,
    hsecond] at hmap
  obtain ⟨second, m₄, hpop', hrun⟩ := hmap
  cases hpop'
  exact ⟨hroom, hfirst, hrun, hfold (List.cons_ne_nil _ _)⟩

end Eval

end StackLang
