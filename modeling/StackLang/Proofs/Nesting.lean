import StackLang.Proofs.Avoidance

/-!
# Blocks inside blocks come to an end

A block may load and run any block, itself included, so nothing in a program gets smaller while it
runs. What gets smaller is what the limit leaves: no run nests blocks deeper than that.

* `run_runWithin`: with as many levels as the limit leaves, what would be done beyond the last one
  does not matter;
* `runsBlocks_iff`: a block is run by running the blocks inside it in the same way, and this rule
  has exactly one solution. A recursion that went on for ever would leave its outcome open.
-/

namespace StackLang

/-- Runs a program with a number of levels for blocks inside each other. -/
def Runner.runWithin (r : Runner) (levels : Nat) (source : String) : Eval Unit :=
  Eval.withTokens source fun tokens =>
    tokens.forM (r.each (Eval.execute r.limit (r.runTokens levels)))

namespace Eval

/-- A way to run blocks that runs the blocks inside a block in the same way. -/
def RunsBlocks [Allocator] (limit : Nat) (runBlock : Block → Eval Unit) : Prop :=
  ∀ b, runBlock b = execute limit (fun tokens => tokens.forM (dispatch runBlock)) b

variable {limit bound d : Nat}

/-! ## 1. The count of blocks is bounded -/

/-- The count of blocks never passes a bound that is no less than the limit. -/
theorem invariant_depth (h : limit ≤ bound) :
    Invariant limit (fun m => m.depth ≤ bound) (fun _ => True) (fun _ => True) where
  push hm _ _ := hm
  pop hm _ := ⟨hm, Value.allBlocks_true _⟩
  above hm _ := ⟨hm, fun v _ => v.allBlocks_true⟩
  marks _ hm := hm
  get _ _ _ := Value.allBlocks_true _
  set hm _ _ := hm
  input hm := hm
  enter _ hlt := Nat.le_trans hlt h
  leave hm := Nat.le_trans (Nat.sub_le _ _) hm
  program _ := Coupling.allowsProgram_of_forall (fun _ => trivial) (fun _ _ => trivial) _

/-- The coupling of every machine with itself, up to a bound on the count of blocks. -/
abbrev upTo (bound : Nat) : Coupling :=
  Coupling.self (fun m => m.depth ≤ bound) (fun _ => True) (fun _ => True)

theorem allowsProgram_upTo (source : String) : (upTo bound).AllowsProgram source :=
  Coupling.allowsProgram_of_forall (fun _ => trivial) (fun _ _ => trivial) source

/-- Two ways to run blocks that cannot be told apart at any count of blocks are the same. -/
theorem eq_of_calls (limit : Nat) {f g : Block → Eval Unit}
    (h : ∀ bound d, limit ≤ bound → (upTo bound).Calls d d f g) : f = g := by
  funext b m
  exact Coupling.run_eq_of_self (h (max limit m.depth) m.depth (Nat.le_max_left _ _) b trivial)
    (Nat.le_max_right limit m.depth)

/-! ## 2. No level is missing -/

variable [Allocator]

/-- With as many levels as the limit leaves, blocks are run as they are run without a count of
levels. -/
theorem calls_runTokens (h : limit ≤ bound) (beyond : List String → Eval Unit) (levels : Nat)
    (hl : limit ≤ d + levels) :
    (upTo bound).Calls d d (execute limit (Runner.runTokens ⟨limit, dispatch, beyond⟩ levels))
      (call limit) := by
  intro b hb m n hmn
  have hr := (invariant_depth h).runners beyond (Runner.standard limit).beyond
  have hl' : limit ≤ d + (limit - n.depth) := by
    have := hmn.right
    omega
  exact hr.runTokens levels (limit - n.depth) hl hl' b hb m n hmn

/-- **No level is missing**: a run does not come beyond the levels that the limit leaves. -/
theorem run_runWithin (beyond : List String → Eval Unit) (source : String) (m : Machine) :
    EStateM.run (Runner.runWithin ⟨limit, dispatch, beyond⟩ (limit - m.depth) source) m =
      EStateM.run (run limit source) m := by
  have hbound := Nat.le_max_left limit m.depth
  have hr := (invariant_depth hbound).runners beyond (Runner.standard limit).beyond
  have hcalls := calls_runTokens (d := m.depth) hbound beyond (limit - m.depth) (by omega)
  refine Coupling.run_eq_of_self (K := fun m' => m'.depth ≤ max limit m.depth)
    (Coupling.coupled_withTokens (allowsProgram_upTo source) fun tokens htokens => ?_)
    (Nat.le_max_right limit m.depth)
  exact Coupling.coupled_forM fun t ht => hr.each hcalls (htokens t ht)

/-! ## 3. The rule by which blocks are run has one solution -/

/-- The runner of programs obeys the rule. -/
theorem runsBlocks_call (limit : Nat) : RunsBlocks limit (call limit) := by
  refine fun b => congrFun (eq_of_calls limit fun bound d h => ?_) b
  have hr := (invariant_depth h).runners (Runner.standard limit).beyond
    (Runner.standard limit).beyond
  intro b hb m n hmn
  have hm : m.depth = d := hmn.left
  refine hr.execute (fun hd _ tokens htokens => ?_) b hb m n hmn
  -- one level is for the tokens of this block, the others are for what they run
  obtain ⟨levels, hlevels⟩ : ∃ levels, limit - m.depth = levels + 1 :=
    ⟨limit - m.depth - 1, by have hd : d < limit := hd; omega⟩
  rw [show (Runner.standard limit).limit = limit from rfl, hlevels]
  refine Coupling.coupled_forM fun t ht => hr.each ?_ (htokens t ht)
  exact calls_runTokens h _ levels (by omega)

/-- Every solution agrees with the runner. The induction is over what the limit leaves: where it
leaves nothing, all solutions refuse the block. -/
theorem calls_of_runsBlocks {f : Block → Eval Unit} (hf : RunsBlocks limit f) (h : limit ≤ bound)
    (levels : Nat) (hl : limit ≤ d + levels) : (upTo bound).Calls d d f (call limit) := by
  have hr := (invariant_depth h).runners (Runner.standard limit).beyond
    (Runner.standard limit).beyond
  induction levels generalizing d with
  | zero =>
    intro b hb
    rw [hf b, runsBlocks_call limit b]
    refine hr.execute (fun hd _ => ?_) b hb
    have hd : d < limit := hd
    omega
  | succ levels ih =>
    intro b hb
    rw [hf b, runsBlocks_call limit b]
    refine hr.execute (fun _ _ tokens htokens => ?_) b hb
    exact Coupling.coupled_forM fun t ht => hr.each (ih (by omega)) (htokens t ht)

/-- **The rule has exactly one solution.** -/
theorem runsBlocks_iff {f : Block → Eval Unit} : RunsBlocks limit f ↔ f = call limit := by
  constructor
  · intro hf
    exact eq_of_calls limit fun bound d h =>
      calls_of_runsBlocks hf h limit (Nat.le_add_left limit d)
  · rintro rfl
    exact runsBlocks_call limit

/-! ## 4. Every run ends -/

/-- **Every run comes to its end within the limit.** It never comes beyond the levels that the limit
leaves, whatever stands there; the blocks inside blocks are run by a rule with one solution only;
and no token meets a machine on which more blocks are counted than the limit allows. -/
theorem run_ends_within (limit : Nat) (source : String) (m : Machine) :
    (∀ beyond, EStateM.run
        (Runner.runWithin ⟨limit, dispatch, beyond⟩ (limit - m.depth) source) m =
      EStateM.run (run limit source) m) ∧
    (∀ runBlock, RunsBlocks limit runBlock ↔ runBlock = call limit) ∧
    Avoids limit (fun _ n => decide (max limit m.depth < n.depth)) source m := by
  refine ⟨fun beyond => run_runWithin beyond source m, fun _ => runsBlocks_iff, ?_⟩
  refine (invariant_depth (Nat.le_max_left limit m.depth)).avoids (fun _ n hn => ?_)
    (allowsProgram_upTo source) (Nat.le_max_right limit m.depth)
  exact decide_eq_false (Nat.not_lt.mpr hn)

end Eval

end StackLang
