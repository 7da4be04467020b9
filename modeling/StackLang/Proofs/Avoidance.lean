import StackLang.Proofs.Coupling.Invariant

/-!
# Runs that never come to a token or a block of a kind

Whether a run comes to a token in a state of some kind is said by what would be done instead: the
run avoids such tokens (`Eval.Avoids`) if it stays the same whatever is put in their place. The
replacement stands where tokens are carried out, so it is met in blocks at any depth too. In the
same way a run avoids blocks of some kind (`Eval.AvoidsBlocks`): whatever is put in place of a run of
such a block, it stays the same.
-/

namespace StackLang

/-- Something else is done in place of a token that meets a machine on which it is bad. -/
def Runner.except (r : Runner) (bad : String → Machine → Bool) (instead : Eval Unit) : Runner :=
  { r with each := fun call token m => if bad token m then instead m else r.each call token m }

/-- Something else is done in place of a run of a bad block. -/
def Runner.exceptBlocks (r : Runner) (bad : Block → Bool) (instead : Eval Unit) : Runner :=
  { r with each := fun call token => r.each (fun b => if bad b then instead else call b) token }

namespace Eval

variable [Allocator]

/-- A run that never comes to a bad token. -/
def Avoids (limit : Nat) (bad : String → Machine → Bool) (source : String) (m : Machine) : Prop :=
  ∀ instead, EStateM.run (((Runner.standard limit).except bad instead).run source) m =
    EStateM.run (run limit source) m

/-- A run that never runs a bad block. -/
def AvoidsBlocks (limit : Nat) (bad : Block → Bool) (source : String) (m : Machine) : Prop :=
  ∀ instead, EStateM.run (((Runner.standard limit).exceptBlocks bad instead).run source) m =
    EStateM.run (run limit source) m

end Eval

section

variable {r : Runner} {bad : String → Machine → Bool} {instead : Eval Unit}
  {call : Block → Eval Unit} {token : String} {m : Machine}

theorem Runner.each_except_of_bad (h : bad token m = true) :
    EStateM.run ((r.except bad instead).each call token) m = EStateM.run instead m := by
  simp [EStateM.run, Runner.except, h]

theorem Runner.each_except_of_not_bad (h : bad token m = false) :
    EStateM.run ((r.except bad instead).each call token) m = EStateM.run (r.each call token) m := by
  simp [EStateM.run, Runner.except, h]

end

theorem Coupling.Calls.except {C : Coupling} {d e : Nat} {call call' : Block → Eval Unit}
    (h : C.Calls d e call call') {bad : Block → Bool} (hbad : ∀ b, C.block b → bad b = false)
    (instead : Eval Unit) : C.Calls d e (fun b => if bad b then instead else call b) call' := by
  intro b hb
  simp only [hbad b hb]
  exact h b hb

variable [Allocator]

/-- **An invariant under which no token is bad keeps a run from bad tokens.** -/
theorem Invariant.avoids {limit : Nat} {K : Machine → Prop} {block : Block → Prop}
    {name : Char → Prop} (h : Invariant limit K block name) {bad : String → Machine → Bool}
    (hbad : ∀ token m, K m → bad token m = false) {source : String}
    (hsource : (Coupling.self K block name).AllowsProgram source) {m : Machine} (hm : K m) :
    Eval.Avoids limit bad source m := by
  intro instead
  have hr := h.runners (Runner.standard limit).beyond (Runner.standard limit).beyond
  have hexcept : (Coupling.self K block name).Runners ((Runner.standard limit).except bad instead)
      (Runner.standard limit) :=
    { hr with
      each := fun hcall ht m n hmn => by
        rw [Runner.each_except_of_not_bad (hbad _ m hmn.related.2)]
        exact hr.each hcall ht m n hmn }
  exact Coupling.run_eq_of_self (hexcept.run hsource) hm

/-- **An invariant under which no block is bad keeps a run from bad blocks.** -/
theorem Invariant.avoidsBlocks {limit : Nat} {K : Machine → Prop} {block : Block → Prop}
    {name : Char → Prop} (h : Invariant limit K block name) {bad : Block → Bool}
    (hbad : ∀ b, block b → bad b = false) {source : String}
    (hsource : (Coupling.self K block name).AllowsProgram source) {m : Machine} (hm : K m) :
    Eval.AvoidsBlocks limit bad source m := by
  intro instead
  have hr := h.runners (Runner.standard limit).beyond (Runner.standard limit).beyond
  have hexcept : (Coupling.self K block name).Runners
      ((Runner.standard limit).exceptBlocks bad instead) (Runner.standard limit) :=
    { hr with each := fun hcall ht => hr.each (hcall.except hbad instead) ht }
  exact Coupling.run_eq_of_self (hexcept.run hsource) hm

end StackLang
