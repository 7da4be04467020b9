import StackLang.Proofs.Coupling.Dispatch

/-!
# From tokens to runs

Two runners (`Runner`) that treat every token alike also treat every program alike
(`Runners.run`). Between a token and a program stand the blocks that run inside each other; the
induction is over the levels that are left on either side (`Runners.runTokens`). No claim is made
of what happens beyond the last level, because the limit is met there before.
-/

namespace StackLang

namespace Coupling

open Eval

variable {C : Coupling} {d e : Nat} {r s : Runner}

/-- Two runners to be compared: they do the same with every token, a block that the first one allows
the second one allows too, and machines stay related when a block begins and when it ends. -/
structure Runners (C : Coupling) (r s : Runner) : Prop where
  each {d e : Nat} {call call' : Block → Eval Unit} {token : String} : C.Calls d e call call' →
    C.AllowsToken token → C.Alike d e (r.each call token) (s.each call' token)
  allow {m n : Machine} : C.related m n → m.depth < r.limit → n.depth < s.limit
  refuse {m n : Machine} : C.related m n → r.limit ≤ m.depth →
    C.excused (.stackOverflow r.limit) ∨ s.limit ≤ n.depth ∧ s.limit = r.limit
  enter {m n : Machine} : C.related m n → m.depth < r.limit → n.depth < s.limit →
    C.related m.enter n.enter
  leave {m n : Machine} : C.related m n → C.related m.leave n.leave
  program {b : Block} : C.block b → C.AllowsProgram b.body

/-! ## 1. One block -/

theorem coupled_withTokens {source : String} {body body' : List String → Eval Unit}
    (hp : C.AllowsProgram source)
    (h : ∀ tokens, (∀ t ∈ tokens, C.AllowsToken t) → C.Alike d e (body tokens) (body' tokens)) :
    C.Alike d e (withTokens source body) (withTokens source body') := by
  refine (coupled_ofExcept _).bind fun tokens tokens' h' => ?_
  obtain ⟨rfl, htokens⟩ := h'
  exact h tokens (hp tokens htokens)

namespace Runners

/-- A block that is not refused is within both limits. -/
theorem coupled_checkDepth (h : C.Runners r s) :
    C.Coupled d e (fun _ _ => d < r.limit ∧ e < s.limit) (checkDepth r.limit)
      (checkDepth s.limit) := by
  intro m n hmn
  rcases Nat.lt_or_ge m.depth r.limit with hlt | hle
  · have hlt' : n.depth < s.limit := h.allow hmn.related hlt
    rw [run_checkDepth_of_lt hlt, run_checkDepth_of_lt hlt']
    exact .ok ⟨hmn.left ▸ hlt, hmn.right ▸ hlt'⟩ hmn
  · rw [run_checkDepth_of_le hle]
    rcases h.refuse hmn.related hle with hexcused | hrefused
    · exact .excused hexcused
    · rw [run_checkDepth_of_le hrefused.1, hrefused.2]
      exact .error hmn

theorem at_enter (h : C.Runners r s) {m n : Machine} (hmn : C.At d e m n) (hd : d < r.limit)
    (he : e < s.limit) : C.At (d + 1) (e + 1) m.enter n.enter where
  related := h.enter hmn.related (hmn.left ▸ hd) (hmn.right ▸ he)
  left := congrArg (· + 1) hmn.left
  right := congrArg (· + 1) hmn.right

theorem at_leave (h : C.Runners r s) {m n : Machine} (hmn : C.At (d + 1) (e + 1) m n) :
    C.At d e m.leave n.leave where
  related := h.leave hmn.related
  left := congrArg (· - 1) hmn.left
  right := congrArg (· - 1) hmn.right

/-- What runs one level deeper is coupled there, and comes back to its level. -/
theorem nested (h : C.Runners r s) {x y : Eval Unit} (hd : d < r.limit) (he : e < s.limit)
    (hxy : C.Alike (d + 1) (e + 1) x y) : C.Alike d e (Eval.nested x) (Eval.nested y) := by
  intro m n hmn
  have hend := hxy m.enter n.enter (h.at_enter hmn hd he)
  generalize hx : EStateM.run x m.enter = o at hend
  generalize hy : EStateM.run y n.enter = o' at hend
  cases hend with
  | ok hQ hmn =>
    rw [run_nested_of_ok hx, run_nested_of_ok hy]
    exact .ok hQ (h.at_leave hmn)
  | error hmn =>
    rw [run_nested_of_error hx, run_nested_of_error hy]
    exact .error (h.at_leave hmn)
  | excused h =>
    rw [run_nested_of_error hx]
    exact .excused h

theorem execute (h : C.Runners r s) {body body' : List String → Eval Unit}
    (hbody : d < r.limit → e < s.limit → ∀ tokens, (∀ t ∈ tokens, C.AllowsToken t) →
      C.Alike (d + 1) (e + 1) (body tokens) (body' tokens)) :
    C.Calls d e (Eval.execute r.limit body) (Eval.execute s.limit body') := by
  intro b hb
  refine h.coupled_checkDepth.bind fun _ _ hlt => ?_
  refine coupled_withTokens (h.program hb) fun tokens htokens => ?_
  exact h.nested hlt.1 hlt.2 (hbody hlt.1 hlt.2 tokens htokens)

/-! ## 2. Blocks inside blocks -/

/-- **Blocks are treated alike** where enough levels are left on both sides. -/
theorem runTokens (h : C.Runners r s) (levels levels' : Nat) (hl : r.limit ≤ d + levels)
    (hl' : s.limit ≤ e + levels') :
    C.Calls d e (Eval.execute r.limit (r.runTokens levels))
      (Eval.execute s.limit (s.runTokens levels')) := by
  induction levels generalizing levels' d e with
  | zero =>
    refine h.execute fun hd _ => ?_
    omega
  | succ levels ih =>
    refine h.execute fun _ he tokens htokens => ?_
    cases levels' with
    | zero => omega
    | succ levels' =>
      refine coupled_forM fun t ht => h.each ?_ (htokens t ht)
      exact ih levels' (by omega) (by omega)

theorem call (h : C.Runners r s) : C.Calls d e r.call s.call := by
  intro b hb m n hmn
  have hl : r.limit ≤ d + (r.limit - m.depth) := by
    have := hmn.left
    omega
  have hl' : s.limit ≤ e + (s.limit - n.depth) := by
    have := hmn.right
    omega
  exact h.runTokens (r.limit - m.depth) (s.limit - n.depth) hl hl' b hb m n hmn

/-- **Programs are treated alike.** -/
theorem run (h : C.Runners r s) {source : String} (hp : C.AllowsProgram source) :
    C.Alike d e (r.run source) (s.run source) :=
  coupled_withTokens hp fun _ htokens =>
    coupled_forM fun t ht => h.each h.call (htokens t ht)

end Runners

end Coupling

end StackLang
