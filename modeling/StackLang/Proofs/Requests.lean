import StackLang.Machine.Request
import StackLang.Proofs.Nesting

/-!
# What no request can break

Whatever is asked of a machine, in whatever order and with whatever end: the stack stays within its
capacity, the capacity and the count of blocks stay as they are, and no variable loses its value
(`after_keeps`). The count of blocks is the subtle part, because a block may be left by a fault at
any point.
-/

namespace StackLang

/-! ## 1. What is kept -/

/-- What a machine keeps of the one it was at the start. -/
structure Machine.Keeps (start m : Machine) : Prop where
  fits : m.stack.Fits
  capacity : m.stack.capacity = start.stack.capacity
  /-- No variable has lost its value. -/
  set : ∀ name, (start.vars.get? name).isSome → (m.vars.get? name).isSome
  /-- Only capital letters have gained one. -/
  letters : ∀ name, start.vars.get? name = none → (m.vars.get? name).isSome → name.isUpper

namespace Machine.Keeps

theorem refl {m : Machine} (h : m.stack.Fits) : m.Keeps m where
  fits := h
  capacity := rfl
  set _ hset := hset
  letters name hnone hset := by
    rw [hnone] at hset
    cases hset

variable {start m : Machine} {stack : Stack}

/-- With another stack of the same capacity that fits. -/
theorem withStack (h : start.Keeps m) (hfits : stack.size ≤ stack.capacity)
    (hcapacity : stack.capacity = m.stack.capacity) : start.Keeps { m with stack } :=
  { h with fits := hfits, capacity := hcapacity.trans h.capacity }

theorem push {v : Value} (h : start.Keeps m) (hp : m.stack.push? v = some stack) :
    start.Keeps { m with stack } := by
  obtain ⟨hroom, hvalues, hcapacity⟩ := Stack.push?_eq_some_iff.mp hp
  have hsize := congrArg List.length hvalues
  simp only [List.length_append, List.length_singleton, Stack.length_toList] at hsize
  exact h.withStack (by omega) hcapacity

theorem pop {v : Value} (h : start.Keeps m) (hp : m.stack.pop? = some (v, stack)) :
    start.Keeps { m with stack } := by
  obtain ⟨hvalues, hcapacity⟩ := Stack.pop?_eq_some_iff.mp hp
  have hsize := congrArg List.length hvalues
  simp only [List.length_append, List.length_singleton, Stack.length_toList] at hsize
  have hfits : m.stack.size ≤ m.stack.capacity := h.fits
  exact h.withStack (by omega) hcapacity

theorem above {height : Nat} (h : start.Keeps m) :
    start.Keeps { m with stack := (m.stack.above height).2 } := by
  have hsize := congrArg List.length (Stack.toList_above m.stack height)
  simp only [List.length_take, Stack.length_toList] at hsize
  have hfits : m.stack.size ≤ m.stack.capacity := h.fits
  exact h.withStack (by rw [Stack.capacity_above]; omega) (Stack.capacity_above m.stack height)

theorem setVariable {c : Char} {v : Value} (h : start.Keeps m) (hc : c.isUpper) :
    start.Keeps { m with vars := m.vars.set c v } where
  fits := h.fits
  capacity := h.capacity
  set name hset := by
    rw [Variables.get?_set]
    split
    · rfl
    · exact h.set name hset
  letters name hnone hset := by
    rw [Variables.get?_set] at hset
    split at hset
    · next heq => exact heq ▸ hc
    · exact h.letters name hnone hset

end Machine.Keeps

/-! ## 2. Every evaluation keeps it -/

/-- The elementary steps keep it, because programs name capital letters only. -/
theorem invariant_keeps (limit : Nat) (start : Machine) :
    Invariant limit start.Keeps (fun _ => True) (fun c => c.isUpper) where
  push h _ hp := h.push hp
  pop h hp := ⟨h.pop hp, Value.allBlocks_true _⟩
  above h _ := ⟨h.above, fun v _ => v.allBlocks_true⟩
  marks _ h := { h with }
  get _ _ _ := Value.allBlocks_true _
  set h hc _ := h.setVariable hc
  input h := { h with }
  enter h _ := { h with }
  leave h := { h with }
  program _ := Coupling.allowsProgram_of_forall (fun _ => trivial) (fun _ hc => hc) _

/-- **Every request is coupled with itself** under an invariant that says nothing of blocks. -/
theorem Invariant.perform [Allocator] {limit : Nat} {K : Machine → Prop} {name : Char → Prop}
    {d e : Nat} (h : Invariant limit K (fun _ => True) name) (hname : ∀ c : Char, c.isUpper → name c)
    (request : Request) :
    (Coupling.self K (fun _ => True) name).Alike d e (request.perform limit)
      (request.perform limit) := by
  have hs := h.steps
  have hr := h.runners (Runner.standard limit).beyond (Runner.standard limit).beyond
  have hcall : (Coupling.self K (fun _ => True) name).Calls d e (Eval.call limit)
      (Eval.call limit) := hr.call
  have hp : ∀ source, (Coupling.self K (fun _ => True) name).AllowsProgram source :=
    Coupling.allowsProgram_of_forall (fun _ => trivial) hname
  cases request with
  | run source => exact hr.run (hp source)
  | dispatch token =>
    exact hr.each hcall (Coupling.allowsToken_of_forall (fun _ => trivial) hname token)
  | call block => exact hcall block trivial
  | mapArray block items => exact hs.mapArray hcall trivial fun v _ => v.allBlocks_true
  | mapText block text => exact hs.mapText hcall trivial text
  | fold block items => exact hs.fold hcall trivial fun v _ => v.allBlocks_true
  | divide text separator => exact hs.alike_push (Value.allBlocks_true _)
  | collect block v =>
    exact (hs.collect hcall trivial v.allBlocks_true).bind fun _ _ _ => Coupling.coupled_pure rfl

/-! ## 3. Every list of requests keeps it -/

/-- **No request breaks the machine**: whatever is asked in whatever order, and however each request
ends, the stack fits, its capacity and the count of blocks are as before, all variables that were
set are set, and only capital letters have been set beside them. -/
theorem Request.after_keeps [Allocator] (limit : Nat) (requests : List Request) {m : Machine}
    (h : m.stack.Fits) :
    m.Keeps (after limit m requests) ∧ (after limit m requests).depth = m.depth := by
  -- the invariant speaks of the machine at the start, which stays while the requests go on
  suffices hafter : ∀ n, m.Keeps n → n.depth = m.depth →
      m.Keeps (after limit n requests) ∧ (after limit n requests).depth = m.depth from
    hafter m (.refl h) rfl
  induction requests with
  | nil => exact fun n hn hdepth => ⟨hn, hdepth⟩
  | cons request requests ih =>
    intro n hn hdepth
    obtain ⟨hkeeps, hkept⟩ :=
      Coupling.machine_of_self ((invariant_keeps limit m).perform (fun _ hc => hc) request) hn
    rw [after_cons]
    exact ih _ hkeeps (hkept.trans hdepth)

/-- Two requests that fail: the first sets a variable before, the second is inside a block. -/
theorem Request.after_keeps_of_overflow :
    (Machine.start 1 .empty).stack.Fits ∧
      (Machine.start 1 .empty).Keeps
        (after 2 (Machine.start 1 .empty) [.run "7 :G 8", .call ⟨"9"⟩]) ∧
      (after 2 (Machine.start 1 .empty) [.run "7 :G 8", .call ⟨"9"⟩]).depth = 0 :=
  ⟨Stack.empty_fits 1, after_keeps 2 _ (Stack.empty_fits 1)⟩

end StackLang
