import StackLang.Machine.Run
import StackLang.Proofs.Blocks

/-!
# Two evaluations side by side

Many laws compare two runs: under different limits, on different stacks, with different inputs. A
coupling (`Coupling`) says which machines belong together; two evaluations are coupled
(`Coupling.Coupled`) if from machines that belong together they come to results and machines that
belong together again. What every evaluation is put together from keeps this: results, faults, one
evaluation behind the other, loops (`Coupled.bind`, `coupled_forM`).

A law about one run alone is the case in which a machine belongs to itself only.
-/

namespace StackLang

/-- What is compared, and what is known meanwhile.

* `related`: which machines belong together;
* `excused`: faults of the first evaluation after which nothing is claimed of the second;
* `offset`: how much higher the second stack is;
* `block`: what is known of all blocks on stacks, in variables and in programs;
* `name`: the variables that programs may name. -/
structure Coupling where
  related : Machine → Machine → Prop
  excused : Fault → Prop
  offset : Nat
  block : Block → Prop
  name : Char → Prop

namespace Coupling

variable {C : Coupling} {α β γ δ : Type} {d e : Nat}

/-! ## 1. Coupled evaluations -/

/-- Related machines that count `d` and `e` blocks. -/
structure At (C : Coupling) (d e : Nat) (m n : Machine) : Prop where
  related : C.related m n
  left : m.depth = d
  right : n.depth = e

/-- Two ends that belong together: results of which `Q` holds, or the same fault, on related machines
that count `d` and `e` blocks. -/
inductive Ends (C : Coupling) (d e : Nat) (Q : α → β → Prop) : Outcome α → Outcome β → Prop
  | ok {a : α} {b : β} {m n : Machine} (hQ : Q a b) (hmn : C.At d e m n) :
      Ends C d e Q (.ok a m) (.ok b n)
  | error {fault : Fault} {m n : Machine} (hmn : C.At d e m n) :
      Ends C d e Q (.error fault m) (.error fault n)
  | excused {fault : Fault} {m : Machine} {o : Outcome β} (h : C.excused fault) :
      Ends C d e Q (.error fault m) o

/-- What belongs to a result is a result. -/
theorem Ends.exists_of_ok {Q : α → β → Prop} {a : α} {m : Machine} {o : Outcome β}
    (h : C.Ends d e Q (.ok a m) o) : ∃ b n, o = .ok b n ∧ Q a b ∧ C.At d e m n := by
  cases h with
  | ok hQ hmn => exact ⟨_, _, rfl, hQ, hmn⟩

/-- What belongs to a fault that is not excused is the same fault. -/
theorem Ends.exists_of_error {Q : α → β → Prop} {fault : Fault} {m : Machine} {o : Outcome β}
    (h : C.Ends d e Q (.error fault m) o) (hfault : ¬C.excused fault) :
    ∃ n, o = .error fault n ∧ C.At d e m n := by
  cases h with
  | error hmn => exact ⟨_, rfl, hmn⟩
  | excused h => exact absurd h hfault

/-- From related machines that count `d` and `e` blocks, two evaluations come to ends that belong
together; so each of them keeps the count. -/
def Coupled (C : Coupling) (d e : Nat) (Q : α → β → Prop) (x : Eval α) (y : Eval β) : Prop :=
  ∀ m n, C.At d e m n → C.Ends d e Q (EStateM.run x m) (EStateM.run y n)

/-- Coupled evaluations with the same results. -/
abbrev Alike (C : Coupling) (d e : Nat) (x y : Eval α) : Prop :=
  C.Coupled d e (· = ·) x y

/-- Two ways to run blocks that do the same with every block that can occur. -/
def Calls (C : Coupling) (d e : Nat) (call call' : Block → Eval Unit) : Prop :=
  ∀ b, C.block b → C.Alike d e (call b) (call' b)

/-! ## 2. Results, faults, sequences, loops -/

theorem coupled_pure {Q : α → β → Prop} {a : α} {b : β} (h : Q a b) :
    C.Coupled d e Q (pure a : Eval α) (pure b : Eval β) :=
  fun _ _ hmn => .ok h hmn

theorem coupled_throw {Q : α → β → Prop} (fault : Fault) :
    C.Coupled d e Q (throw fault : Eval α) (throw fault : Eval β) :=
  fun _ _ hmn => .error hmn

/-- **One behind the other**: the second parts have to be coupled for all results that the first
parts may have together. -/
theorem Ends.bind {Q : α → β → Prop} {R : γ → δ → Prop} {x : Eval α} {y : Eval β}
    {f : α → Eval γ} {g : β → Eval δ} {m n : Machine}
    (hxy : C.Ends d e Q (EStateM.run x m) (EStateM.run y n))
    (hfg : ∀ a b, Q a b → C.Coupled d e R (f a) (g b)) :
    C.Ends d e R (EStateM.run (x >>= f) m) (EStateM.run (y >>= g) n) := by
  rw [EStateM.run_bind, EStateM.run_bind]
  generalize EStateM.run x m = o at hxy ⊢
  generalize EStateM.run y n = o' at hxy ⊢
  cases hxy with
  | ok hQ hmn => exact hfg _ _ hQ _ _ hmn
  | error hmn => exact .error hmn
  | excused h => exact .excused h

theorem Coupled.bind {Q : α → β → Prop} {R : γ → δ → Prop} {x : Eval α} {y : Eval β}
    {f : α → Eval γ} {g : β → Eval δ} (hxy : C.Coupled d e Q x y)
    (hfg : ∀ a b, Q a b → C.Coupled d e R (f a) (g b)) :
    C.Coupled d e R (x >>= f) (y >>= g) :=
  fun m n hmn => (hxy m n hmn).bind hfg

/-- The same, where the first parts have the same result. -/
theorem Coupled.bind_eq {R : γ → δ → Prop} {x y : Eval α} {f : α → Eval γ} {g : α → Eval δ}
    (hxy : C.Alike d e x y) (hfg : ∀ a, C.Coupled d e R (f a) (g a)) :
    C.Coupled d e R (x >>= f) (y >>= g) :=
  hxy.bind fun a _ h => h ▸ hfg a

/-- What was calculated outside the machines is the same for both. -/
theorem coupled_ofExcept (result : Except Fault α) :
    C.Coupled d e (fun a b => a = b ∧ result = .ok a) (Eval.ofExcept result)
      (Eval.ofExcept result) := by
  cases result with
  | ok a => exact coupled_pure ⟨rfl, rfl⟩
  | error fault => exact coupled_throw fault

/-- **Loops**: it is enough to compare what is done with each element. -/
theorem coupled_forM {l : List α} {f g : α → Eval Unit} (h : ∀ a ∈ l, C.Alike d e (f a) (g a)) :
    C.Alike d e (l.forM f) (l.forM g) := by
  induction l with
  | nil => exact coupled_pure rfl
  | cons a l ih =>
    show C.Alike d e (f a >>= fun _ => l.forM f) (g a >>= fun _ => l.forM g)
    exact (h a List.mem_cons_self).bind_eq fun _ => ih fun b hb => h b (List.mem_cons_of_mem _ hb)

end Coupling

end StackLang
