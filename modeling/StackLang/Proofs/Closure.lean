import StackLang.Machine.Request

/-!
# Properties of all evaluations

A property of evaluations that the elementary steps have and that passes to what is put together
from evaluations (`Eval.Closed`) is a property of every run (`Closed.run`) and of whatever else is
asked of a machine (`Closed.request`). Of the steps only one looks at the input, to read a line; the
others are quiet (`Eval.Quiet`).

What is said by such a property is said of each evaluation by itself, whatever the values it deals
with; laws that follow values through a run, or that compare two runs step by step, need a coupling.
-/

namespace StackLang

namespace Eval

/-- The elementary steps that do not look at the input. -/
inductive Quiet : {α : Type} → Eval α → Prop
  | pure {α : Type} (a : α) : Quiet (pure a : Eval α)
  | throw {α : Type} (fault : Fault) : Quiet (throw fault : Eval α)
  | size : Quiet size
  | push (v : Value) : Quiet (push v)
  | pop : Quiet pop
  | top : Quiet top
  | takeAbove (height : Nat) : Quiet (takeAbove height)
  | openArray : Quiet openArray
  | closeMark : Quiet closeMark
  | getVariable (name : Char) : Quiet (getVariable name)
  | setVariable (name : Char) (v : Value) : Quiet (setVariable name v)
  | checkDepth (limit : Nat) : Quiet (checkDepth limit)

/-- A property of evaluations that the elementary steps have, and that passes to evaluations one
behind the other, to what is run inside a block and to what depends on the count of blocks. -/
structure Closed (P : ∀ {α : Type}, Eval α → Prop) : Prop where
  quiet {α : Type} {x : Eval α} : Quiet x → P x
  readLine : P readLine
  bind {α β : Type} {x : Eval α} {f : α → Eval β} : P x → (∀ a, P (f a)) → P (x >>= f)
  nested {x : Eval Unit} : P x → P (nested x)
  atDepth {f : Nat → Eval Unit} : (∀ depth, P (f depth)) → P fun m => f m.depth m

namespace Closed

variable {P : ∀ {α : Type}, Eval α → Prop}

/-! ## 1. Sequences and loops -/

theorem ofExcept {α : Type} (h : Closed P) (result : Except Fault α) :
    P (Eval.ofExcept result) := by
  cases result with
  | ok a => exact h.quiet (.pure a)
  | error fault => exact h.quiet (.throw fault)

theorem forM {α : Type} (h : Closed P) {f : α → Eval Unit} (hf : ∀ a, P (f a)) (l : List α) :
    P (l.forM f) := by
  induction l with
  | nil => exact h.quiet (.pure ())
  | cons a l ih => exact h.bind (hf a) fun _ => ih

/-! ## 2. Collections and blocks -/

section

variable {call : Block → Eval Unit}

theorem collect (h : Closed P) (hcall : ∀ b, P (call b)) (b : Block) (v : Value) :
    P (Eval.collect call b v) :=
  h.bind (h.quiet .size) fun _ => h.bind (h.quiet (.push v)) fun _ => h.bind (hcall b) fun _ =>
    h.bind (h.quiet .size) fun _ => h.quiet (.takeAbove _)

theorem collectAll (h : Closed P) (hcall : ∀ b, P (call b)) (b : Block) (vs : List Value) :
    P (Eval.collectAll call b vs) := by
  induction vs with
  | nil =>
    rw [collectAll_nil]
    exact h.quiet (.pure [])
  | cons v vs ih =>
    rw [collectAll_cons]
    exact h.bind (h.collect hcall b v) fun _ => h.bind ih fun _ => h.quiet (.pure _)

theorem fold (h : Closed P) (hcall : ∀ b, P (call b)) (b : Block) (vs : List Value) :
    P (Eval.fold call b vs) := by
  cases vs with
  | nil => exact h.quiet (.throw _)
  | cons v vs =>
    rw [fold_cons]
    exact h.bind (h.quiet (.push v)) fun _ =>
      h.forM (fun w => h.bind (h.quiet (.push w)) fun _ => hcall b) vs

theorem perform (h : Closed P) (hcall : ∀ b, P (call b)) (action : Action) :
    P (Eval.perform call action) := by
  cases action with
  | push results => exact h.forM (fun v => h.quiet (.push v)) results
  | call b => exact hcall b
  | fold items b => exact h.fold hcall b items
  | mapArray items b => exact h.bind (h.collectAll hcall b items) fun _ => h.quiet (.push _)
  | mapText s b =>
    show P (Eval.mapText call b s)
    rw [mapText_eq]
    exact h.bind (h.collectAll hcall b _) fun _ => h.quiet (.push _)

/-! ## 3. Operators, instructions, tokens -/

theorem closeArray (h : Closed P) : P Eval.closeArray :=
  h.bind (h.quiet .closeMark) fun _ => h.bind (h.quiet .size) fun _ =>
    h.bind (h.quiet (.takeAbove _)) fun _ => h.quiet (.push _)

theorem apply [Allocator] (h : Closed P) (hcall : ∀ b, P (call b)) (op : Operator) :
    P (Eval.apply call op) := by
  cases op with
  | binary op =>
    exact h.bind (h.quiet .pop) fun _ => h.bind (h.quiet .pop) fun _ =>
      h.bind (h.ofExcept _) (h.perform hcall)
  | unary op => exact h.bind (h.quiet .pop) fun _ => h.bind (h.ofExcept _) (h.perform hcall)
  | readLine => exact h.readLine
  | openArray => exact h.quiet .openArray
  | closeArray => exact h.closeArray

theorem load (h : Closed P) (name : Char) : P (Eval.load name) := by
  refine h.bind (h.quiet (.getVariable name)) fun value => ?_
  cases value with
  | some v => exact h.quiet (.push v)
  | none => exact h.quiet (.throw _)

theorem dispatch [Allocator] (h : Closed P) (hcall : ∀ b, P (call b)) (token : String) :
    P (Eval.dispatch call token) := by
  unfold Eval.dispatch
  cases Instruction.ofToken? token with
  | none => exact h.quiet (.throw _)
  | some i =>
    cases i with
    | apply op => exact h.apply hcall op
    | store name => exact h.bind (h.quiet .top) fun v => h.quiet (.setVariable name v)
    | load name => exact h.load name
    | push v => exact h.quiet (.push v)

end

/-! ## 4. Blocks inside blocks, and runs -/

theorem withTokens (h : Closed P) {body : List String → Eval Unit}
    (hbody : ∀ tokens, P (body tokens)) (source : String) : P (Eval.withTokens source body) :=
  h.bind (h.ofExcept _) hbody

theorem execute (h : Closed P) {body : List String → Eval Unit} (hbody : ∀ tokens, P (body tokens))
    (limit : Nat) (b : Block) : P (Eval.execute limit body b) :=
  h.bind (h.quiet (.checkDepth limit)) fun _ =>
    h.withTokens (fun tokens => h.nested (hbody tokens)) b.body

variable [Allocator]

/-- The induction is over the levels of blocks that are left. -/
theorem runTokens (h : Closed P) (limit levels : Nat) (tokens : List String) :
    P ((Runner.standard limit).runTokens levels tokens) := by
  induction levels generalizing tokens with
  | zero => exact h.quiet (.throw _)
  | succ levels ih => exact h.forM (h.dispatch (h.execute ih limit)) tokens

theorem call (h : Closed P) (limit : Nat) (b : Block) : P (Eval.call limit b) :=
  h.atDepth (f := fun depth =>
    Eval.execute limit ((Runner.standard limit).runTokens (limit - depth)) b) fun _ =>
      h.execute (h.runTokens limit _) limit b

/-- **Every run has the property.** -/
theorem run (h : Closed P) (limit : Nat) (source : String) : P (Eval.run limit source) :=
  h.withTokens (h.forM (h.dispatch (h.call limit))) source

/-- **Whatever is asked of a machine has the property.** -/
theorem request (h : Closed P) (limit : Nat) (request : Request) : P (request.perform limit) := by
  cases request with
  | run source => exact h.run limit source
  | dispatch token => exact h.dispatch (h.call limit) token
  | call b => exact h.call limit b
  | mapArray b items => exact h.perform (h.call limit) (.mapArray items b)
  | mapText b text => exact h.perform (h.call limit) (.mapText text b)
  | fold b items => exact h.fold (h.call limit) b items
  | divide text separator => exact h.quiet (.push _)
  | collect b v => exact h.bind (h.collect (h.call limit) b v) fun _ => h.quiet (.pure ())

end Closed

end Eval

end StackLang
