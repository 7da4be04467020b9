import StackLang.Machine.Run

/-!
# Requests to a machine

A machine serves whoever holds it with more than whole programs: single tokens, single blocks, and
what operators do with a block and a collection. A request that fails leaves the machine as it is
at that moment, and the next request goes on from there.
-/

namespace StackLang

/-- What can be asked of a machine.

* `run source`, `dispatch token`, `call block`: run a program, a token, a block;
* `mapArray block items`, `mapText block text`, `fold block items`: run a block on each element;
* `divide text separator`: push the parts of a text;
* `collect block v`: run a block on a value and take away what it leaves. -/
inductive Request where
  | run (source : String)
  | dispatch (token : String)
  | call (block : Block)
  | mapArray (block : Block) (items : List Value)
  | mapText (block : Block) (text : String)
  | fold (block : Block) (items : List Value)
  | divide (text separator : String)
  | collect (block : Block) (v : Value)

namespace Request

variable [Allocator]

/-- Serves a request under a limit. -/
def perform (limit : Nat) : Request → Eval Unit
  | run source => Eval.run limit source
  | dispatch token => Eval.dispatch (Eval.call limit) token
  | call block => Eval.call limit block
  | mapArray block items => Eval.mapArray (Eval.call limit) block items
  | mapText block text => Eval.mapText (Eval.call limit) block text
  | fold block items => Eval.fold (Eval.call limit) block items
  | divide text separator => Eval.push (BinaryOperator.division text separator)
  | collect block v => do
    let _ ← Eval.collect (Eval.call limit) block v

/-- The machine after requests that were made one after the other, whether they failed or not. -/
def after (limit : Nat) (m : Machine) (requests : List Request) : Machine :=
  requests.foldl (fun m request => Outcome.machine (EStateM.run (request.perform limit) m)) m

@[simp] theorem after_nil (limit : Nat) (m : Machine) : after limit m [] = m := rfl

@[simp] theorem after_cons (limit : Nat) (m : Machine) (request : Request)
    (requests : List Request) :
    after limit m (request :: requests) =
      after limit (Outcome.machine (EStateM.run (request.perform limit) m)) requests := rfl

end Request

end StackLang
