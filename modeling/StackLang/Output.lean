import StackLang.Stack

/-!
# Output

Where printed text goes: it is collected, or it is dropped.
-/

namespace StackLang

/-- A place for printed text. -/
inductive Output where
  | collected (text : String)
  | dropped
  deriving DecidableEq, Repr

namespace Output

/-- A place that collects, still empty. -/
def empty : Output :=
  .collected ""

/-- Prints a text. -/
def print (out : Output) (s : String) : Output :=
  match out with
  | .collected text => .collected (text ++ s)
  | .dropped => .dropped

/-- Prints a stack on a line. -/
def printStack (out : Output) (stack : Stack) : Output :=
  out.print stack.render

/-- What has been collected. -/
def text : Output → String
  | .collected text => text
  | .dropped => ""

/-- Forgets what has been collected. -/
def clear : Output → Output
  | .collected _ => empty
  | .dropped => .dropped

@[simp] theorem text_empty : empty.text = "" := rfl

@[simp] theorem text_clear (out : Output) : out.clear.text = "" := by
  cases out <;> rfl

/-- A collecting place gains exactly what is printed. -/
@[simp] theorem text_print_collected (text s : String) :
    ((collected text).print s).text = text ++ s := rfl

end Output

end StackLang
