import StackLang.Command.Options
import StackLang.Machine.Run
import StackLang.Output

/-!
# One run from the command line

A run evaluates one program on a fresh machine and prints the final stack. The program is given in
the arguments or is the first line of the input; the lines behind it are left for the program to
read. A run that fails prints nothing.

`respond` is the whole behaviour of the command: from arguments, setting and input to an exit code
and the texts on the two streams.
-/

namespace StackLang

/-! ## 1. A run -/

/-- The program of a run and the input that is left for it. -/
def Options.source (options : Options) (input : Input) : Except Fault (String × Input) :=
  match options.program with
  | some program => .ok (program, input)
  | none =>
    match Input.decode? input.line with
    | some program => .ok (program, input.rest)
    | none => .error .malformedInput

variable [Allocator]

/-- The final stack of a run. -/
def Options.evaluate (options : Options) (limits : Limits) (input : Input) : Except Fault Stack :=
  match options.source input with
  | .error fault => .error fault
  | .ok (program, input) =>
    match EStateM.run (Eval.run limits.depth program) (.start limits.capacity input) with
    | .ok _ machine => .ok machine.stack
    | .error fault _ => .error fault

/-- A run that prints the final stack, with what it leaves in the output. -/
def Options.run (options : Options) (limits : Limits) (input : Input) (out : Output) :
    Except Fault Unit × Output :=
  match options.evaluate limits input with
  | .ok stack => (.ok (), out.printStack stack)
  | .error fault => (.error fault, out)

/-! ## 2. The command as a whole -/

/-- The help text. -/
def usage : String :=
  "Usage: brisk [options]\n" ++
  "\n" ++
  "Reads one program line from stdin (or takes it from -e), evaluates it,\n" ++
  "and prints the final stack. Remaining input lines are read by `l`.\n" ++
  "\n" ++
  "Options:\n" ++
  "  -e <program>       Evaluate <program> instead of the first input line\n" ++
  "  --capacity <N>     Maximum stack depth (default 10000, or BRISK_STACK_CAPACITY)\n" ++
  "  -h, --help         Show this message\n"

/-- The name of the variable in the environment that sets the capacity. -/
def capacitySetting : String := "BRISK_STACK_CAPACITY"

/-- What a finished command leaves behind. -/
structure Response where
  exitCode : UInt8
  stdout : String
  stderr : String
  deriving DecidableEq, Repr

/-- An error message on its line. -/
def errorLine (message : String) : String :=
  "error: " ++ message ++ "\n"

/-- The response to a run. -/
def Options.respond (options : Options) (setting : Option String) (input : Input) : Response :=
  match options.run (options.limits (.ofSetting setting)) input .empty with
  | (.ok _, out) => ⟨0, out.text, ""⟩
  | (.error fault, out) => ⟨1, out.text, errorLine fault.message⟩

/-- The response to the arguments, the setting of the capacity and the input. -/
def respond (arguments : List String) (setting : Option String) (input : Input) : Response :=
  match Command.ofArguments arguments with
  | .ok .help => ⟨0, usage, ""⟩
  | .ok (.run options) => options.respond setting input
  | .error fault => ⟨2, "", errorLine fault.message ++ usage⟩

end StackLang
