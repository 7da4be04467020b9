import StackLang.Limits

/-!
# Command-line arguments

The arguments are read from the left. A request for help ends the reading at once; an option that
is given again replaces what it said before; the first argument that cannot be used is the fault.

The capacity has two spellings, `--capacity N` and `--capacity=N`.
-/

namespace StackLang

/-! ## 1. Commands and faults -/

/-- What the arguments say about a run: the capacity of the stack, and the program if it is not the
first line of the input. -/
structure Options where
  capacity : Option Nat
  program : Option String
  deriving DecidableEq, Repr

namespace Options

/-- Nothing is said. -/
def unspecified : Options :=
  ⟨none, none⟩

/-- The limits under these options, over limits that hold without them. -/
def limits (options : Options) (base : Limits) : Limits :=
  match options.capacity with
  | some capacity => base.withCapacity capacity
  | none => base

end Options

/-- What the arguments ask for. -/
inductive Command where
  | help
  | run (options : Options)
  deriving DecidableEq, Repr

/-- Why arguments cannot be used. -/
inductive UsageFault where
  | missingCapacity
  | missingProgram
  | invalidCapacity (raw : String) (reason : Numeral.SizeFault)
  | unknownArgument (argument : String)
  deriving DecidableEq, Repr

/-- The wording of a usage fault. -/
def UsageFault.message : UsageFault → String
  | .missingCapacity => "--capacity needs a value"
  | .missingProgram => "-e needs a program"
  | .invalidCapacity raw reason => "invalid capacity `" ++ raw ++ "`: " ++ reason.message
  | .unknownArgument argument => "unknown argument `" ++ argument ++ "`"

/-! ## 2. Reading -/

/-- What follows a beginning, if a list has that beginning. -/
def afterStart? (start cs : List Char) : Option (List Char) :=
  if start.isPrefixOf cs then some (cs.drop start.length) else none

/-- The value in the one-argument spelling of the capacity. -/
def capacityValue? (argument : String) : Option String :=
  (afterStart? "--capacity=".toList argument.toList).map String.ofList

/-- Options with the capacity that a text gives. -/
def Options.setCapacity (options : Options) (raw : String) : Except UsageFault Options :=
  match Numeral.size raw.toList with
  | .ok capacity => .ok { options with capacity := some capacity }
  | .error reason => .error (.invalidCapacity raw reason)

/-- The command that arguments give, after options that have already been read. -/
def Command.ofArgumentsFrom (options : Options) : List String → Except UsageFault Command
  | [] => .ok (.run options)
  | argument :: rest =>
    if argument = "-h" ∨ argument = "--help" then
      .ok .help
    else if argument = "--capacity" then
      match rest with
      | [] => .error .missingCapacity
      | raw :: rest =>
        match options.setCapacity raw with
        | .ok options => ofArgumentsFrom options rest
        | .error fault => .error fault
    else if argument = "-e" then
      match rest with
      | [] => .error .missingProgram
      | program :: rest => ofArgumentsFrom { options with program := some program } rest
    else
      match capacityValue? argument with
      | some raw =>
        match options.setCapacity raw with
        | .ok options => ofArgumentsFrom options rest
        | .error fault => .error fault
      | none => .error (.unknownArgument argument)

/-- The command that arguments give. -/
def Command.ofArguments (arguments : List String) : Except UsageFault Command :=
  ofArgumentsFrom .unspecified arguments

end StackLang
