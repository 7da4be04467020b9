import StackLang.Command.Response

/-!
# The command

Passes the arguments, the environment and the input to `respond` and writes its response. The input
is read only for a run.
-/

namespace StackLang

/-- All bytes of a stream, behind those read before. -/
partial def readAll (stream : IO.FS.Stream) (before : ByteArray) : IO ByteArray := do
  let bytes ← stream.read 65536
  if bytes.isEmpty then pure before else readAll stream (before ++ bytes)

/-- Whether the arguments ask for a run. -/
def wantsInput (arguments : List String) : Bool :=
  match Command.ofArguments arguments with
  | .ok (.run _) => true
  | _ => false

end StackLang

open StackLang in
/-- Runs the command once. -/
def main (arguments : List String) : IO UInt32 := do
  let setting ← IO.getEnv capacitySetting
  let bytes ← if wantsInput arguments then readAll (← IO.getStdin) .empty else pure .empty
  let response := respond arguments setting ⟨bytes.toList⟩
  (← IO.getStdout).putStr response.stdout
  (← IO.getStderr).putStr response.stderr
  pure response.exitCode.toUInt32
