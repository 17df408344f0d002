/-
# The program

Reads the arguments, and the input that is piped to it if the command needs
any, and writes what the command leaves behind.

Key definition: `main`.
-/
import NestedQuery.CommandLine

open NestedQuery CommandLine

/-- Runs the command that the arguments say. -/
def main (args : List String) : IO UInt32 := do
  let piped ← match command? {} args with
    | some command => if command.readsInput then (← IO.getStdin).readToEnd else pure ""
    | none => pure ""
  let reply := respond args piped
  IO.print reply.output
  IO.eprint reply.error
  return UInt32.ofNat reply.exitCode
