/-
This file connects the command line to the process: its arguments, its environment and
its two outputs.
-/

import ObjectMachine.CommandLine

def main (arguments : List String) : IO UInt32 := do
  let tier ← IO.getEnv "SOM_TIER"
  let threshold ← IO.getEnv "SOM_HYBRID_THRESHOLD"
  let outcome := ObjectMachine.Outcome.ofArguments arguments tier threshold
  (← IO.getStdout).putStr outcome.output
  (← IO.getStderr).putStr outcome.complaint
  return outcome.code.toUInt32
