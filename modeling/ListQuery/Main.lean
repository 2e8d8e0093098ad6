import ListQuery.Trace

/-!
# The tracer's command line
-/

open ListQuery

/-- Trace the relation list given as an argument. -/
def main (arguments : List String) : IO UInt32 := do
  let outcome := Trace.run arguments
  (← IO.getStdout).putStr outcome.stdout
  (← IO.getStderr).putStr outcome.stderr
  return outcome.code
