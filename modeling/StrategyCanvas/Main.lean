import StrategyCanvas.CommandLine

/-!
# The program

Takes the environment and the file from the system, and hands the outcome back to it.
-/

namespace StrategyCanvas.CommandLine

/-- The variables that the settings come from. -/
def settingNames : List String :=
  ["STRATEGY_STRUCT_NAME", "STRATEGY_RUNTIME_PATH", "STRATEGY_CODEGEN_INDENT",
   "STRATEGY_DENY_WARNINGS", "STRATEGY_LOG_JSON"]

/-- Those variables that are set. -/
def readEnvironment : IO (List (String × String)) :=
  settingNames.filterMapM fun name => do return (← IO.getEnv name).map (name, ·)

/-- Reads a file; one that cannot be read has no contents. -/
def readSource (path : String) : IO Source := do
  try
    return ⟨path, some (← IO.FS.readFile path)⟩
  catch _ =>
    return ⟨path, none⟩

end StrategyCanvas.CommandLine

open StrategyCanvas CommandLine in
/-- Compiles the strategy in the file that is given as the first argument. -/
def main (arguments : List String) : IO UInt32 := do
  let environment ← readEnvironment
  let source ← arguments.head?.mapM readSource
  let outcome := run (fun name => environment.lookup name) source
  outcome.complaints.forM IO.eprintln
  IO.print outcome.output
  return if outcome.succeeded then 0 else 1
