import StrategyCanvas.Document.Codec
import StrategyCanvas.Settings

/-!
# The command line

Compiles the strategy in a file: the code goes to the output, the findings and the reason of a
failure are complaints. What reads the environment and the file is left to the caller.
-/

namespace StrategyCanvas.CommandLine

/-- What a run of the program leaves behind. -/
structure Outcome where
  succeeded : Bool
  output : String
  complaints : List String
  deriving DecidableEq, Repr

/-- A file that was asked for, with its contents if it could be read. -/
structure Source where
  path : String
  contents : Option String
  deriving DecidableEq, Repr

/-- Why the program gives up. -/
inductive Failure
  | settings (cause : SettingsError)
  | usage
  | unreadable (path : String)
  | noStrategy (path : String)
  | options
  deriving DecidableEq, Repr

/-- The wording of a failure. -/
def Failure.message : Failure → String
  | .settings cause => cause.message
  | .usage => "usage: strategy-compile <definition.json>"
  | .unreadable path => "failed to read " ++ path
  | .noStrategy path => "failed to parse " ++ path
  | .options => "check STRATEGY_STRUCT_NAME and STRATEGY_RUNTIME_PATH"

/-- A run that gives up after some complaints. -/
def Failure.outcome (f : Failure) (complaints : List String) : Outcome :=
  ⟨false, "", complaints ++ ["Error: " ++ f.message]⟩

/-- Compiles a strategy. A refusal is told from the findings alone. -/
def compile (options : Code.Options) (d : Definition) : Outcome :=
  let complaints := d.findings.map (·.text)
  match options.check with
  | .error _ => Failure.options.outcome complaints
  | .ok () =>
    match Code.compile options .standard d with
    | .error _ => ⟨false, "", complaints⟩
    | .ok compiled => ⟨true, compiled.code, complaints⟩

/-- Reads the file that was asked for. -/
def load : Option Source → Except Failure Definition
  | none => .error .usage
  | some ⟨path, none⟩ => .error (.unreadable path)
  | some ⟨path, some contents⟩ => (Definition.read contents).mapError fun _ => .noStrategy path

/-- Runs the program in an environment. -/
def run (environment : String → Option String) (source : Option Source) : Outcome :=
  match (Settings.ofEnvironment environment).mapError Failure.settings with
  | .error failure => failure.outcome []
  | .ok settings =>
    match load source with
    | .error failure => failure.outcome []
    | .ok d => compile settings.options d

end StrategyCanvas.CommandLine
