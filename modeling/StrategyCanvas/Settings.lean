import StrategyCanvas.Code.Compile
import StrategyCanvas.Decimal.Natural

/-!
# Settings

What the environment of the program asks for. A variable that is not set leaves its default.
-/

namespace StrategyCanvas

/-- The options of the compilation and of the log. -/
structure Settings where
  options : Code.Options
  /-- Whether the log is written as JSON. -/
  logJson : Bool
  deriving DecidableEq, Repr

/-- Why the settings cannot be used. -/
inductive SettingsError
  | indentation (cause : Decimal.NaturalError)
  deriving DecidableEq, Repr

/-- The wording of a refusal. -/
def SettingsError.message : SettingsError → String
  | .indentation cause => "STRATEGY_CODEGEN_INDENT must be a number: " ++ cause.message

namespace Settings

/-- The settings of an empty environment. -/
def default : Settings := ⟨.default, false⟩

/-- The indentation that is asked for. -/
def indentation : Option String → Except SettingsError Nat
  | none => .ok default.options.indent
  | some text => (Decimal.readNatural (Nat.pow 2 64) text).mapError .indentation

/-- Whether a switch is on; only `true` switches it on. -/
def isOn (value : Option String) : Bool := value = some "true"

/-- The settings of an environment. -/
def ofEnvironment (environment : String → Option String) : Except SettingsError Settings := do
  let indent ← indentation (environment "STRATEGY_CODEGEN_INDENT")
  let options := {
    structName := (environment "STRATEGY_STRUCT_NAME").getD default.options.structName
    supportPath := (environment "STRATEGY_RUNTIME_PATH").getD default.options.supportPath
    indent := indent
    denyWarnings := isOn (environment "STRATEGY_DENY_WARNINGS") }
  .ok ⟨options, isOn (environment "STRATEGY_LOG_JSON")⟩

end Settings

end StrategyCanvas
