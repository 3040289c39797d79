import StrategyCanvas.Code.Field
import StrategyCanvas.Document.Codec

/-!
# Parameter values

The values that are given to a running strategy under the keys of its parameters. They are the same
as the values of properties.
-/

namespace StrategyCanvas.Market

open Code (ParamKind)

/-- Why a parameter does not take a value. -/
inductive ParamError
  | unknown (key : String)
  | wrongType (key : String) (expected : ParamKind)
  deriving DecidableEq, Repr

/-- What a kind of parameter is called in a refusal. -/
def expectedText : ParamKind → String
  | .number => "number"
  | .text => "text"
  | .boolean => "boolean"

/-- The wording of a refusal. -/
def ParamError.message : ParamError → String
  | .unknown key => "unknown parameter '" ++ key ++ "'"
  | .wrongType key expected =>
    "parameter '" ++ key ++ "' expects a " ++ expectedText expected ++ " value"

/-- Reads a parameter value. -/
def decodeParameter : Json.Decoder PropertyValue := .whole (PropertyValue.choose "ParamValue")

/-- The value as a number. -/
def takeNumber (key : String) : PropertyValue → Except ParamError Float
  | .number x => .ok x
  | _ => .error (.wrongType key .number)

/-- The value as a truth value. -/
def takeBoolean (key : String) : PropertyValue → Except ParamError Bool
  | .boolean b => .ok b
  | _ => .error (.wrongType key .boolean)

/-- The value as a text. -/
def takeText (key : String) : PropertyValue → Except ParamError String
  | .text s => .ok s
  | _ => .error (.wrongType key .text)

end StrategyCanvas.Market
