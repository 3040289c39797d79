import StrategyCanvas.Decimal.Layout
import StrategyCanvas.Document.Block
import StrategyCanvas.Document.Compatibility
import StrategyCanvas.Text.Quoted

/-!
# Fields of generated code

The fields that the generated structure has for a block: one for each property, one for each output
port, and one for its running state. Each comes with the pieces of code that declare, set and read
it.
-/

namespace StrategyCanvas.Code

/-! ## Parameters -/

/-- How the value of a property is kept. -/
inductive ParamKind
  | number
  | text
  | boolean
  deriving DecidableEq, Repr

namespace ParamKind

/-- Selections are kept as text. -/
def ofProperty : PropertyKind → ParamKind
  | .number => .number
  | .string | .select => .text
  | .boolean => .boolean

/-- The type of the field. -/
def type : ParamKind → String
  | .number => "f64"
  | .text => "String"
  | .boolean => "bool"

/-- The variant that carries the value to the outside. -/
def variant : ParamKind → String
  | .number => "Number"
  | .text => "Text"
  | .boolean => "Boolean"

/-- The function that takes the value from the outside. -/
def accessor : ParamKind → String
  | .number => "as_number"
  | .text => "as_text"
  | .boolean => "as_bool"

end ParamKind

/-- A number in code. Numbers that are not finite have names. -/
def numberLiteral (x : Float) : String :=
  match Decimal.Real64.ofFloat x with
  | .nan => "f64::NAN"
  | .infinite false => "f64::INFINITY"
  | .infinite true => "f64::NEG_INFINITY"
  | .finite b => String.ofList (Decimal.Layout.code.finiteText b)

/-- A truth value in code. -/
def booleanLiteral (b : Bool) : String := if b then "true" else "false"

/-- A parameter: a property of a block that can be read and set by its key while the generated code
runs. -/
structure Param where
  key : String
  property : String
  field : String
  kind : ParamKind
  value : Option PropertyValue
  deriving Repr

namespace Param

/-- The configured value in code; zero, the empty text or `false` stand for a value that is absent
or of another kind. -/
def literal (p : Param) : String :=
  match p.kind with
  | .number => numberLiteral ((p.value.bind (·.number?)).getD 0)
  | .text => Text.quote ((p.value.bind (·.text?)).getD "")
  | .boolean => booleanLiteral ((p.value.bind (·.boolean?)).getD false)

/-- What the field starts with. -/
def initializer (p : Param) : String :=
  match p.kind with
  | .text => p.literal ++ ".to_string()"
  | _ => p.literal

/-- The current value; text is borrowed. -/
def read (p : Param) : String :=
  match p.kind with
  | .text => "&self." ++ p.field
  | _ => "self." ++ p.field

/-- The current value, for the outside. -/
def getter (p : Param) : String :=
  match p.kind with
  | .text => "ParamValue::Text(self." ++ p.field ++ ".clone())"
  | kind => "ParamValue::" ++ kind.variant ++ "(self." ++ p.field ++ ")"

/-- The assignment of a value from the outside. -/
def setter (p : Param) : String :=
  "self." ++ p.field ++ " = value." ++ p.kind.accessor ++ "(key)?"

end Param

/-! ## Outputs -/

/-- The type of a field that holds a value of a kind. Nothing holds a value of any kind. -/
def fieldType? : DataKind → Option String
  | .number | .indicator => some "f64"
  | .boolean | .signal => some "bool"
  | .string => some "String"
  | .candle => some "Candle"
  | .array => some "Vec<f64>"
  | .order => some "Option<Signal>"
  | .any => none

/-- What a field of a kind starts with. -/
def defaultValue : DataKind → String
  | .number | .indicator => "f64::NAN"
  | .boolean | .signal => "false"
  | .string | .any => "String::new()"
  | .candle => "Candle::default()"
  | .array => "Vec::new()"
  | .order => "None"

/-- What an input of a kind reads when nothing is connected to it. -/
def fallback : DataKind → String
  | .number | .indicator => "tick.close"
  | .candle => "tick.candle()"
  | kind => defaultValue kind

/-- The field of an output port. -/
structure OutputField where
  portId : String
  name : String
  field : String
  kind : DataKind
  deriving DecidableEq, Repr

/-- The type of the field. -/
def OutputField.type (o : OutputField) : String := (fieldType? o.kind).getD "f64"

/-! ## State -/

/-- The field of a block's running state. -/
structure StateField where
  field : String
  type : String
  /-- What the field starts with, from the configured values. -/
  initializer : String
  /-- What the field is reset to, from the current values. -/
  reset : String
  /-- The properties that the state is made from. -/
  dependsOn : List String
  deriving DecidableEq, Repr

/-! ## Conversions -/

/-- The expression that reads a field of one kind as another kind, if the one feeds the other. -/
def convert? (field : String) (source target : DataKind) : Option String :=
  if !source.feeds target then none
  else
    let plain := "self." ++ field
    let call (name argument : String) := some ("convert::" ++ name ++ "(" ++ argument ++ ")")
    match source, target with
    | .any, _ => none
    | _, .any => call "debug_text" ("&" ++ plain)
    | .number, .number | .indicator, .indicator | .indicator, .number | .boolean, .boolean
    | .signal, .signal | .signal, .boolean => some plain
    | .candle, .number => call "candle_to_number" ("&" ++ plain)
    | .number, .string => call "number_to_text" plain
    | .boolean, .string => call "bool_to_text" plain
    | .array, .number => call "array_to_number" ("&" ++ plain)
    | .array, .boolean => call "array_to_bool" ("&" ++ plain)
    | .array, .string => call "array_to_text" ("&" ++ plain)
    | .number, .array => call "number_to_array" plain
    | .boolean, .array => call "bool_to_array" plain
    | .string, .array => call "text_to_array" ("&" ++ plain)
    | a, b => if a = b then some (plain ++ ".clone()") else none

end StrategyCanvas.Code
