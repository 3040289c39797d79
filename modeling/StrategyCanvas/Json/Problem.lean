import StrategyCanvas.Decimal.Layout
import StrategyCanvas.Json.Token
import StrategyCanvas.Text.Quoted
import StrategyCanvas.Time.Reader

/-!
# Why a value does not decode

Either the text is no JSON, or it is and does not fit the type that is asked for. The second kind
carries its cause, from which the message is made.
-/

namespace StrategyCanvas.Json

/-- What was found in the place of something else. -/
inductive Found
  | null
  | bool (b : Bool)
  | int (n : Int)
  | float (x : Float)
  | text (s : String)
  | sequence
  | map
  deriving Repr

/-- How what was found is named in a message. -/
def Found.message : Found → String
  | .null => "null"
  | .bool b => "boolean `" ++ (if b then "true" else "false") ++ "`"
  | .int n => "integer `" ++ toString n ++ "`"
  | .float x => "floating point `" ++ Decimal.Layout.document.text x ++ "`"
  | .text s => "string " ++ Text.quote s
  | .sequence => "sequence"
  | .map => "map"

/-- Why well-formed JSON does not fit a type. -/
inductive Mismatch
  | missingField (name : String)
  | duplicateField (name : String)
  | unknownVariant (found : String) (expected : List String)
  | wrongType (found : Found) (expected : String)
  | wrongValue (found : Found) (expected : String)
  | wrongLength (found : Nat) (expected : String)
  | noVariant (type : String)
  | unreadableInstant (cause : Time.InstantError)
  deriving Repr

/-- A list of names to choose from. -/
def choiceText (names : List String) : String :=
  match names.map fun n => "`" ++ n ++ "`" with
  | [] => "there are no variants"
  | [a] => "expected " ++ a
  | [a, b] => "expected " ++ a ++ " or " ++ b
  | quoted => "expected one of " ++ ", ".intercalate quoted

/-- The wording of a mismatch. -/
def Mismatch.message : Mismatch → String
  | .missingField name => "missing field `" ++ name ++ "`"
  | .duplicateField name => "duplicate field `" ++ name ++ "`"
  | .unknownVariant found expected => "unknown variant `" ++ found ++ "`, " ++ choiceText expected
  | .wrongType found expected => "invalid type: " ++ found.message ++ ", expected " ++ expected
  | .wrongValue found expected => "invalid value: " ++ found.message ++ ", expected " ++ expected
  | .wrongLength found expected =>
    "invalid length " ++ toString found ++ ", expected " ++ expected
  | .noVariant type => "data did not match any variant of untagged enum " ++ type
  | .unreadableInstant cause => cause.message

/-- Why a value does not decode. -/
inductive Problem
  | fault (f : Fault)
  | mismatch (m : Mismatch)
  deriving Repr

/-- A number of elements in words. -/
def elementsText (n : Nat) : String :=
  toString n ++ if n = 1 then " element" else " elements"

end StrategyCanvas.Json
