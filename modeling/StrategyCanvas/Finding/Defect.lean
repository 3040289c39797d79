import StrategyCanvas.Decimal.Layout
import StrategyCanvas.Document.Compatibility
import StrategyCanvas.Finding.Basic

/-!
# Defects

What can be wrong with a strategy, and the finding that reports it. A defect holds the names that
matter; the wording, the advice and the place of the finding follow from it.
-/

namespace StrategyCanvas

/-- What can be wrong with a strategy. -/
inductive Defect
  | missingName
  | emptyStrategy
  | duplicateBlockId (blockId : String)
  | duplicatePortId (blockId portId : String)
  | missingProperty (blockId blockName label : String)
  | invalidPropertyType (blockId blockName label : String) (kind : PropertyKind)
  | propertyOutOfRange (blockId blockName label : String) (value : Float) (min max : Option Float)
  | invalidOption (blockId blockName label value : String) (allowed : List String)
  | missingBlock (connectionId blockId : String)
  | missingOutput (connectionId blockId blockName portId : String)
  | missingInput (connectionId blockId blockName portId : String)
  | selfConnection (connectionId blockId blockName : String)
  | duplicateConnection (connectionId sourceName outputName targetName inputName : String)
  | typeMismatch (connectionId targetId outputName inputName : String) (source target : DataKind)
  | multipleInputs (connectionId targetId targetName inputName : String)
  | noInputBlocks
  | noOutputBlocks
  | missingConnection (blockId blockName inputName : String)
  | orphanedBlock (blockId blockName : String)
  | circularDependency
  deriving Repr

namespace Defect

/-- What a property of the kind holds, in words. -/
def valueName : PropertyKind → String
  | .number => "number"
  | .string | .select => "text"
  | .boolean => "boolean"

/-- The bounds of a number in words. -/
def rangeText (min max : Option Float) : String :=
  let number := Decimal.Layout.message.text
  match min, max with
  | some min, some max => "between " ++ number min ++ " and " ++ number max
  | some min, none => "at least " ++ number min
  | none, some max => "at most " ++ number max
  | none, none => "a finite number"

/-- A text in single quotes. -/
def quoted (s : String) : String := "'" ++ s ++ "'"

/-- A name with the name of its owner. -/
def nameOf (label owner : String) : String := quoted label ++ " of " ++ quoted owner

/-- An error about one connection that does not fit its blocks. -/
def invalidConnection (connectionId message : String) : Finding :=
  (Finding.error .invalidConnection message).onConnection connectionId

/-- The advice for two kinds that do not fit. -/
def conversionAdvice (source target : DataKind) : String :=
  match source.conversionHint? target with
  | some block => "Insert a " ++ block ++ " block to convert between these types"
  | none => "Insert a converting block between these ports"

/-- The finding that reports a defect. -/
def finding : Defect → Finding
  | .missingName => .error .missingName "Strategy name cannot be empty"
  | .emptyStrategy =>
    (Finding.warning .emptyStrategy "Strategy has no blocks").advise
      "Add a Market Data block to get started"
  | .duplicateBlockId id =>
    (Finding.error .duplicateId ("Block id " ++ quoted id ++ " is used more than once")).onBlock id
  | .duplicatePortId blockId id =>
    (Finding.error .duplicateId ("Port id " ++ quoted id ++ " is used more than once")).onBlock
      blockId
  | .missingProperty blockId blockName label =>
    (Finding.error .missingProperty
      (quoted blockName ++ " requires a value for " ++ quoted label)).onBlock blockId
  | .invalidPropertyType blockId blockName label kind =>
    (Finding.error .invalidPropertyType
      (nameOf label blockName ++ " must be a " ++ valueName kind ++ " value")).onBlock blockId
  | .propertyOutOfRange blockId blockName label value min max =>
    (Finding.error .propertyOutOfRange
      (nameOf label blockName ++ " is " ++ Decimal.Layout.message.text value ++ ", expected "
        ++ rangeText min max)).onBlock blockId
  | .invalidOption blockId blockName label value allowed =>
    ((Finding.error .invalidOption
      (quoted value ++ " is not a valid option for " ++ nameOf label blockName)).advise
        ("Choose one of: " ++ ", ".intercalate allowed)).onBlock blockId
  | .missingBlock connectionId blockId =>
    invalidConnection connectionId ("Connection references missing block " ++ quoted blockId)
  | .missingOutput connectionId blockId blockName portId =>
    (invalidConnection connectionId
      ("Block " ++ quoted blockName ++ " has no output " ++ quoted portId)).onBlock blockId
  | .missingInput connectionId blockId blockName portId =>
    (invalidConnection connectionId
      ("Block " ++ quoted blockName ++ " has no input " ++ quoted portId)).onBlock blockId
  | .selfConnection connectionId blockId blockName =>
    (invalidConnection connectionId
      ("Block " ++ quoted blockName ++ " cannot be connected to itself")).onBlock blockId
  | .duplicateConnection connectionId sourceName outputName targetName inputName =>
    (Finding.error .duplicateConnection
      (quoted (sourceName ++ "." ++ outputName) ++ " is already connected to "
        ++ quoted (targetName ++ "." ++ inputName))).onConnection connectionId
  | .typeMismatch connectionId targetId outputName inputName source target =>
    (((Finding.error .typeMismatch
      ("Cannot connect " ++ source.name ++ " output " ++ quoted outputName ++ " to " ++ target.name
        ++ " input " ++ quoted inputName)).onConnection connectionId).onBlock targetId).advise
          (conversionAdvice source target)
  | .multipleInputs connectionId targetId targetName inputName =>
    ((Finding.warning .multipleInputs
      ("Input " ++ nameOf inputName targetName
        ++ " has more than one connection; the last one wins")).onConnection connectionId).onBlock
          targetId
  | .noInputBlocks =>
    (Finding.warning .noInputBlocks "Strategy has no data source blocks").advise
      "Add a Market Data block"
  | .noOutputBlocks =>
    (Finding.error .noOutputBlocks "Strategy has no action or output blocks").advise
      "Add a Buy Order, Sell Order or Alert block"
  | .missingConnection blockId blockName inputName =>
    (Finding.error .missingConnection
      ("Required input " ++ nameOf inputName blockName ++ " (" ++ blockId
        ++ ") is not connected")).onBlock blockId
  | .orphanedBlock blockId blockName =>
    ((Finding.warning .orphanedBlock
      (quoted blockName ++ " is not connected to anything")).onBlock blockId).advise
        "Connect the block or remove it"
  | .circularDependency =>
    (Finding.error .circularDependency "Strategy contains a circular dependency").advise
      "Remove one of the connections forming the loop"

end Defect

end StrategyCanvas
