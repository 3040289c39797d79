/-!
# Findings

What validation has to say about a strategy, as its reader sees it. Only errors keep a strategy from
being compiled.
-/

namespace StrategyCanvas

/-- How grave a finding is. -/
inductive Severity
  | error
  | warning
  deriving DecidableEq, Repr

/-- The kinds of findings. -/
inductive FindingCode
  | missingName
  | emptyStrategy
  | duplicateId
  | missingProperty
  | invalidPropertyType
  | propertyOutOfRange
  | invalidOption
  | invalidConnection
  | duplicateConnection
  | typeMismatch
  | multipleInputs
  | noInputBlocks
  | noOutputBlocks
  | missingConnection
  | orphanedBlock
  | circularDependency
  deriving DecidableEq, Repr

/-- One finding, as it is shown. -/
structure Finding where
  severity : Severity
  code : FindingCode
  message : String
  blockId : Option String
  connectionId : Option String
  suggestion : Option String
  deriving DecidableEq, Repr

namespace Severity

/-- Both severities, with their names. -/
def names : List (String × Severity) := [("error", .error), ("warning", .warning)]

/-- The name of a severity. -/
def name : Severity → String
  | .error => "error"
  | .warning => "warning"

end Severity

namespace FindingCode

/-- All codes, with their names. -/
def names : List (String × FindingCode) :=
  [("MISSING_NAME", .missingName), ("EMPTY_STRATEGY", .emptyStrategy),
   ("DUPLICATE_ID", .duplicateId), ("MISSING_PROPERTY", .missingProperty),
   ("INVALID_PROPERTY_TYPE", .invalidPropertyType),
   ("PROPERTY_OUT_OF_RANGE", .propertyOutOfRange), ("INVALID_OPTION", .invalidOption),
   ("INVALID_CONNECTION", .invalidConnection), ("DUPLICATE_CONNECTION", .duplicateConnection),
   ("TYPE_MISMATCH", .typeMismatch), ("MULTIPLE_INPUTS", .multipleInputs),
   ("NO_INPUT_BLOCKS", .noInputBlocks), ("NO_OUTPUT_BLOCKS", .noOutputBlocks),
   ("MISSING_CONNECTION", .missingConnection), ("ORPHANED_BLOCK", .orphanedBlock),
   ("CIRCULAR_DEPENDENCY", .circularDependency)]

/-- The name of a code. -/
def name : FindingCode → String
  | .missingName => "MISSING_NAME"
  | .emptyStrategy => "EMPTY_STRATEGY"
  | .duplicateId => "DUPLICATE_ID"
  | .missingProperty => "MISSING_PROPERTY"
  | .invalidPropertyType => "INVALID_PROPERTY_TYPE"
  | .propertyOutOfRange => "PROPERTY_OUT_OF_RANGE"
  | .invalidOption => "INVALID_OPTION"
  | .invalidConnection => "INVALID_CONNECTION"
  | .duplicateConnection => "DUPLICATE_CONNECTION"
  | .typeMismatch => "TYPE_MISMATCH"
  | .multipleInputs => "MULTIPLE_INPUTS"
  | .noInputBlocks => "NO_INPUT_BLOCKS"
  | .noOutputBlocks => "NO_OUTPUT_BLOCKS"
  | .missingConnection => "MISSING_CONNECTION"
  | .orphanedBlock => "ORPHANED_BLOCK"
  | .circularDependency => "CIRCULAR_DEPENDENCY"

end FindingCode

namespace Finding

/-- An error that concerns the whole strategy. -/
def error (code : FindingCode) (message : String) : Finding :=
  ⟨.error, code, message, none, none, none⟩

/-- A warning that concerns the whole strategy. -/
def warning (code : FindingCode) (message : String) : Finding :=
  ⟨.warning, code, message, none, none, none⟩

/-- The same finding, about a block. -/
def onBlock (f : Finding) (blockId : String) : Finding := { f with blockId := some blockId }

/-- The same finding, about a connection. -/
def onConnection (f : Finding) (connectionId : String) : Finding :=
  { f with connectionId := some connectionId }

/-- The same finding, with advice. -/
def advise (f : Finding) (suggestion : String) : Finding := { f with suggestion := some suggestion }

/-- Whether the finding keeps the strategy from being compiled. -/
def isError (f : Finding) : Bool := f.severity = .error

/-- The finding on one line. -/
def text (f : Finding) : String :=
  f.severity.name ++ "[" ++ f.code.name ++ "]: " ++ f.message ++
    match f.suggestion with
    | some s => " (" ++ s ++ ")"
    | none => ""

end Finding

end StrategyCanvas
