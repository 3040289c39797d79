import StrategyCanvas.Document.Kind
import StrategyCanvas.Finding.Basic
import StrategyCanvas.Text.Quoted

/-!
# Why a strategy does not compile
-/

namespace StrategyCanvas.Code

/-- The options that code cannot be generated with. -/
inductive OptionName
  | structName
  | supportPath
  deriving DecidableEq, Repr

/-- What an option is called in a refusal. -/
def OptionName.text : OptionName → String
  | .structName => "struct name"
  | .supportPath => "runtime path"

/-- Something that an emission rule reads of its block. -/
inductive Member
  | property (name : String)
  | input (name : String)
  | output (name : String)
  deriving DecidableEq, Repr

/-- What a member is called in a refusal. -/
def Member.text : Member → String
  | .property name => "property '" ++ name ++ "'"
  | .input name => "input '" ++ name ++ "'"
  | .output name => "output '" ++ name ++ "'"

/-- Why a strategy does not compile. -/
inductive CompileError
  | invalid (findings : List Finding)
  | circularDependency
  | unsupportedBlockType (blockId type : String)
  | unsupportedConversion (connectionId : String) (source target : DataKind)
  | unsupportedPortKind (blockId portId : String) (kind : DataKind)
  | incompleteBlock (blockId : String) (member : Member)
  | invalidOption (option : OptionName) (value : String)
  deriving DecidableEq, Repr

/-- The wording of a refusal. -/
def CompileError.message : CompileError → String
  | .invalid findings =>
    "strategy has " ++ toString findings.length ++ " blocking validation finding(s)"
  | .circularDependency => "strategy contains a circular dependency"
  | .unsupportedBlockType id type =>
    "block '" ++ id ++ "' has unsupported type '" ++ type ++ "'"
  | .unsupportedConversion id source target =>
    "connection '" ++ id ++ "' cannot convert " ++ source.name ++ " to " ++ target.name
  | .unsupportedPortKind blockId portId kind =>
    "port '" ++ portId ++ "' of block '" ++ blockId ++ "' has kind " ++ kind.name
      ++ ", which has no runtime representation"
  | .incompleteBlock id member => "block '" ++ id ++ "' has no " ++ member.text
  | .invalidOption option value =>
    option.text ++ " " ++ Text.quote value ++ " is not usable in generated code"

end StrategyCanvas.Code
