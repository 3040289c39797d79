import StrategyCanvas.Code.SourceMap
import StrategyCanvas.Json.Record

/-!
# The format of source maps

The records that read a source map out of JSON.
-/

namespace StrategyCanvas.Code

open Json

/-- Reads a part. -/
def Part.decode : Decoder Part := .named Part.names

/-- The fields of a location. -/
def Location.record : Record Location where
  name := "struct SourceLocation"
  blank := ⟨0, 0, .state⟩
  fields := [
    .of "line" .required .size fun n l => { l with line := n },
    .of "column" .required .size fun n l => { l with column := n },
    .of "section" .required Part.decode fun p l => { l with part := p }]

/-- The fields of a source map. -/
def SourceMap.record : Record SourceMap where
  name := "struct SourceMap"
  blank := ⟨[], []⟩
  fields := [
    .of "blocks" .required (.dictionary (.list Location.record.decode))
      fun bs m => { m with blocks := bs },
    .of "connections" .required (.dictionary (.list Location.record.decode))
      fun cs m => { m with connections := cs }]

end StrategyCanvas.Code
