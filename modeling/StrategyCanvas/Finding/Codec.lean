import StrategyCanvas.Document.Codec
import StrategyCanvas.Finding.Report

/-!
# The format of findings

How findings and reports are written as JSON and read back. What a finding does not have is left
out.
-/

namespace StrategyCanvas

open Json

/-- The name of a severity, as a value. -/
def Severity.encode (s : Severity) : Json := .text s.name

/-- Reads a severity. -/
def Severity.decode : Decoder Severity := .named Severity.names

/-- The name of a code, as a value. -/
def FindingCode.encode (c : FindingCode) : Json := .text c.name

/-- Reads a code. -/
def FindingCode.decode : Decoder FindingCode := .named FindingCode.names

/-- Writes a finding. -/
def Finding.encode (f : Finding) : Json :=
  .object <|
    [("type", f.severity.encode), ("code", f.code.encode), ("message", .text f.message)]
    ++ optionalMember "blockId" .text f.blockId
    ++ optionalMember "connectionId" .text f.connectionId
    ++ optionalMember "suggestion" .text f.suggestion

/-- The fields of a finding. -/
def Finding.record : Record Finding where
  name := "struct ValidationError"
  blank := .error .missingName ""
  fields := [
    .of "type" .required Severity.decode fun s f => { f with severity := s },
    .of "code" .required FindingCode.decode fun c f => { f with code := c },
    .of "message" .required .text fun s f => { f with message := s },
    .of "blockId" .optional (.option .text) fun s f => { f with blockId := s },
    .of "connectionId" .optional (.option .text) fun s f => { f with connectionId := s },
    .of "suggestion" .optional (.option .text) fun s f => { f with suggestion := s }]

/-- The fields of a report. -/
def Report.record : Record Report where
  name := "struct ValidationReport"
  blank := ⟨[]⟩
  fields := [
    .of "issues" .required (.list Finding.record.decode) fun fs r => { r with issues := fs }]

end StrategyCanvas
