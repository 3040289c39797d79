import StrategyCanvas.Document.Kind

/-!
# Compatibility of kinds

Which outputs may feed which inputs. Connecting, validating and generating code all ask this one
table.
-/

namespace StrategyCanvas

namespace DataKind

/-- Whether an output of the first kind may feed an input of the second. -/
def feeds : DataKind → DataKind → Bool
  | .any, _ | _, .any => true
  | .candle, .number | .indicator, .number => true
  | .signal, .boolean => true
  | .number, .string | .boolean, .string => true
  | .array, k | k, .array => k = .array || k.isScalar
  | k, l => k = l

/-- The block that can stand between two kinds that do not fit, if the catalog has one. -/
def conversionHint? : DataKind → DataKind → Option String
  | .number, .boolean | .indicator, .boolean | .candle, .boolean => some "Compare"
  | .number, .signal | .indicator, .signal => some "Crossover"
  | _, _ => none

end DataKind

end StrategyCanvas
