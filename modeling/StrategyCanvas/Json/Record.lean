import StrategyCanvas.Json.Decoder

/-!
# Records

A record type is described by its fields: their names, what happens when they are absent, and how
a value is put into the record. The description decodes both written forms of a record, an object
with its fields in any order and a list of the fields in the order of their declaration.
-/

namespace StrategyCanvas.Json

/-- Whether a field may be absent: never, always, or only where fields are named. -/
inductive Presence
  | required
  | optional
  | optionalByName
  deriving DecidableEq, Repr

/-- A field of a record type `T`. -/
structure RecordField (T : Type) where
  name : String
  presence : Presence
  /-- Decodes a value and puts it into the record. -/
  set : Origin → Outline → T → Except Problem T

/-- A field from a decoder of its value and an update of the record. -/
def RecordField.of {T α : Type} (name : String) (presence : Presence) (decode : Decoder α)
    (update : α → T → T) : RecordField T where
  name := name
  presence := presence
  set o v t := (decode o v).map fun a => update a t

/-- A record type: what it is called, a record whose absent fields have their default values, and
the fields in the order of their declaration. -/
structure Record (T : Type) where
  name : String
  blank : T
  fields : List (RecordField T)

namespace Record

variable {T : Type}

/-- Puts the members of an object into a record, in order. Members that are no field are skipped,
and `seen` has the names of the fields already set. -/
def setMembers (r : Record T) (o : Origin) :
    List (Key × Outline) → List String → T → Except Problem (List String × T)
  | [], seen, t => .ok (seen, t)
  | (.text k, v) :: rest, seen, t =>
    match r.fields.find? fun f => f.name = k with
    | some f =>
      if seen.contains k then .error (.mismatch (.duplicateField k))
      else do
        let t ← f.set o v t
        setMembers r o rest (k :: seen) t
    | none => do
      check v.skipFault
      setMembers r o rest seen t
  | (.broken reading _, _) :: _, _, _ => .error (.fault reading)
  | (.stray, _) :: _, _, _ => .error (.fault .malformed)

/-- The first required field that is not among the names seen. -/
def firstMissing (r : Record T) (seen : List String) : Option String :=
  (r.fields.find? fun f => f.presence = .required && !seen.contains f.name).map (·.name)

/-- Puts the items of a list into the fields, in order. When the items run out, a fault at their end
comes first, and then the first field that a list cannot leave out. -/
def setItems (r : Record T) (o : Origin) (stop : Option Fault) :
    List (RecordField T) → List Outline → Nat → T → Except Problem (List Outline × T)
  | [], vs, _, t => .ok (vs, t)
  | f :: fs, v :: vs, n, t => do
    let t ← f.set o v t
    setItems r o stop fs vs (n + 1) t
  | f :: fs, [], n, t => do
    check stop
    if f.presence = .optional then setItems r o stop fs [] (n + 1) t
    else .error (.mismatch (.wrongLength n (r.name ++ " with " ++ elementsText r.fields.length)))

/-- A record. -/
def decode (r : Record T) : Decoder T
  | o, .object members stop => do
    let o ← o.enter
    let (seen, t) ← r.setMembers o members [] r.blank
    check stop
    match r.firstMissing seen with
    | some name => .error (.mismatch (.missingField name))
    | none => .ok t
  | o, .list vs stop => do
    let o ← o.enter
    let (more, t) ← r.setItems o stop r.fields vs 0 r.blank
    if !more.isEmpty then throw (Decoder.superfluous o r.fields.length vs.length)
    check stop
    .ok t
  | _, v => reject r.name v

end Record

end StrategyCanvas.Json
