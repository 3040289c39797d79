import StrategyCanvas.Json.Outline
import StrategyCanvas.Json.Problem

/-!
# Decoders

A decoder turns an outline into a value of some type or says why it cannot. It depends on where the
outline comes from: a text has faults and a bound on nesting, and an embedded value is judged as a
whole, which changes what is said about superfluous items and about enumerations.
-/

namespace StrategyCanvas.Json

/-- Where an outline comes from: a text, with the number of containers that may still be nested; an
embedded value; or an embedded value that was set aside until its kind was known. -/
inductive Origin
  | text (room : Nat)
  | embedded
  | deferred
  deriving DecidableEq, Repr

/-- The origin of a whole text. At most 127 containers may be nested in each other. -/
def Origin.wholeText : Origin := .text 128

/-- Steps into a container. -/
def Origin.enter : Origin → Except Problem Origin
  | .text room => if room ≤ 1 then .error (.fault .malformed) else .ok (.text (room - 1))
  | o => .ok o

/-- Reads a value of a type out of an outline. -/
abbrev Decoder (α : Type) := Origin → Outline → Except Problem α

/-- What an outline is found to be, unless it has a fault. -/
def Outline.found : Outline → Except Problem Found
  | .null => .ok .null
  | .bool b => .ok (.bool b)
  | .int n => .ok (.int n)
  | .float x => .ok (.float x)
  | .text s => .ok (.text s)
  | .list _ _ => .ok .sequence
  | .object _ _ => .ok .map
  | .broken _ reading _ => .error (.fault reading)

/-- Stops at a fault, if there is one. -/
def check : Option Fault → Except Problem Unit
  | none => .ok ()
  | some f => .error (.fault f)

/-- The outline is of the wrong kind. A list or an object is not looked into. -/
def reject {α : Type} (expected : String) (v : Outline) : Except Problem α := do
  let found ← v.found
  .error (.mismatch (.wrongType found expected))

namespace Decoder

/-- A text. -/
def text : Decoder String
  | _, .text s => .ok s
  | _, v => reject "a string" v

/-- A truth value. -/
def bool : Decoder Bool
  | _, .bool b => .ok b
  | _, v => reject "a boolean" v

/-- A floating point number; a whole number is taken for the nearest one. -/
def number : Decoder Float
  | _, .float x => .ok x
  | _, .int n => .ok (Decimal.ofRatio (n < 0) n.natAbs 1)
  | _, v => reject "f64" v

/-- A natural number below a bound. -/
def natural (type : String) (bound : Nat) : Decoder Nat
  | _, .int n =>
    if 0 ≤ n ∧ n < bound then .ok n.toNat else .error (.mismatch (.wrongValue (.int n) type))
  | _, v => reject type v

/-- A natural number of 32 bits. -/
def word32 : Decoder UInt32 := fun o v => (natural "u32" (Nat.pow 2 32) o v).map Nat.toUInt32

/-- A natural number of 64 bits. -/
def size : Decoder Nat := natural "usize" (Nat.pow 2 64)

/-- A point in time. -/
def instant : Decoder Time.Instant
  | _, .text s => (Time.Instant.read s).mapError fun e => .mismatch (.unreadableInstant e)
  | _, v => reject "an RFC 3339 formatted date and time string" v

/-- A value or `null`. -/
def option {α : Type} (decode : Decoder α) : Decoder (Option α)
  | _, .null => .ok none
  | o, v => (decode o v).map some

/-- Decodes items in order. -/
def items {α : Type} (decode : Decoder α) (o : Origin) : List Outline → Except Problem (List α)
  | [] => .ok []
  | v :: vs => do
    let a ← decode o v
    let rest ← items decode o vs
    .ok (a :: rest)

/-- A list. -/
def list {α : Type} (decode : Decoder α) : Decoder (List α)
  | o, .list vs stop => do
    let o ← o.enter
    let result ← items decode o vs
    check stop
    .ok result
  | _, v => reject "a sequence" v

/-- Decodes members in order. -/
def entries {α : Type} (decode : Decoder α) (o : Origin) :
    List (Key × Outline) → Except Problem (List (String × α))
  | [] => .ok []
  | (.text k, v) :: vs => do
    let a ← decode o v
    let rest ← entries decode o vs
    .ok ((k, a) :: rest)
  | (.broken reading _, _) :: _ => .error (.fault reading)
  | (.stray, _) :: _ => .error (.fault .malformed)

/-- A map from texts. -/
def dictionary {α : Type} (decode : Decoder α) : Decoder (List (String × α))
  | o, .object members stop => do
    let o ← o.enter
    let result ← entries decode o members
    check stop
    .ok result
  | _, v => reject "a map" v

/-- What is said about a container with items that nothing asks for. -/
def superfluous (o : Origin) (asked found : Nat) : Problem :=
  match o with
  | .text _ => .fault .malformed
  | .embedded => .mismatch (.wrongLength found "fewer elements in array")
  | .deferred => .mismatch (.wrongLength found (elementsText asked ++ " in sequence"))

/-- A pair, written as a list of two. -/
def pair {α β : Type} (first : Decoder α) (second : Decoder β) : Decoder (α × β)
  | o, .list vs stop => do
    let o ← o.enter
    let short (n : Nat) : Except Problem (α × β) := do
      check stop
      .error (.mismatch (.wrongLength n "a tuple of size 2"))
    match vs with
    | [] => short 0
    | [v] => do
      let _ ← first o v
      short 1
    | v :: w :: more => do
      let a ← first o v
      let b ← second o w
      if !more.isEmpty then throw (superfluous o 2 vs.length)
      check stop
      .ok (a, b)
  | _, v => reject "a tuple of size 2" v

/-- The value that a name stands for. -/
def variant {α : Type} (variants : List (String × α)) (name : String) : Except Problem α :=
  match variants.lookup name with
  | some a => .ok a
  | none => .error (.mismatch (.unknownVariant name (variants.map Prod.fst)))

/-- Nothing, written as `null`; a value set aside may also be an empty object. -/
def unit : Decoder Unit
  | _, .null => .ok ()
  | .deferred, .object [] _ => .ok ()
  | _, v => reject "unit" v

/-- A named variant in a text: its name, or an object of its name and `null`. -/
def namedInText {α : Type} (variants : List (String × α)) (room : Nat) :
    Outline → Except Problem α
  | .text s => variant variants s
  | .object members stop => do
    let o ← (Origin.text room).enter
    match members with
    | [] => .error (.fault (stop.getD .malformed))
    | (.text k, v) :: more => do
      let a ← variant variants k
      unit o v
      if !more.isEmpty then throw (.fault .malformed)
      check stop
      .ok a
    | (.broken reading _, _) :: _ => .error (.fault reading)
    | (.stray, _) :: _ => .error (.fault .malformed)
  | .broken .scalar _ _ => .error (.fault .malformed)
  | .broken _ reading _ => .error (.fault reading)
  | _ => .error (.fault .malformed)

/-- A named variant in an embedded value: its name, or an object of its name and `null`. -/
def namedInValue {α : Type} (variants : List (String × α)) (o : Origin) :
    Outline → Except Problem α
  | .text s => variant variants s
  | .object [(.text k, v)] _ => do
    let a ← variant variants k
    unit o v
    .ok a
  | .object _ _ => .error (.mismatch (.wrongValue .map "map with a single key"))
  | v => reject "string or map" v

/-- One of a number of named values. -/
def named {α : Type} (variants : List (String × α)) : Decoder α
  | .text room, v => namedInText variants room v
  | o, v => namedInValue variants o v

/-- A value that is read as a whole before its kind is looked at. -/
def whole {α : Type} (choose : Outline → Except Problem α) : Decoder α
  | .text room, v => do
    check (v.readFault room)
    choose v
  | _, v => choose v

end Decoder

/-- Decodes a whole text. Anything but white space behind the value is a fault. -/
def decodeText {α : Type} (decode : Decoder α) (text : String) : Except Problem α := do
  let (v, behind) := Outline.ofText text
  let a ← decode .wholeText v
  check behind
  .ok a

/-- Decodes an embedded value. -/
def decodeValue {α : Type} (decode : Decoder α) (v : Json) : Except Problem α :=
  decode .embedded (.ofEmbedded v)

end StrategyCanvas.Json
