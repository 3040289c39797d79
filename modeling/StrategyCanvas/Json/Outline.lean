import StrategyCanvas.Json.Token

/-!
# Outlines

The outline of a text is the tree that its tokens form as far as they go, with the faults left in
the places where they occur. A decoder walks the tree in the order of the text and so reports the
first thing that is wrong, be it the text or its meaning.

Every JSON value has an outline without faults, so values and texts are decoded by the same
functions.
-/

namespace StrategyCanvas.Json

/-- What stands where the key of a member should stand: a text, a text with a fault, or something
else. -/
inductive Key
  | text (s : String)
  | broken (reading : Fault) (skipping : Option Fault)
  | stray
  deriving Repr

/-- A tree of values with the faults of the text. Lists and objects end in a fault if the text
breaks off where a comma or the closing bracket should be. -/
inductive Outline
  | null
  | bool (b : Bool)
  | int (n : Int)
  | float (x : Float)
  | text (s : String)
  | list (items : List Outline) (stop : Option Fault)
  | object (members : List (Key × Outline)) (stop : Option Fault)
  | broken (shape : Shape) (reading : Fault) (skipping : Option Fault)
  deriving Repr, Inhabited

namespace Outline

mutual

/-- The outline of a value. -/
def ofValue : Json → Outline
  | .null => .null
  | .bool b => .bool b
  | .int n => .int n
  | .float x => .float x
  | .text s => .text s
  | .list items => .list (ofItems items) none
  | .object members => .object (ofMembers members) none

/-- The outlines of the items of a list. -/
def ofItems : List Json → List Outline
  | [] => []
  | v :: vs => ofValue v :: ofItems vs

/-- The outlines of the members of an object. -/
def ofMembers : List (String × Json) → List (Key × Outline)
  | [] => []
  | (k, v) :: rest => (.text k, ofValue v) :: ofMembers rest

end

/-- The outline of an embedded value, whose members are taken in the order of their keys. -/
def ofEmbedded (v : Json) : Outline := ofValue v.normal

/-- A place where a value is missing because the text has ended. -/
def missing : Outline := .broken .nothing .unfinished (some .unfinished)

/-- A place where something stands that begins no value. -/
def junk : Outline := .broken .nothing .malformed (some .malformed)

mutual

/-- The value that the tokens begin with, and the tokens behind it. -/
def readValue : Nat → List Token → Outline × List Token
  | 0, _ => (missing, [])
  | _ + 1, [] => (missing, [])
  | fuel + 1, token :: ts =>
    match token with
    | .scalar v => (ofValue v, ts)
    | .text s => (.text s, ts)
    | .broken shape reading skipping => (.broken shape reading skipping, ts)
    | .listOpen =>
      match ts with
      | [] => (.list [] (some .unfinished), [])
      | .listClose :: rest => (.list [] none, rest)
      | _ =>
        let (items, stop, rest) := readItems fuel ts
        (.list items stop, rest)
    | .objectOpen =>
      match ts with
      | [] => (.object [] (some .unfinished), [])
      | .objectClose :: rest => (.object [] none, rest)
      | _ =>
        let (members, stop, rest) := readMembers fuel ts
        (.object members stop, rest)
    | _ => (junk, [])

/-- One or more values with commas between them, up to the closing bracket. -/
def readItems : Nat → List Token → List Outline × Option Fault × List Token
  | 0, _ => ([], some .unfinished, [])
  | fuel + 1, ts =>
    let (v, rest) := readValue fuel ts
    match rest with
    | .comma :: rest =>
      let (vs, stop, rest) := readItems fuel rest
      (v :: vs, stop, rest)
    | .listClose :: rest => ([v], none, rest)
    | [] => ([v], some .unfinished, [])
    | _ => ([v], some .malformed, [])

/-- One or more members with commas between them, up to the closing brace. -/
def readMembers : Nat → List Token → List (Key × Outline) × Option Fault × List Token
  | 0, _ => ([], some .unfinished, [])
  | fuel + 1, ts =>
    let (key, v, rest) := readMember fuel ts
    match rest with
    | .comma :: rest =>
      let (more, stop, rest) := readMembers fuel rest
      ((key, v) :: more, stop, rest)
    | .objectClose :: rest => ([(key, v)], none, rest)
    | [] => ([(key, v)], some .unfinished, [])
    | _ => ([(key, v)], some .malformed, [])

/-- A key, a colon and a value. Nothing is read behind a key that is no text. -/
def readMember : Nat → List Token → Key × Outline × List Token
  | 0, _ => (.stray, junk, [])
  | _ + 1, [] => (.broken .unfinished (some .unfinished), missing, [])
  | fuel + 1, .text s :: ts => (.text s, readMemberValue fuel ts)
  | fuel + 1, .broken .text reading skipping :: ts =>
    (.broken reading skipping, readMemberValue fuel ts)
  | _ + 1, _ => (.stray, junk, [])

/-- A colon and a value. -/
def readMemberValue : Nat → List Token → Outline × List Token
  | 0, _ => (missing, [])
  | _ + 1, [] => (missing, [])
  | fuel + 1, .colon :: ts => readValue fuel ts
  | _ + 1, _ => (junk, [])

end

/-- The outline of a text, and the fault of anything but white space behind it. Three calls at most
are made for each token. -/
def ofText (text : String) : Outline × Option Fault :=
  let ts := tokens text.toList
  let (v, rest) := readValue (4 * ts.length + 4) ts
  (v, if rest.isEmpty then none else some .malformed)

mutual

/-- The first fault that stops a reader who skips the value. -/
def skipFault : Outline → Option Fault
  | .list items stop => (skipItemsFault items).or stop
  | .object members stop => (skipMembersFault members).or stop
  | .broken _ _ skipping => skipping
  | _ => none

/-- The first fault in skipped items. -/
def skipItemsFault : List Outline → Option Fault
  | [] => none
  | v :: vs => v.skipFault.or (skipItemsFault vs)

/-- The first fault in skipped members. -/
def skipMembersFault : List (Key × Outline) → Option Fault
  | [] => none
  | (key, v) :: rest =>
    let here := match key with
      | .text _ => v.skipFault
      | .broken _ skipping => skipping.or v.skipFault
      | .stray => some .malformed
    here.or (skipMembersFault rest)

end

mutual

/-- The first fault that stops a reader who reads all of the value, with `room` containers that may
still be nested in each other. -/
def readFault (room : Nat) : Outline → Option Fault
  | .list items stop =>
    if room ≤ 1 then some .malformed else (readItemsFault (room - 1) items).or stop
  | .object members stop =>
    if room ≤ 1 then some .malformed else (readMembersFault (room - 1) members).or stop
  | .broken _ reading _ => some reading
  | _ => none

/-- The first fault in items that are read. -/
def readItemsFault (room : Nat) : List Outline → Option Fault
  | [] => none
  | v :: vs => (v.readFault room).or (readItemsFault room vs)

/-- The first fault in members that are read. -/
def readMembersFault (room : Nat) : List (Key × Outline) → Option Fault
  | [] => none
  | (key, v) :: rest =>
    let here := match key with
      | .text _ => v.readFault room
      | .broken reading _ => some reading
      | .stray => some .malformed
    here.or (readMembersFault room rest)

end

end Outline

end StrategyCanvas.Json
