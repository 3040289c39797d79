/-!
# JSON values

A JSON value with its members in order. Whole numbers and floating point numbers are kept apart, as
readers treat them differently.
-/

namespace StrategyCanvas

/-- A JSON value. -/
inductive Json
  | null
  | bool (b : Bool)
  | int (n : Int)
  | float (x : Float)
  | text (s : String)
  | list (items : List Json)
  | object (members : List (String × Json))
  deriving Repr, Inhabited

namespace Json

/-- The value of an optional member, `null` when absent. -/
def option {α : Type} (encode : α → Json) : Option α → Json
  | none => .null
  | some a => encode a

/-- A member that is left out when it is absent. -/
def optionalMember {α : Type} (name : String) (encode : α → Json) :
    Option α → List (String × Json)
  | none => []
  | some a => [(name, encode a)]

/-- Puts a member into members sorted by key, in place of one with the same key. -/
def insertMember (key : String) (value : Json) : List (String × Json) → List (String × Json)
  | [] => [(key, value)]
  | (k, v) :: rest =>
    if key < k then (key, value) :: (k, v) :: rest
    else if key = k then (key, value) :: rest
    else (k, v) :: insertMember key value rest

/-- The member of that name, if there is one. -/
def member? (name : String) : Json → Option Json
  | .object members => members.lookup name
  | _ => none

mutual

/-- The same value with the members of every object sorted by key, of repeated keys the last. -/
def normal : Json → Json
  | .list items => .list (normalItems items)
  | .object members => .object (normalMembers members [])
  | v => v

/-- `normal` of every item. -/
def normalItems : List Json → List Json
  | [] => []
  | v :: vs => normal v :: normalItems vs

/-- Puts each member, in normal form, into the members sorted so far. -/
def normalMembers : List (String × Json) → List (String × Json) → List (String × Json)
  | [], sorted => sorted
  | (k, v) :: rest, sorted => normalMembers rest (insertMember k (normal v) sorted)

end

end Json

end StrategyCanvas
