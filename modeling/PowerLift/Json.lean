import PowerLift.Json.Number

/-!
# Structured text

Settings files are JSON. A value keeps what its reader may have to refuse: numbers that are not
written as plain digits, and texts that name half a surrogate pair.
-/

namespace PowerLift

/-- A JSON value. -/
inductive Json where
  | null
  | bool (b : Bool)
  /-- A number of 64 bits written with digits alone. -/
  | nat (n : Nat)
  /-- Any other number. -/
  | real (n : Json.Number)
  | str (s : String)
  /-- A string, or an object with a name, that has half a surrogate pair and so no text. -/
  | garbled
  | arr (items : List Json)
  | obj (fields : List (String × Json))
  deriving Repr, Inhabited

namespace Json

mutual

/-- Whether every string has a text, every number is finite, and containers are nested at most
`depth` deep. -/
def isPlain : Nat → Json → Bool
  | _, null | _, bool _ | _, nat _ | _, str _ => true
  | _, real n => n.isFinite
  | _, garbled => false
  | 0, arr _ | 0, obj _ => false
  | depth + 1, arr items => arePlain depth items
  | depth + 1, obj fields => fieldsArePlain depth fields

/-- `isPlain` for each of several values. -/
def arePlain : Nat → List Json → Bool
  | _, [] => true
  | depth, v :: vs => isPlain depth v && arePlain depth vs

/-- `isPlain` for each field. -/
def fieldsArePlain : Nat → List (String × Json) → Bool
  | _, [] => true
  | depth, (_, v) :: fields => isPlain depth v && fieldsArePlain depth fields

end

/-- The values of a field, in the order in which they stand. -/
def valuesOf (name : String) (fields : List (String × Json)) : List Json :=
  (fields.filter (·.1 == name)).map Prod.snd

end Json

end PowerLift
