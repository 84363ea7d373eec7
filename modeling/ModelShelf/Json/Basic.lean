import ModelShelf.Number.Binary64
import ModelShelf.Number.IntegerRange

/-!
Values of JSON. An object keeps its members in order; a number is an integer that fits in 64 bits,
with or without a sign, or a floating-point number.
-/

namespace ModelShelf

open Number

/-- A number: integers of 64 bits stay exact, all others are floating-point numbers. -/
inductive Numeral where
  | integer (value : Int)
  | float (value : Binary64)
deriving DecidableEq, Repr

/-- The integers that are kept exact. -/
def Numeral.exactRange : IntegerRange := .either64

/-- A JSON value. -/
inductive Json where
  | null
  | bool (value : Bool)
  | number (value : Numeral)
  | string (value : String)
  | array (items : List Json)
  | object (members : List (String × Json))
deriving Repr, Inhabited

namespace Json

/-- Puts a member at its place in a list sorted by name; a member of the same name is replaced. -/
def insertSorted (name : String) (value : Json) :
    List (String × Json) → List (String × Json)
  | [] => [(name, value)]
  | (n, v) :: rest =>
    if name = n then (name, value) :: rest
    else if name < n then (name, value) :: (n, v) :: rest
    else (n, v) :: insertSorted name value rest

/-- The member of an object, absent also when the value is no object. -/
def get? (value : Json) (name : String) : Option Json :=
  match value with
  | .object members => (members.find? fun m => m.1 = name).map (·.2)
  | _ => none

def integer (n : Int) : Json := .number (.integer n)

/-- A text that may be absent. -/
def ofOption : Option String → Json
  | none => .null
  | some s => .string s

end Json

end ModelShelf
