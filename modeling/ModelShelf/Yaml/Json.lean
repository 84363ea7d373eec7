import ModelShelf.Json.Printer
import ModelShelf.Yaml.Value

/-!
YAML values as JSON. Truth values and numbers become texts as keys of objects, other keys than
these and texts cannot be written; a tag becomes the only key of an object; numbers that are not
finite become null.
-/

namespace ModelShelf.Yaml

/-- Why a key cannot be the name of a member. -/
inductive KeyFault where
  | noText
  | notFinite
deriving DecidableEq, Repr

def KeyFault.message : KeyFault → String
  | .noText => "key must be a string"
  | .notFinite => "float key must be finite (got NaN or +/-inf)"

namespace Value

/-- The name of a member for a key. -/
def memberName : Value → Except KeyFault String
  | .bool b => .ok (if b then "true" else "false")
  | .integer n => .ok (toString n)
  | .float x => if x.isFinite then .ok (Json.floatText x) else .error .notFinite
  | .string s => .ok s
  | .null | .sequence _ | .mapping _ | .tagged .. => .error .noText

mutual

def toJson : Value → Except KeyFault Json
  | .null => .ok .null
  | .bool b => .ok (.bool b)
  | .integer n => .ok (.integer n)
  | .float x => .ok (if x.isFinite then .number (.float x) else .null)
  | .string s => .ok (.string s)
  | .sequence items => .array <$> itemsToJson items
  | .mapping entries => .object <$> entriesToJson entries
  | .tagged tag value => do return .object [("!" ++ tag, ← toJson value)]

def itemsToJson : List Value → Except KeyFault (List Json)
  | [] => .ok []
  | item :: rest => do return (← toJson item) :: (← itemsToJson rest)

def entriesToJson : List (Value × Value) → Except KeyFault (List (String × Json))
  | [] => .ok []
  | (key, value) :: rest => do
    let name ← memberName key
    return (name, ← toJson value) :: (← entriesToJson rest)

end

end Value

end ModelShelf.Yaml
