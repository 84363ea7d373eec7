import ModelShelf.Text.Quoted
import ModelShelf.Yaml.Printer

/-!
The text of a YAML value inside a message, with the kind of the value in front of it.
-/

namespace ModelShelf.Yaml.Value

open Text

def boolText (b : Bool) : String := if b then "true" else "false"

def opening : String := "\x7b"
def closing : String := "\x7d"

mutual

/-- The text of a value in a message. -/
def inspect : Value → String
  | .null => "Null"
  | .bool b => "Bool(" ++ boolText b ++ ")"
  | .integer n => "Number(" ++ toString n ++ ")"
  | .float x => "Number(" ++ floatText x ++ ")"
  | .string s => "String(" ++ quoted s ++ ")"
  | .sequence items => "Sequence " ++ bracketed (inspectItems items)
  | .mapping entries =>
    "Mapping " ++ opening ++ ", ".intercalate (inspectEntries entries) ++ closing
  | .tagged tag value =>
    "TaggedValue " ++ opening ++ " tag: !" ++ tag ++ ", value: " ++ inspect value ++ " " ++ closing

def inspectItems : List Value → List String
  | [] => []
  | item :: rest => inspect item :: inspectItems rest

/-- Keys that are truth values, numbers or texts have no kind in front of them. -/
def inspectEntries : List (Value × Value) → List String
  | [] => []
  | (key, value) :: rest =>
    let name := match key with
      | .bool b => boolText b
      | .integer n => toString n
      | .float x => floatText x
      | .string s => quoted s
      | other => inspect other
    (name ++ ": " ++ inspect value) :: inspectEntries rest

end

end ModelShelf.Yaml.Value
