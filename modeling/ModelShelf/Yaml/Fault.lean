/-!
Places in a YAML text and in its values, and what may be wrong with a text: characters that are
not allowed, a malformed text, an alias without an anchor, or values other than those expected.
-/

namespace ModelShelf.Yaml

/-- A place in a text: bytes and lines before it, and characters before it on its line. -/
structure Mark where
  index : Nat
  line : Nat
  column : Nat
deriving DecidableEq, Repr

namespace Mark

def start : Mark := ⟨0, 0, 0⟩

/-- The start of a text is not worth naming. -/
def isStart (m : Mark) : Bool := m.line = 0 && m.column = 0

/-- Lines and columns are counted from one. -/
def text (m : Mark) : String :=
  "line " ++ toString (m.line + 1) ++ " column " ++ toString (m.column + 1)

/-- The place as the end of a message. -/
def suffix (m : Mark) : String := if m.isStart then "" else " at " ++ m.text

end Mark

/-- The way from the top of a document to one of its values. -/
inductive Route where
  | top
  | item (parent : Route) (index : Nat)
  | member (parent : Route) (name : String)
  /-- The value of a key that is no scalar. -/
  | unnamed (parent : Route)
deriving DecidableEq, Repr

namespace Route

def isTop : Route → Bool
  | .top => true
  | _ => false

def text : Route → String
  | .top => "."
  | .item parent index => parent.text ++ "[" ++ toString index ++ "]"
  | .member parent name => (if parent.isTop then "" else parent.text ++ ".") ++ name
  | .unnamed parent => (if parent.isTop then "" else parent.text ++ ".") ++ "?"

end Route

/-- What is wrong with a text. -/
inductive Fault where
  /-- A character that YAML does not allow, after so many bytes. -/
  | unreadable (index : Nat)
  /-- The text is malformed at a place, possibly within something that began at another. -/
  | malformed (problem : String) (place : Mark) (context : Option (String × Mark))
  | unknownAnchor (place : Mark)
  /-- There is no document. -/
  | noDocument
  | severalDocuments
  /-- Values are nested too deeply. -/
  | tooDeep (place : Mark)
  /-- Aliases repeat too much of the document. -/
  | tooRepetitive
  /-- A value is not what was expected; the place is known once the value's reader knows it. -/
  | unexpected (problem : String) (place : Option (Mark × Route))
deriving DecidableEq, Repr

namespace Fault

def message : Fault → String
  | .unreadable index =>
    "control characters are not allowed" ++
      if index = 0 then "" else " at position " ++ toString index
  | .malformed problem place context =>
    let within := match context with
      | none => ""
      | some (text, mark) =>
        ", " ++ text ++
          if mark.line = place.line && mark.column = place.column then "" else mark.suffix
    problem ++ place.suffix ++ within
  | .unknownAnchor place => "unknown anchor" ++ place.suffix
  | .noDocument => "EOF while parsing a value"
  | .severalDocuments =>
    "deserializing from YAML containing more than one document is not supported"
  | .tooDeep place => "recursion limit exceeded" ++ place.suffix
  | .tooRepetitive => "repetition limit exceeded"
  | .unexpected problem none => problem
  | .unexpected problem (some (place, route)) =>
    (if route.isTop then "" else route.text ++ ": ") ++ problem ++ place.suffix

/-- Adds a place to a fault that has none yet. -/
def located (place : Mark) (route : Route) : Fault → Fault
  | .unexpected problem none => .unexpected problem (some (place, route))
  | fault => fault

end Fault

end ModelShelf.Yaml
