import ModelShelf.Yaml.Grammar
import ModelShelf.Yaml.Plain

/-!
Reading values of given kinds from a document. An alias is read as the node it stands for. A
mismatch is reported at the innermost node that was being read, with the way to it.
-/

namespace ModelShelf.Yaml

open Number Text

/-- What readers need to know of the document around a node. -/
structure Surroundings where
  /-- The nodes with anchors, the last ones first. -/
  anchors : List (Nat × Node)
  /-- How many aliases may be followed. -/
  greatestJumps : Nat

/-- A reader counts the aliases that it follows. -/
abbrev Read := ReaderT Surroundings (EStateM Fault Nat)

/-- Floating-point numbers in messages have a point and no exponent. -/
def messageStyle : DecimalStyle := ⟨-400, 400, false⟩

def messageFloat (x : Binary64) : String :=
  if x.isNan then "NaN.0"
  else if x.isInfinite then (if x.isNegative then "-inf.0" else "inf.0")
  else messageStyle.spellNumber x

def foundStyle : FoundStyle := ⟨"unit value", messageFloat⟩

namespace Read

def mismatch (m : Mismatch) : Read α := throw (.unexpected (m.message foundStyle) none)

/-- Reports a fault without a place at a node. -/
def locate (place : Mark) (route : Route) (read : Read α) : Read α :=
  tryCatch read fun fault => throw (fault.located place route)

/-- The node that is meant: for an alias the one with the anchor. -/
def follow (node : Node) : Read Node := do
  match node with
  | .reference place number =>
    let jumps := (← get) + 1
    let around ← read
    if around.greatestJumps < jumps then throw .tooRepetitive
    set jumps
    match around.anchors.lookup number with
    | some target => return target
    | none => throw (.unknownAnchor place)
  | .broken fault => throw fault
  | _ => return node

/-! ### Scalars -/

def boolTag : String := "tag:yaml.org,2002:bool"
def intTag : String := "tag:yaml.org,2002:int"
def floatTag : String := "tag:yaml.org,2002:float"
def nullTag : String := "tag:yaml.org,2002:null"

/-- A tag of the document's own, without its leading mark. -/
def localTag? (tag : Option String) : Option String :=
  tag.bind fun t => if Value.isLocalTag t then some (Value.bareTag t) else none

def wanted (found : Option Scalar) (text expected : String) : Except Mismatch Scalar :=
  match found with
  | some s => .ok s
  | none => .error (.value (.string text) expected)

def untagged (style : ScalarStyle) (text : String) : Scalar :=
  if style = .plain then .ofPlain text else .string text

/-- What a scalar stands for. A tag of the standard asks for its kind; any other tag, except one of
the document's own, makes a scalar a text. -/
def scalarOf (tag : Option String) (style : ScalarStyle) (text : String) :
    Except Mismatch Scalar :=
  match tag with
  | none => .ok (untagged style text)
  | some tag =>
    if tag = boolTag then wanted ((Plain.bool? text).map .bool) text "a boolean"
    else if tag = intTag then wanted (Scalar.integer? text) text "an integer"
    else if tag = floatTag then wanted ((Plain.float? text.toList).map .float) text "a float"
    else if tag = nullTag then
      wanted (if Plain.isNull text then some .null else none) text "null"
    else if Value.isLocalTag tag then .ok (untagged style text)
    else .ok (.string text)

def scalar (tag : Option String) (style : ScalarStyle) (text : String) : Read Scalar :=
  match scalarOf tag style text with
  | .ok s => return s
  | .error m => mismatch m

/-- Refuses a node that is not of the expected kind. -/
def refuse (expected : String) (node : Node) : Read α := do
  match node with
  | .scalar _ p style text => mismatch (.type (← scalar p.tag style text).found expected)
  | .sequence .. => mismatch (.type .sequence expected)
  | .mapping .. => mismatch (.type .map expected)
  | .reference .. | .absent _ => throw .noDocument
  | .broken fault => throw fault

def place : Node → Mark
  | .scalar place .. | .sequence place .. | .mapping place .. => place
  | .reference place _ | .absent place => place
  | .broken _ => Mark.start

/-- Reads the node that is meant and reports faults there. -/
def atNode (route : Route) (node : Node) (read : Node → Read α) : Read α := do
  locate (place node) route do
    let target ← follow node
    locate (place target) route (read target)

/-- A scalar's text as it is written, whatever it stands for. -/
def textAs (expected : String) (route : Route) (node : Node) : Read String :=
  atNode route node fun
    | .scalar _ _ _ text => return text
    | other => refuse expected other

def text : Route → Node → Read String := textAs "a string"

def boolean (route : Route) (node : Node) : Read Bool :=
  atNode route node fun node => do
    match node with
    | .scalar _ p style text =>
      if style = .plain || (style = .literal && p.tag = some boolTag) then
        if let some b := Plain.bool? text then return b
      refuse "a boolean" node
    | other => refuse "a boolean" other

/-- Whether a node stands for nothing: no document, an empty plain scalar or a plain null. -/
def isNothing (node : Node) : Read Bool := do
  match node with
  | .absent _ => return true
  | .scalar _ p style text =>
    if style ≠ .plain then return false
    else match p.tag with
      | none => return text.isEmpty || Plain.isNull text
      | some tag =>
        if tag = nullTag then
          if Plain.isNull text then return true else mismatch (.value (.string text) "null")
        else return false
  | _ => return false

/-- A value that may be absent. -/
def optional (read : Route → Node → Read α) (route : Route) (node : Node) :
    Read (Option α) := do
  let target ← follow node
  if ← isNothing target then return none else some <$> read route target

/-! ### Mappings -/

/-- Depth of nested sequences and mappings. -/
abbrev Depth := Nat

def greatestDepth : Depth := 128

/-- Goes down into a sequence or a mapping. -/
def descend (place : Mark) (depth : Depth) (read : Depth → Read α) : Read α :=
  match depth with
  | 0 => throw (.tooDeep place)
  | depth + 1 => read depth

/-- The way to the value of a key. -/
def routeOf (route : Route) : Node → Route
  | .scalar _ _ _ name => .member route name
  | _ => .unnamed route

/-- Reads a mapping by its entries; nothing counts as an empty one. -/
def entries (expected : String) (depth : Depth) (route : Route) (node : Node)
    (read : Depth → List (Node × Node) → Read α) : Read α :=
  atNode route node fun
    | .mapping place _ list => descend place depth fun depth => read depth list
    | .absent _ => read depth []
    | .scalar place p style text =>
      if style = .plain && text.isEmpty then read depth []
      else refuse expected (.scalar place p style text)
    | other => refuse expected other

/-- Steps over a node that is not wanted. -/
def ignore (node : Node) : Read Unit :=
  match node.fault? with
  | some fault => throw fault
  | none => pure ()

/-- Reads the members of a record one after the other. A member gets what is read so far, its name,
and the way and the node of its value. -/
def recordMembers (route : Route) (member : Depth → σ → String → Route → Node → Read σ)
    (depth : Depth) (list : List (Node × Node)) (init : σ) : Read σ :=
  list.foldlM (fun fields (key, value) => do
    let name ← textAs "field identifier" route key
    member depth fields name (routeOf route key) value) init

/-- Reads a record by its members, and finishes it. -/
def recordThen (expected : String) (depth : Depth) (route : Route) (node : Node) (init : σ)
    (member : Depth → σ → String → Route → Node → Read σ) (finish : σ → Read α) : Read α :=
  entries expected depth route node fun depth list => do
    finish (← recordMembers route member depth list init)

/-- Reads a member that must not occur twice. -/
def once (name : String) (known : Option α) (read : Read α) : Read (Option α) :=
  if known.isSome then mismatch (.duplicateField name) else some <$> read

def required (name : String) : Option α → Read α
  | some a => return a
  | none => mismatch (.missingField name)

/-! ### Values of any kind -/

/-- How values of any kind are read. -/
structure Reading where
  /-- What is said to be expected. -/
  expected : String
  /-- Whether tags of the document's own are kept or refused. -/
  keepsTags : Bool
  /-- Whether a mapping may repeat a key. -/
  mayRepeat : Bool

def refusedTag : String := "untagged and internally tagged enums do not support enum input"

/-- A key in a message about its repetition. -/
def repeatedKey : Value → String
  | .null => "with null key"
  | .bool b => "with key `" ++ (if b then "true" else "false") ++ "`"
  | .integer n => "with key " ++ toString n
  | .float x =>
    "with key " ++
      if x.isNan then ".nan"
      else if x.isInfinite then (if x.isNegative then "-.inf" else ".inf")
      else (DecimalStyle.mk (-5) 15 false).spellNumber x
  | .string s => "with key " ++ quoted s
  | .sequence _ | .mapping _ | .tagged .. => "in YAML map"

def repetition (key : Value) : Mismatch := .other ("duplicate entry " ++ repeatedKey key)

def scalarValue (expected : String) (s : Scalar) : Read Value :=
  match s with
  | .null => return .null
  | .bool b => return .bool b
  | .integer n => return .integer n
  | .wideInteger n => mismatch (.type (.wideInteger n) expected)
  | .float x => return .float x
  | .string t => return .string t

variable (how : Reading) (inner : Option (Route → Node → Read Value))

/-- Reads what is nested in a value, if the depth allows it. -/
def nested (place : Mark) (read : (Route → Node → Read Value) → Read α) : Read α :=
  match inner with
  | none => throw (.tooDeep place)
  | some value => read value

def itemValues (value : Route → Node → Read Value) (route : Route) (items : List Node) :
    Read (List Value) :=
  items.zipIdx.mapM fun (item, i) => value (.item route i) item

/-- Adds one entry after those read before. -/
def entryValue (value : Route → Node → Read Value) (route : Route)
    (known : List (Value × Value)) (entry : Node × Node) : Read (List (Value × Value)) := do
  let key ← value route entry.1
  if !how.mayRepeat && known.any fun e => key.same e.1 then mismatch (repetition key)
  return known ++ [(key, ← value (routeOf route entry.1) entry.2)]

/-- The value of a node whose own tag does not count any more. -/
def contents (route : Route) (node : Node) (tag : Option String) : Read Value :=
  match node with
  | .scalar _ _ style text => do scalarValue how.expected (← scalar tag style text)
  | .sequence place _ items =>
    nested inner place fun value => .sequence <$> itemValues value route items
  | .mapping place _ list =>
    nested inner place fun value =>
      .mapping <$> list.foldlM (entryValue how value route) []
  | .absent _ => return .null
  | other => refuse how.expected other

def tag? : Node → Option String
  | .scalar _ p _ _ | .sequence _ p _ | .mapping _ p _ => p.tag
  | _ => none

/-- The value of a node, with readers for nested nodes. -/
def valueWith (route : Route) (node : Node) : Read Value :=
  atNode route node fun node => do
    match localTag? (tag? node) with
    | none => contents how inner route node (tag? node)
    | some tag =>
      if how.keepsTags then .tagged tag <$> contents how inner route node none
      else mismatch (.other refusedTag)

/-- The value of a node. -/
def valueAs (how : Reading) : Depth → Route → Node → Read Value
  | 0 => valueWith how none
  | depth + 1 => valueWith how (some (valueAs how depth))

def value : Depth → Route → Node → Read Value := valueAs ⟨"any YAML value", true, false⟩

/-- What readers need to know of a document. -/
def surroundings (d : Document) : Surroundings := ⟨d.root.anchored.reverse, 100 * d.root.size⟩

/-- Reads a whole document. -/
def whole (read : Node → Read α) (d : Document) : Except Fault α := do
  let a ← match (read d.root).run (surroundings d) 0 with
    | .ok a _ => .ok a
    | .error fault _ => .error fault
  match d.ending with
  | some fault => .error fault
  | none => if d.isFollowed then .error .severalDocuments else .ok a

end Read

/-- Reads the only document of a text. -/
def read (reader : Node → Read α) (text : String) : Except Fault α :=
  Read.whole reader (Document.ofText text)

/-- The value of a text. -/
def Value.ofText (text : String) : Except Fault Value :=
  read (Read.value Read.greatestDepth .top) text

end ModelShelf.Yaml
