import ModelShelf.Schema.ElementType
import ModelShelf.Json.Reader

/-!
The eight types that a named or unnamed column of a schema may have, and the column type of each
element type.
-/

namespace ModelShelf

open Text

/-- The type of a column. -/
inductive ColumnType where
  | boolean
  /-- Integers of 32 bits with a sign. -/
  | integer
  /-- Integers of 64 bits with a sign. -/
  | long
  /-- Floating-point numbers of 32 bits. -/
  | float
  /-- Floating-point numbers of 64 bits. -/
  | double
  | string
  | binary
  /-- Points in time of any precision. -/
  | datetime
deriving DecidableEq, Repr

namespace ColumnType

def all : List ColumnType :=
  [.boolean, .integer, .long, .float, .double, .string, .binary, .datetime]

def name : ColumnType → String
  | .boolean => "boolean"
  | .integer => "integer"
  | .long => "long"
  | .float => "float"
  | .double => "double"
  | .string => "string"
  | .binary => "binary"
  | .datetime => "datetime"

/-- The element type that holds values of a column type. -/
def element : ColumnType → ElementType
  | .boolean => .bool
  | .integer => .int32
  | .long => .int64
  | .float => .float32
  | .double => .float64
  | .string => .str
  | .binary => .bytes
  | .datetime => .datetime .nanosecond

/-- The smallest column type that holds every value of an element type. Unsigned integers of 64
bits fit in none, and objects have to be looked at one by one. -/
def ofElement (t : ElementType) : Result ColumnType :=
  match t with
  | .bool => .ok .boolean
  | .int8 | .int16 | .int32 | .uint8 | .uint16 => .ok .integer
  | .int64 | .uint32 => .ok .long
  | .float16 | .float32 => .ok .float
  | .float64 => .ok .double
  | .str => .ok .string
  | .bytes => .ok .binary
  | .datetime _ => .ok .datetime
  | .object =>
    .error (.inference
      "Can not infer object without looking at the values, call the column inference instead")
  | .uint64 =>
    .error (.inference
      ("Unsupported numpy data type '" ++ t.name ++ "', kind '" ++ t.kind.toString ++ "'"))

def ofName? (s : String) : Option ColumnType := all.find? fun t => t.name = s

/-- The type of a name. -/
def parse (s : String) : Except SchemaFault ColumnType :=
  match ofName? s with
  | some t => .ok t
  | none => .error (.unsupportedType s)

/-- Reads a type from a JSON text that holds its name. -/
def ofJsonText (text : String) : Except Json.Fault ColumnType :=
  Json.Reader.run (Json.Reader.located do
    let name ← Json.Reader.text
    match ofName? name with
    | some t => return t
    | none => Json.Reader.mismatch (.variant name (all.map ColumnType.name))) text

end ColumnType

end ModelShelf
