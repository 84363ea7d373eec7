import ModelShelf.Error
import ModelShelf.Text.Split

/-!
Element types of tensors, with the names that manifests use for them. Each type has one canonical
name; reading also takes aliases, byte-order marks, and sizes of texts and byte strings.
-/

namespace ModelShelf

/-- The precision of a point in time. -/
inductive TimeUnit where
  | day
  | second
  | millisecond
  | microsecond
  | nanosecond
deriving DecidableEq, Repr

namespace TimeUnit

def all : List TimeUnit := [.day, .second, .millisecond, .microsecond, .nanosecond]

def code : TimeUnit → String
  | .day => "D"
  | .second => "s"
  | .millisecond => "ms"
  | .microsecond => "us"
  | .nanosecond => "ns"

def ofCode? (code : String) : Option TimeUnit := all.find? fun u => u.code = code

end TimeUnit

/-- The type of the elements of a tensor, or of a column's values in memory. -/
inductive ElementType where
  | bool
  | int8
  | int16
  | int32
  | int64
  | uint8
  | uint16
  | uint32
  | uint64
  | float16
  | float32
  | float64
  /-- Texts of any length. -/
  | str
  /-- Byte strings of any length. -/
  | bytes
  /-- Values of any kind; only columns have them. -/
  | object
  | datetime (unit : TimeUnit)
deriving DecidableEq, Repr

/-- The fixed-width integers that arrays and columns hold. -/
inductive IntegerType where
  | int8
  | int16
  | int32
  | int64
  | uint8
  | uint16
  | uint32
  | uint64
deriving DecidableEq, Repr

def IntegerType.element : IntegerType → ElementType
  | .int8 => .int8
  | .int16 => .int16
  | .int32 => .int32
  | .int64 => .int64
  | .uint8 => .uint8
  | .uint16 => .uint16
  | .uint32 => .uint32
  | .uint64 => .uint64

/-- What an array may hold. -/
inductive ArrayType where
  | bool
  | integer (type : IntegerType)
  | float32
  | float64
  | text
  | bytes
  /-- Points in time; only arrays that stand alone hold them. -/
  | instant
deriving DecidableEq, Repr

/-- The element type that is recorded for an array. -/
def ArrayType.element : ArrayType → ElementType
  | .bool => .bool
  | .integer type => type.element
  | .float32 => .float32
  | .float64 => .float64
  | .text => .str
  | .bytes => .bytes
  | .instant => .datetime .microsecond

namespace ElementType

open Text

/-- The canonical name. -/
def name : ElementType → String
  | .bool => "bool"
  | .int8 => "int8"
  | .int16 => "int16"
  | .int32 => "int32"
  | .int64 => "int64"
  | .uint8 => "uint8"
  | .uint16 => "uint16"
  | .uint32 => "uint32"
  | .uint64 => "uint64"
  | .float16 => "float16"
  | .float32 => "float32"
  | .float64 => "float64"
  | .str => "str"
  | .bytes => "bytes"
  | .object => "object"
  | .datetime unit => "datetime64[" ++ unit.code ++ "]"

/-- The letter of the type's kind. -/
def kind : ElementType → Char
  | .bool => 'b'
  | .int8 | .int16 | .int32 | .int64 => 'i'
  | .uint8 | .uint16 | .uint32 | .uint64 => 'u'
  | .float16 | .float32 | .float64 => 'f'
  | .str => 'U'
  | .bytes => 'S'
  | .object => 'O'
  | .datetime _ => 'M'

/-- The bytes of one element, zero for types of any length. -/
def size : ElementType → Nat
  | .bool | .int8 | .uint8 => 1
  | .int16 | .uint16 | .float16 => 2
  | .int32 | .uint32 | .float32 => 4
  | .int64 | .uint64 | .float64 | .object | .datetime _ => 8
  | .str | .bytes => 0

/-- The names that stand for a type as they are. -/
def spellings : List (String × ElementType) := [
  ("bool", .bool), ("bool_", .bool), ("?", .bool),
  ("int8", .int8), ("i1", .int8), ("int16", .int16), ("i2", .int16),
  ("int32", .int32), ("i4", .int32), ("int64", .int64), ("i8", .int64), ("int", .int64),
  ("uint8", .uint8), ("u1", .uint8), ("uint16", .uint16), ("u2", .uint16),
  ("uint32", .uint32), ("u4", .uint32), ("uint64", .uint64), ("u8", .uint64),
  ("float16", .float16), ("f2", .float16), ("half", .float16),
  ("float32", .float32), ("f4", .float32), ("single", .float32),
  ("float64", .float64), ("f8", .float64), ("float", .float64), ("double", .float64),
  ("str", .str), ("unicode", .str), ("bytes", .bytes),
  ("object", .object), ("O", .object), ("datetime64", .datetime .nanosecond)]

/-- The marks of byte order that may stand in front of a sized type. -/
def isByteOrderMark (c : Char) : Bool := c = '<' || c = '>' || c = '|' || c = '='

def isDigit (c : Char) : Bool := '0' ≤ c && c ≤ '9'

/-- A type without its byte-order marks: a point in time with its unit in brackets, or the letter
of texts or byte strings with a size in digits, which is not kept. -/
def ofSized? (body : List Char) : Option ElementType :=
  let unit? := (between? "datetime64[".toList "]".toList body).or
    (between? "M8[".toList "]".toList body)
  match unit?, body with
  | some unit, _ => (TimeUnit.ofCode? (String.ofList unit)).map .datetime
  | none, 'U' :: digits => if digits.all isDigit then some .str else none
  | none, 'S' :: digits => if digits.all isDigit then some .bytes else none
  | none, _ => none

/-- The type that a name stands for. -/
def parse (s : String) : Except SchemaFault ElementType :=
  match spellings.lookup s with
  | some t => .ok t
  | none =>
    match ofSized? (s.toList.dropWhile isByteOrderMark) with
    | some t => .ok t
    | none => .error (.unsupportedType s)

end ElementType

end ModelShelf
