import ModelShelf.Schema.Basic

/-!
Schemas as JSON. A schema is written as a list with one object per spec; reading also takes a
tensor's name outside its block, columns without a name, and records written as lists.
-/

namespace ModelShelf

open Text

/-- The type name that marks a tensor. -/
def tensorTypeName : String := "tensor"

/-- The member that describes a tensor. -/
def tensorMember : String := "tensor-spec"

/-- A spec as it is stored. -/
def Spec.toJson : Spec → Json
  | .column c => .object [("type", .string c.type.name), ("name", .ofOption c.name)]
  | .tensor t =>
    let name := match t.name with
      | none => []
      | some name => [("name", .string name)]
    .object [("type", .string tensorTypeName),
      (tensorMember, .object ([("dtype", .string t.element.name),
        ("shape", .array (t.shape.map .integer))] ++ name))]

/-- A schema as it is stored. -/
def Schema.toJson (schema : Schema) : Json := .array (schema.specs.map Spec.toJson)

/-- The text of a schema as it is stored. -/
def Schema.toJsonText (schema : Schema) : String := Json.render Json.spaced schema.toJson

namespace Schema

open Json (Reader)
open Json.Reader

/-- The members read so far of a tensor's block. -/
structure TensorFields where
  element : Option String
  shape : Option (List Int)
  name : Option (Option String)

/-- A tensor's block. -/
structure TensorBlock where
  element : String
  shape : List Int
  name : Option String

/-- Reads a member that must not occur twice. -/
def once (name : String) (known : Option α) (read : Reader α) : Reader (Option α) :=
  if known.isSome then mismatch (.duplicateField name) else colon *> some <$> read

def tensorRecord : String := "struct RawTensorSpec"

def tensorField (fields : TensorFields) (name : String) : Reader TensorFields := do
  if name = "dtype" then return { fields with element := ← once name fields.element text }
  else if name = "shape" then
    return { fields with shape := ← once name fields.shape (list integer64) }
  else if name = "name" then
    return { fields with name := ← once name fields.name (optional text) }
  else
    colon *> skipValue
    return fields

def tensorOfObject : Reader TensorBlock := do
  let fields ← members tensorField ⟨none, none, none⟩
  match fields.element, fields.shape with
  | none, _ => mismatch (.missingField "dtype")
  | some _, none => mismatch (.missingField "shape")
  | some element, some shape => return ⟨element, shape, fields.name.getD none⟩

def tensorOfList : Reader TensorBlock := do
  let short (n : Nat) : Reader TensorBlock :=
    mismatch (.length n (tensorRecord ++ " with 3 elements"))
  match ← item? true text with
  | none => short 0
  | some element =>
    match ← item? false (list integer64) with
    | none => short 1
    | some shape => return ⟨element, shape, (← item? false (optional text)).getD none⟩

def tensorBlock : Reader TensorBlock := record tensorRecord tensorOfList tensorOfObject

/-- The members read so far of a spec. -/
structure SpecFields where
  type : Option (Option String)
  name : Option (Option String)
  tensor : Option (Option TensorBlock)

def specField (fields : SpecFields) (name : String) : Reader SpecFields := do
  if name = "type" then
    return { fields with type := ← once name fields.type (optional text) }
  else if name = "name" then
    return { fields with name := ← once name fields.name (optional text) }
  else if name = tensorMember then
    return { fields with tensor := ← once name fields.tensor (optional tensorBlock) }
  else
    colon *> skipValue
    return fields

def specOfObject : Reader SpecFields := members specField ⟨none, none, none⟩

/-- The next field of a record written as a list, once the fields before it were there. -/
def nextField? (before : Option α) (read : Reader β) : Reader (Option β) :=
  if before.isSome then item? false read else return none

def specOfList : Reader SpecFields := do
  let type ← item? true (optional text)
  let name ← nextField? type (optional text)
  let tensor ← nextField? name (optional tensorBlock)
  return ⟨type, name, tensor⟩

/-- The spec of a record. A tensor block makes it a tensor whatever its type says; the name inside
the block goes before the one outside. -/
def specOfFields (fields : SpecFields) : Result Spec :=
  match fields.tensor.getD none with
  | some block => do
    let element ← (ElementType.parse block.element).mapError .schema
    let name := block.name.or (fields.name.getD none)
    .tensor <$> (TensorSpec.ofShape element block.shape name).mapError .schema
  | none =>
    match fields.type.getD none with
    | none => .error (.serialization "column spec is missing the 'type' key")
    | some type =>
      if type = tensorTypeName then
        .error (.serialization
          "column spec of type 'tensor' is missing the 'tensor-spec' block")
      else do
        let type ← (ColumnType.parse type).mapError .schema
        return .column ⟨type, fields.name.getD none⟩

def spec : Reader Spec := do
  let fields ← record "struct RawColumnSpec" specOfList specOfObject
  match specOfFields fields with
  | .ok spec => return spec
  | .error e => mismatch (.other e.message)

def ofJsonReader : Reader Schema := do
  match ofSpecs (← list spec) with
  | .ok schema => return schema
  | .error fault => mismatch (.other fault.message)

/-- Reads a schema from a JSON text. -/
def ofJsonText (text : String) : Result Schema :=
  (Json.Reader.run ofJsonReader text).mapError fun fault =>
    .serialization ("invalid schema JSON: " ++ fault.message)

end Schema

end ModelShelf
