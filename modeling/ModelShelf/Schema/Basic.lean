import ModelShelf.Number.IntegerRange
import ModelShelf.Schema.ColumnType

/-!
Schemas: ordered lists of specs that are either all columns or all tensors, and either all named
or all without a name. A tensor has at least one dimension, each a size or of variable size.
-/

namespace ModelShelf

open Text Number

/-- The dimension that stands for any size. -/
def variableSize : Int := -1

/-- A dimension is of variable size or a positive size that fits in 64 bits with a sign. -/
def ValidDimension (d : Int) : Prop := d = variableSize ∨ (0 < d ∧ d ∈ IntegerRange.signed64)

instance (d : Int) : Decidable (ValidDimension d) := by
  unfold ValidDimension; infer_instance

/-- A shape has at least one dimension, and valid ones only. -/
def ValidShape (shape : List Int) : Prop := shape ≠ [] ∧ ∀ d ∈ shape, ValidDimension d

instance (shape : List Int) : Decidable (ValidShape shape) := by
  unfold ValidShape; infer_instance

/-- A column with or without a name. -/
structure ColumnSpec where
  type : ColumnType
  name : Option String
deriving DecidableEq, Repr

/-- A tensor with or without a name. -/
structure TensorSpec where
  element : ElementType
  shape : List Int
  name : Option String
  valid : ValidShape shape
deriving DecidableEq, Repr

namespace TensorSpec

/-- The first dimension that is not valid, as the reason against a shape. -/
def shapeFault (shape : List Int) : SchemaFault :=
  match shape.find? fun d => !decide (ValidDimension d) with
  | none => .invalidShape shape "shape must have at least one dimension"
  | some d =>
    .invalidShape shape ("dimension " ++ toString d ++ " is neither -1 nor a positive size")

def ofShape (element : ElementType) (shape : List Int) (name : Option String) :
    Except SchemaFault TensorSpec :=
  if valid : ValidShape shape then .ok ⟨element, shape, name, valid⟩
  else .error (shapeFault shape)

end TensorSpec

/-- One entry of a schema. -/
inductive Spec where
  | column (spec : ColumnSpec)
  | tensor (spec : TensorSpec)
deriving DecidableEq, Repr

namespace Spec

def name : Spec → Option String
  | .column c => c.name
  | .tensor t => t.name

def isNamed (spec : Spec) : Bool := spec.name.isSome

def isTensor : Spec → Bool
  | .column _ => false
  | .tensor _ => true

end Spec

/-- A property that all members of a list have, or none. -/
def Uniform (p : α → Bool) (items : List α) : Prop :=
  (∀ a ∈ items, p a = true) ∨ (∀ a ∈ items, p a = false)

instance (p : α → Bool) (items : List α) : Decidable (Uniform p items) := by
  unfold Uniform; infer_instance

/-- An ordered list of specs of one kind, all named or all without a name. -/
structure Schema where
  specs : List Spec
  naming : Uniform Spec.isNamed specs
  kinds : Uniform Spec.isTensor specs
deriving DecidableEq, Repr

namespace Schema

/-- The schema of a list of specs. Mixed naming is reported before mixed kinds. -/
def ofSpecs (specs : List Spec) : Except SchemaFault Schema :=
  if naming : Uniform Spec.isNamed specs then
    if kinds : Uniform Spec.isTensor specs then .ok ⟨specs, naming, kinds⟩
    else .error .mixedKinds
  else .error (.mixedNaming (specs.map Spec.name))

def length (schema : Schema) : Nat := schema.specs.length

def isEmpty (schema : Schema) : Bool := schema.specs.isEmpty

/-- Whether the specs are named, decided by the first one. -/
def hasNames (schema : Schema) : Bool := schema.specs.head?.any Spec.isNamed

/-- Whether the specs are tensors, decided by the first one. -/
def isTensors (schema : Schema) : Bool := schema.specs.head?.any Spec.isTensor

/-- The names of the specs, and the position of each spec that has none. -/
def names (schema : Schema) : List String :=
  schema.specs.zipIdx.map fun (spec, i) => spec.name.getD (toString i)

/-- The types of the columns. Tensors have none. -/
def columnTypes (schema : Schema) : Result (List ColumnType) :=
  schema.specs.mapM fun
    | .column c => .ok c.type
    | .tensor _ =>
      .error (.invalidParameter "TensorSpec only supports dtypes, use tensor_dtypes() instead")

/-- The element type of each spec, for a column the one that holds its values. -/
def elementTypes (schema : Schema) : List ElementType :=
  schema.specs.map fun
    | .column c => c.type.element
    | .tensor t => t.element

end Schema

/-- The text of a spec in a shown schema: a quoted name, if it has one, and the type, with the
shape of a tensor. -/
def Spec.display (spec : Spec) : String :=
  let name := match spec.name with
    | none => ""
    | some name => quoted name ++ ": "
  match spec with
  | .column c => name ++ c.type.name
  | .tensor t =>
    name ++ "Tensor('" ++ t.element.name ++ "', (" ++
      ", ".intercalate (t.shape.map toString) ++ "))"

/-- The text of a schema as it is shown to people. -/
def Schema.display (schema : Schema) : String := bracketed (schema.specs.map Spec.display)

end ModelShelf
