import ModelShelf.Sample.Basic
import ModelShelf.Signature.Basic

/-!
The schema of a sample. Of a tensor only its element type and the dimensions after the first one
count, because the first one is the batch; of a column only its type counts, and of a column of
objects the kinds of its cells.
-/

namespace ModelShelf

open Number

/-- A sample of a model's inputs or outputs. -/
inductive Sample where
  | tensor (tensor : Tensor)
  | namedTensors (tensors : NamedTensors)
  | frame (frame : Frame)
  | series (series : Series)
  | text (text : String)
  | texts (texts : List String)

/-- A dimension of a sample as a dimension of a schema. -/
def fixedDimension (d : Nat) : Result Int :=
  if (d : Int) ∈ IntegerRange.signed64 then .ok d
  else .error (.inference ("dimension " ++ toString d ++ " does not fit in i64"))

/-- The shape that is recorded for a sample: its first dimension may be of any size. -/
def batchShape : List Nat → Result (List Int)
  | [] => .error (.inference "cannot infer a tensor signature from a 0-dimensional value")
  | _ :: rest => (variableSize :: ·) <$> rest.mapM fixedDimension

/-- The spec of a tensor. -/
def Tensor.spec (tensor : Tensor) (name : Option String) : Result TensorSpec := do
  let shape ← batchShape tensor.shape
  (TensorSpec.ofShape tensor.element shape name).mapError .schema

/-- The column type of one cell, absent for a cell without a value. -/
def Cell.type? : Cell → Option ColumnType
  | .null => none
  | .bool _ => some .boolean
  | .int _ => some .long
  | .float _ => some .double
  | .text _ => some .string
  | .bytes _ => some .binary

def ColumnType.isNumeric (t : ColumnType) : Bool := t = .long || t = .double

/-- Two types of cells of one column taken together: integers and floating-point numbers are
numbers, all others have to be equal. -/
def ColumnType.join (known next : ColumnType) : Result ColumnType :=
  if known = next then .ok known
  else if known.isNumeric && next.isNumeric then .ok .double
  else
    .error (.inference ("Unable to map 'object' type to a DataType: found both " ++ known.name ++
      " and " ++ next.name ++ " values. " ++
      "An object column can be mapped only if all values have the same type"))

/-- The type of the cells seen so far and one more. -/
def joinCell (known : Option ColumnType) (cell : Cell) : Result (Option ColumnType) :=
  match cell.type?, known with
  | none, _ => .ok known
  | some t, none => .ok (some t)
  | some t, some k => some <$> k.join t

/-- The type of a column of objects: that of its cells, of which one at least has a value. -/
def objectType (cells : List Cell) : Result ColumnType := do
  match ← cells.foldlM joinCell none with
  | some t => return t
  | none =>
    .error (.inference
      "Unable to map 'object' type to a DataType: column has no non-null values")

/-- The type of a column. -/
def ColumnValues.type : ColumnValues → Result ColumnType
  | .object cells => objectType cells
  | values => ColumnType.ofElement values.element

/-- The fault of a column's type, with the name of the column. -/
def Error.inColumn (name : String) : Error → Error
  | .inference text => .inference ("column '" ++ name ++ "': " ++ text)
  | e => e

def schemaOf (specs : List Spec) : Result Schema := (Schema.ofSpecs specs).mapError .schema

/-- The schema of a frame: one named column for each of its columns. -/
def Frame.schema (frame : Frame) : Result Schema := do
  let specs ← frame.columns.mapM fun (name, values) => do
    let type ← values.type.mapError (Error.inColumn name)
    return Spec.column ⟨type, some name⟩
  schemaOf specs

/-- The schema of a series: one column without a name. -/
def Series.schema (series : Series) : Result Schema := do
  let type ← series.values.type
  schemaOf [.column ⟨type, none⟩]

/-- The schema of named tensors: one named tensor for each. -/
def NamedTensors.schema (tensors : NamedTensors) : Result Schema := do
  let specs ← tensors.entries.mapM fun (name, tensor) =>
    Spec.tensor <$> tensor.spec (some name)
  schemaOf specs

/-- The schema of a tensor: one tensor without a name. -/
def Tensor.schema (tensor : Tensor) : Result Schema := do
  let spec ← tensor.spec none
  schemaOf [.tensor spec]

/-- The schema of texts: one column without a name. -/
def textSchema : Result Schema := schemaOf [.column ⟨.string, none⟩]

/-- The schema of a sample. -/
def Sample.schema : Sample → Result Schema
  | .tensor t => t.schema
  | .namedTensors ts => ts.schema
  | .frame f => f.schema
  | .series s => s.schema
  | .text _ | .texts _ => textSchema

/-- The signature of a sample input and, if there is one, a sample output. -/
def Signature.infer (input : Sample) (output : Option Sample) : Result Signature := do
  let inputs ← input.schema
  let outputs ← output.mapM Sample.schema
  return ⟨inputs, outputs⟩

end ModelShelf
