import ModelShelf.Proofs.Sample.Frames
import ModelShelf.Proofs.Sample.Tensors

/-!
Inference looks only at the structure of a sample. Two tensors of one element type whose dimensions
differ in the size of the batch alone have the same schema, and so have two tables with columns of
the same names and types, whatever values stand in their rows and however many rows there are; of
columns of objects the kinds of the values count.
-/

namespace ModelShelf

/-! ### Tensors -/

namespace Tensor

variable {tensor other : Tensor}

/-- Tensors of one element type that differ in the size of the batch and in their elements alone. -/
structure Alike (tensor other : Tensor) : Prop where
  element : tensor.element = other.element
  batched : tensor.shape = [] ↔ other.shape = []
  dims : tensor.shape.tail = other.shape.tail

theorem Alike.symm (h : tensor.Alike other) : other.Alike tensor :=
  ⟨h.element.symm, h.batched.symm, h.dims.symm⟩

theorem Alike.hasSpec (h : tensor.Alike other) {name : Option String} {spec : TensorSpec}
    (hspec : tensor.HasSpec name spec) : other.HasSpec name spec where
  inferable := ⟨fun hempty => hspec.inferable.batched (h.batched.2 hempty),
    h.dims ▸ hspec.inferable.sizes⟩
  element := hspec.element.trans h.element
  shape := h.dims ▸ hspec.shape
  name := hspec.name

theorem Alike.hasSpec_iff (h : tensor.Alike other) {name : Option String} {spec : TensorSpec} :
    tensor.HasSpec name spec ↔ other.HasSpec name spec :=
  ⟨h.hasSpec, h.symm.hasSpec⟩

end Tensor

/-! ### Columns -/

namespace ColumnValues

variable {values others : ColumnValues}

/-- Columns of one element type, and of the same kinds of values if they hold objects. -/
structure Alike (values others : ColumnValues) : Prop where
  element : values.element = others.element
  kinds : ∀ cells otherCells, values = .object cells → others = .object otherCells →
    kindsOf cells = kindsOf otherCells

theorem Alike.toOption_type (h : values.Alike others) :
    values.type.toOption = others.type.toOption := by
  by_cases hobject : values.element = .object
  · obtain ⟨cells, rfl⟩ := element_eq_object hobject
    obtain ⟨otherCells, rfl⟩ := element_eq_object (h.element.symm.trans hobject)
    exact toOption_objectType (h.kinds cells otherCells rfl rfl)
  · have hother : others.element ≠ .object := h.element ▸ hobject
    rw [type_of_element hobject, type_of_element hother, h.element]

theorem Alike.type_eq_ok_iff (h : values.Alike others) (type : ColumnType) :
    values.type = .ok type ↔ others.type = .ok type := by
  rw [← toOption_eq_some, h.toOption_type, toOption_eq_some]

end ColumnValues

/-! ### Samples -/

namespace Sample

/-- Samples of the same structure: they differ in values, in the sizes of batches and in the numbers
of rows alone. -/
inductive SameStructure : Sample → Sample → Prop
  | tensor {tensor other : Tensor} (h : tensor.Alike other) :
      SameStructure (.tensor tensor) (.tensor other)
  | namedTensors {tensors others : NamedTensors}
      (h : List.Forall₂ (fun a b => a.1 = b.1 ∧ a.2.Alike b.2) tensors.entries others.entries) :
      SameStructure (.namedTensors tensors) (.namedTensors others)
  | frame {frame other : Frame}
      (h : List.Forall₂ (fun a b => a.1 = b.1 ∧ a.2.Alike b.2) frame.columns other.columns) :
      SameStructure (.frame frame) (.frame other)
  | series {series other : Series} (h : series.values.Alike other.values) :
      SameStructure (.series series) (.series other)

theorem SameStructure.toOption_schema {sample other : Sample} (h : sample.SameStructure other) :
    sample.schema.toOption = other.schema.toOption := by
  cases h with
  | tensor h =>
    refine toOption_congr fun schema => ?_
    simp only [Sample.schema, Tensor.schema_eq_ok, h.hasSpec_iff]
  | namedTensors h =>
    rw [Sample.schema, Sample.schema, NamedTensors.schema_eq, NamedTensors.schema_eq]
    refine Schema.toOption_ofItems (h.imp fun a b hab => toOption_congr fun spec => ?_)
    simp only [NamedTensors.entrySpec_eq_ok, hab.1, hab.2.hasSpec_iff]
  | frame h =>
    rw [Sample.schema, Sample.schema, Frame.schema_eq, Frame.schema_eq]
    refine Schema.toOption_ofItems (h.imp fun a b hab => toOption_congr fun spec => ?_)
    simp only [Frame.columnSpec_eq_ok, hab.1, hab.2.type_eq_ok_iff]
  | series h =>
    refine toOption_congr fun schema => ?_
    simp only [Sample.schema, Series.schema_eq_ok, h.type_eq_ok_iff]

/-- A tensor has a spec, alone or under a name, exactly when it has a first dimension and all its
others are positive and fit in 64 bits with a sign; the spec leaves the first one open and keeps the
others. Samples of the same structure have the same schema, or none of them has one. -/
theorem schema_by_structure (tensor : Tensor) (tensors : NamedTensors) :
    (∀ name, ((∃ spec, tensor.spec name = .ok spec) ↔ tensor.Inferable) ∧
      ∀ spec, tensor.spec name = .ok spec ↔ tensor.HasSpec name spec) ∧
    (((∃ schema, (Sample.tensor tensor).schema = .ok schema) ↔ tensor.Inferable) ∧
      ∀ schema, (Sample.tensor tensor).schema = .ok schema ↔
        ∃ spec, tensor.HasSpec none spec ∧ schema.specs = [.tensor spec]) ∧
    (((∃ schema, (Sample.namedTensors tensors).schema = .ok schema) ↔
        ∀ entry ∈ tensors.entries, entry.2.Inferable) ∧
      ∀ schema, (Sample.namedTensors tensors).schema = .ok schema ↔ List.Forall₂
        (fun entry spec => ∃ t, entry.2.HasSpec (some entry.1) t ∧ spec = .tensor t)
        tensors.entries schema.specs) ∧
    ∀ sample other : Sample, sample.SameStructure other →
      sample.schema.toOption = other.schema.toOption := by
  simp only [Sample.schema]
  refine ⟨fun name => ⟨?spec, fun _ => Tensor.spec_eq_ok⟩, ⟨Tensor.exists_schema_iff,
    fun _ => Tensor.schema_eq_ok⟩, ⟨NamedTensors.exists_schema_iff,
    fun _ => NamedTensors.schema_eq_ok⟩, fun _ _ => SameStructure.toOption_schema⟩
  case spec =>
    simp only [Tensor.spec_eq_ok]
    constructor
    · rintro ⟨spec, h⟩
      exact h.inferable
    · intro h
      exact h.exists_spec name

/-- Rows of three texts, all with the same text. -/
def textRows (count : Nat) (text : String) : Tensor := ⟨.text, [count, 3], fun _ => text⟩

/-- A batch of any size, also none, with any elements, and objects that are numbers of both kinds in
any rows. -/
theorem schema_by_structure_resized :
    (∃ schema, (Sample.tensor (textRows 0 "")).schema = .ok schema) ∧
    (textRows 0 "").Alike (textRows 7 "x") ∧
    (Sample.tensor (textRows 0 "")).schema.toOption =
      (Sample.tensor (textRows 7 "x")).schema.toOption ∧
    (ColumnValues.object [.int 2, .null, .float ⟨0⟩]).Alike (.object [.float ⟨1⟩, .int 5]) ∧
    (Sample.series ⟨none, .object [.int 2, .null, .float ⟨0⟩]⟩).schema.toOption =
      (Sample.series ⟨some "x", .object [.float ⟨1⟩, .int 5]⟩).schema.toOption := by
  obtain ⟨-, alone, -, same⟩ :=
    schema_by_structure (textRows 0 "") (NamedTensors.ofList [("x", textRows 7 "x")])
  have resized : (textRows 0 "").Alike (textRows 7 "x") := ⟨rfl, by decide, rfl⟩
  have numbers : (ColumnValues.object [.int 2, .null, .float ⟨0⟩]).Alike
      (.object [.float ⟨1⟩, .int 5]) := by
    refine ⟨rfl, ?_⟩
    rintro _ _ ⟨⟩ ⟨⟩
    ext kind
    cases kind <;> simp [kindsOf, Cell.kind?]
  exact ⟨alone.1.2 (by decide), resized, same _ _ (.tensor resized), numbers,
    same _ _ (.series numbers)⟩

end Sample

end ModelShelf
