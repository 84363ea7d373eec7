import ModelShelf.Proofs.Schema.Uniformity

/-!
Schemas of tensors, alone or by name. A tensor has a spec when it has a first dimension, which is
the batch, and all its other dimensions are positive sizes that fit in 64 bits with a sign. The spec
keeps the type of the elements and these other dimensions.
-/

namespace ModelShelf

open Number

/-! ### Dimensions -/

/-- The sizes that a dimension of a schema may have. -/
def FixedSize (d : Nat) : Prop := 0 < d ∧ d ≤ 0x7FFFFFFFFFFFFFFF

instance (d : Nat) : Decidable (FixedSize d) := inferInstanceAs (Decidable (_ ∧ _))

theorem fixedDimension_eq_ok {d : Nat} {size : Int} :
    fixedDimension d = .ok size ↔ d ≤ 0x7FFFFFFFFFFFFFFF ∧ Int.ofNat d = size := by
  have fits : (d : Int) ∈ IntegerRange.signed64 ↔ d ≤ 0x7FFFFFFFFFFFFFFF := by
    simp only [IntegerRange.mem_iff, IntegerRange.signed64]
    omega
  rw [← fits, fixedDimension]
  split
  · next h => rw [Except.ok.injEq, and_iff_right h, Int.ofNat_eq_natCast]
  · next h => simp only [reduceCtorEq, h, false_and]

theorem mapM_fixedDimension {dims : List Nat} {sizes : List Int} :
    dims.mapM fixedDimension = .ok sizes ↔
      (∀ d ∈ dims, d ≤ 0x7FFFFFFFFFFFFFFF) ∧ dims.map Int.ofNat = sizes := by
  simp only [mapM_eq_ok, fixedDimension_eq_ok]
  rw [List.forall₂_and_left, ← List.forall₂_map_left_iff, List.forall₂_eq_eq_eq]

theorem batchShape_eq_ok {shape : List Nat} {sizes : List Int} :
    batchShape shape = .ok sizes ↔ shape ≠ [] ∧ (∀ d ∈ shape.tail, d ≤ 0x7FFFFFFFFFFFFFFF) ∧
      sizes = -1 :: shape.tail.map Int.ofNat := by
  cases shape with
  | nil => exact iff_of_false nofun fun h => h.1 rfl
  | cons batch dims =>
    have step : batchShape (batch :: dims) =
        (variableSize :: ·) <$> dims.mapM fixedDimension := rfl
    rw [step, map_eq_ok]
    simp only [mapM_fixedDimension]
    constructor
    · rintro ⟨_, ⟨fits, rfl⟩, rfl⟩
      exact ⟨List.cons_ne_nil _ _, fits, rfl⟩
    · rintro ⟨-, fits, rfl⟩
      exact ⟨_, ⟨fits, rfl⟩, rfl⟩

theorem validShape_batch {dims : List Nat} :
    ValidShape (-1 :: dims.map Int.ofNat) ↔ ∀ d ∈ dims, FixedSize d := by
  have valid (d : Nat) : ValidDimension (Int.ofNat d) ↔ FixedSize d := by
    simp only [Int.ofNat_eq_natCast, ValidDimension, variableSize, FixedSize, IntegerRange.mem_iff,
      IntegerRange.signed64]
    omega
  simp only [ValidShape, List.forall_mem_cons, List.forall_mem_map, valid]
  constructor
  · rintro ⟨-, -, h⟩
    exact h
  · intro h
    exact ⟨List.cons_ne_nil _ _, .inl rfl, h⟩

/-! ### Specs -/

namespace Tensor

variable {tensor : Tensor} {name : Option String} {spec : TensorSpec}

/-- A tensor with a first dimension, and others that a schema may have. -/
structure Inferable (tensor : Tensor) : Prop where
  batched : tensor.shape ≠ []
  sizes : ∀ d ∈ tensor.shape.tail, FixedSize d

instance (tensor : Tensor) : Decidable tensor.Inferable :=
  decidable_of_iff (tensor.shape ≠ [] ∧ ∀ d ∈ tensor.shape.tail, FixedSize d)
    ⟨fun h => ⟨h.1, h.2⟩, fun h => ⟨h.batched, h.sizes⟩⟩

/-- The spec that a tensor has under a name: a batch of any size, and the other dimensions as they
are. -/
structure HasSpec (tensor : Tensor) (name : Option String) (spec : TensorSpec) : Prop where
  inferable : tensor.Inferable
  element : spec.element = tensor.element
  shape : spec.shape = -1 :: tensor.shape.tail.map Int.ofNat
  name : spec.name = name

theorem Inferable.exists_spec (h : tensor.Inferable) (name : Option String) :
    ∃ spec, tensor.HasSpec name spec :=
  ⟨⟨tensor.element, -1 :: tensor.shape.tail.map Int.ofNat, name,
    validShape_batch.2 h.sizes⟩, h, rfl, rfl, rfl⟩

theorem spec_eq_ok : tensor.spec name = .ok spec ↔ tensor.HasSpec name spec := by
  rw [Tensor.spec, bind_eq_ok]
  simp only [batchShape_eq_ok, mapError_eq_ok]
  constructor
  · rintro ⟨shape, ⟨batched, -, rfl⟩, hspec⟩
    rw [TensorSpec.ofShape] at hspec
    split at hspec
    · next valid =>
      cases hspec
      exact ⟨⟨batched, validShape_batch.1 valid⟩, rfl, rfl, rfl⟩
    · cases hspec
  · intro h
    refine ⟨spec.shape, ⟨h.inferable.batched, fun d hd => (h.inferable.sizes d hd).2, h.shape⟩, ?_⟩
    rw [← h.element, ← h.name]
    exact spec.ofShape_self

/-- The schema of a tensor is its spec, without a name. -/
theorem schema_eq_ok {schema : Schema} :
    tensor.schema = .ok schema ↔
      ∃ spec, tensor.HasSpec none spec ∧ schema.specs = [.tensor spec] := by
  rw [Tensor.schema, bind_eq_ok]
  simp only [spec_eq_ok, Schema.schemaOf_eq_ok]

theorem exists_schema_iff : (∃ schema, tensor.schema = .ok schema) ↔ tensor.Inferable := by
  constructor
  · rintro ⟨schema, h⟩
    obtain ⟨spec, hspec, -⟩ := schema_eq_ok.1 h
    exact hspec.inferable
  · intro h
    obtain ⟨spec, hspec⟩ := h.exists_spec none
    obtain ⟨schema, hschema⟩ := Schema.exists_schemaOf_singleton (.tensor spec)
    exact ⟨schema, schema_eq_ok.2 ⟨spec, hspec, Schema.schemaOf_eq_ok.1 hschema⟩⟩

end Tensor

namespace NamedTensors

variable {tensors : NamedTensors}

/-- The spec of a tensor under its name. -/
def entrySpec (entry : String × Tensor) : Result Spec :=
  Spec.tensor <$> entry.2.spec (some entry.1)

theorem schema_eq (tensors : NamedTensors) :
    tensors.schema = tensors.entries.mapM entrySpec >>= schemaOf := rfl

theorem entrySpec_eq_ok {entry : String × Tensor} {spec : Spec} :
    entrySpec entry = .ok spec ↔ ∃ t, entry.2.HasSpec (some entry.1) t ∧ spec = .tensor t := by
  rw [entrySpec, map_eq_ok]
  simp only [Tensor.spec_eq_ok]

/-- The schema of named tensors has the spec of each of them, under its name and in order. -/
theorem schema_eq_ok {schema : Schema} :
    tensors.schema = .ok schema ↔ List.Forall₂
      (fun entry spec => ∃ t, entry.2.HasSpec (some entry.1) t ∧ spec = .tensor t)
      tensors.entries schema.specs := by
  rw [schema_eq, Schema.ofItems_eq_ok]
  simp only [entrySpec_eq_ok]

theorem exists_schema_iff :
    (∃ schema, tensors.schema = .ok schema) ↔ ∀ entry ∈ tensors.entries, entry.2.Inferable := by
  have named (entry : String × Tensor) (spec : Spec) (h : entrySpec entry = .ok spec) :
      spec.isNamed = true ∧ spec.isTensor = true := by
    obtain ⟨t, ht, rfl⟩ := entrySpec_eq_ok.1 h
    have hname : (Spec.tensor t).name = some entry.1 := ht.name
    exact ⟨Spec.isNamed_iff.2 (hname ▸ Option.some_ne_none _), rfl⟩
  simp only [schema_eq, Schema.exists_ofItems_iff named, entrySpec_eq_ok]
  refine forall₂_congr fun entry _ => ⟨?_, fun h => ?_⟩
  · rintro ⟨-, t, ht, -⟩
    exact ht.inferable
  · obtain ⟨t, ht⟩ := h.exists_spec (some entry.1)
    exact ⟨_, t, ht, rfl⟩

end NamedTensors

end ModelShelf
