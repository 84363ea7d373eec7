import ModelShelf.Proofs.Json.Reference
import ModelShelf.Proofs.Signature.RoundTrip

/-!
The texts of schemas and signatures beside those that the other writers of manifests give to the
same lists and dictionaries: they are the same, as long as no name holds the delete character.
-/

namespace ModelShelf

open Json
open Json.Reference (delete)

namespace Schema

/-- A spec as a dictionary. -/
def specReference : Spec → List Char
  | .column c =>
    Reference.dictionary [("type", Reference.string c.type.name),
      ("name", (c.name.map Reference.string).getD Reference.null)]
  | .tensor t =>
    let block := [("dtype", Reference.string t.element.name),
      ("shape", Reference.list (t.shape.map Reference.integer))] ++
      (t.name.map fun name => ("name", Reference.string name)).toList
    Reference.dictionary [("type", Reference.string "tensor"),
      ("tensor-spec", Reference.dictionary block)]

/-- A schema as a list of dictionaries. -/
def reference (schema : Schema) : List Char := Reference.list (schema.specs.map specReference)

/-- The delete character stands in a name. -/
def HasDelete (schema : Schema) : Prop :=
  ∃ spec ∈ schema.specs, ∃ name, spec.name = some name ∧ delete ∈ name.toList

/-! ### References -/

theorem delete_not_mem_specReference (spec : Spec) : delete ∉ specReference spec := by
  cases spec with
  | column c =>
    refine Reference.delete_not_mem_dictionary ?_
    simp only [List.forall_mem_cons]
    refine ⟨Reference.delete_not_mem_string _, ?_, nofun⟩
    cases c.name with
    | none => exact by decide
    | some name => exact Reference.delete_not_mem_string name
  | tensor t =>
    refine Reference.delete_not_mem_dictionary ?_
    simp only [List.forall_mem_cons]
    refine ⟨Reference.delete_not_mem_string _, Reference.delete_not_mem_dictionary ?_, nofun⟩
    intro entry hentry
    simp only [List.cons_append, List.nil_append, List.mem_cons, Option.mem_toList,
      Option.map_eq_some_iff] at hentry
    rcases hentry with rfl | rfl | ⟨name, -, rfl⟩
    · exact Reference.delete_not_mem_string _
    · refine Reference.delete_not_mem_list fun item hitem => ?_
      obtain ⟨d, -, rfl⟩ := List.mem_map.1 hitem
      exact Reference.delete_not_mem_integer d
    · exact Reference.delete_not_mem_string name

theorem delete_not_mem_reference (schema : Schema) : delete ∉ schema.reference := by
  refine Reference.delete_not_mem_list fun item hitem => ?_
  obtain ⟨spec, -, rfl⟩ := List.mem_map.1 hitem
  exact delete_not_mem_specReference spec

/-! ### Texts -/

theorem delete_not_mem_typeName (t : ColumnType) : delete ∉ t.name.toList := by
  cases t <;> decide

theorem delete_not_mem_elementName (t : ElementType) : delete ∉ t.name.toList := by
  cases t with
  | datetime unit => cases unit <;> decide
  | _ => decide

theorem chars_tensorMembers_eq {t : TensorSpec}
    (h : ∀ name, t.name = some name → delete ∉ name.toList) :
    memberTexts (tensorMembers t) =
      [("dtype", Reference.string t.element.name),
        ("shape", Reference.list (t.shape.map Reference.integer))] ++
        (t.name.map fun name => ("name", Reference.string name)).toList := by
  rw [memberTexts, tensorMembers, List.map_append, List.map_cons, List.map_cons, List.map_nil,
    chars_string_eq (delete_not_mem_elementName _), chars_array_eq, List.map_map]
  cases hname : t.name with
  | none => rfl
  | some name =>
    simp only [Option.map_some, Option.toList_some, List.map_cons, List.map_nil,
      chars_string_eq (h name hname)]
    rfl

theorem chars_spec_eq {spec : Spec} (h : ∀ name, spec.name = some name → delete ∉ name.toList) :
    spaced.chars spec.toJson = specReference spec := by
  cases spec with
  | column c =>
    have name : spaced.chars (.ofOption c.name) =
        (c.name.map Reference.string).getD Reference.null := by
      cases hname : c.name with
      | none => rfl
      | some name => exact chars_string_eq (h name hname)
    have solid : ∀ name ∈ ["type", "name"], delete ∉ name.toList := by decide
    refine Eq.trans (chars_object_eq solid) ?_
    rw [memberTexts_cons, memberTexts_cons, name,
      chars_string_eq (delete_not_mem_typeName _)]
    rfl
  | tensor t =>
    have solid : ∀ name ∈ ["type", tensorMember], delete ∉ name.toList := by decide
    have block : ∀ name ∈ (tensorMembers t).map Prod.fst, delete ∉ name.toList := by
      have known : ∀ name ∈ ["dtype", "shape", "name"], delete ∉ name.toList := by decide
      intro name hname
      apply known
      cases hnamed : t.name <;> simp [tensorMembers, hnamed] at hname ⊢ <;> grind
    rw [toJson_tensor]
    refine Eq.trans (chars_object_eq solid) ?_
    rw [memberTexts_cons, memberTexts_cons, chars_object_eq block,
      chars_tensorMembers_eq h, chars_string_eq (by decide)]
    rfl

theorem toList_toJsonText_eq {schema : Schema} (h : ¬ schema.HasDelete) :
    schema.toJsonText.toList = schema.reference := by
  have items : (schema.specs.map Spec.toJson).map spaced.chars =
      schema.specs.map specReference := by
    rw [List.map_map]
    refine List.map_congr_left fun spec hspec => chars_spec_eq fun name hname hdelete => ?_
    exact h ⟨spec, hspec, name, hname, hdelete⟩
  have text : schema.toJsonText.toList = spaced.chars (.array (schema.specs.map Spec.toJson)) := rfl
  rw [text, chars_array_eq, items, reference]

theorem delete_mem_spec {spec : Spec} {name : String} (hname : spec.name = some name)
    (h : delete ∈ name.toList) : delete ∈ spaced.chars spec.toJson := by
  have inside := delete_mem_string h
  cases spec with
  | column c =>
    have hname : c.name = some name := hname
    rw [Spec.toJson, hname]
    exact mem_chars_object (List.mem_cons_of_mem _ List.mem_cons_self) inside
  | tensor t =>
    have member : ("name", Json.string name) ∈ tensorMembers t := by
      have hname : t.name = some name := hname
      simp [tensorMembers, hname]
    rw [toJson_tensor]
    exact mem_chars_object (List.mem_cons_of_mem _ List.mem_cons_self)
      (mem_chars_object member inside)

theorem delete_mem_toJsonText {schema : Schema} (h : schema.HasDelete) :
    delete ∈ schema.toJsonText.toList := by
  obtain ⟨spec, hspec, name, hname, hdelete⟩ := h
  exact mem_chars_array (List.mem_map.2 ⟨spec, hspec, rfl⟩) (delete_mem_spec hname hdelete)

theorem toList_toJsonText_eq_iff (schema : Schema) :
    schema.toJsonText.toList = schema.reference ↔ ¬ schema.HasDelete := by
  constructor
  · intro heq hdelete
    have := delete_mem_toJsonText hdelete
    rw [heq] at this
    exact delete_not_mem_reference schema this
  · exact toList_toJsonText_eq

end Schema

namespace Signature

/-- A signature as a dictionary of texts. -/
def reference (signature : Signature) : List Char :=
  Reference.dictionary ([("inputs", Reference.string (String.ofList signature.inputs.reference))] ++
    (signature.outputs.map fun outputs =>
      ("outputs", Reference.string (String.ofList outputs.reference))).toList)

/-- The delete character stands in a name of the inputs or of the outputs. -/
def HasDelete (signature : Signature) : Prop :=
  signature.inputs.HasDelete ∨ ∃ outputs, signature.outputs = some outputs ∧ outputs.HasDelete

theorem chars_schemaText_eq {schema : Schema} (h : ¬ schema.HasDelete) :
    spaced.chars (.string schema.toJsonText) =
      Reference.string (String.ofList schema.reference) := by
  have text := Schema.toList_toJsonText_eq h
  have solid : delete ∉ schema.toJsonText.toList := by
    rw [text]
    exact schema.delete_not_mem_reference
  rw [chars_string_eq solid, ← text, String.ofList_toList]

theorem toList_toJsonText_eq {signature : Signature} (h : ¬ signature.HasDelete) :
    signature.toJsonText.toList = signature.reference := by
  obtain ⟨inputs, outputs⟩ := signature
  obtain ⟨hinputs, houtputs⟩ := not_or.1 h
  cases outputs with
  | none =>
    have solid : ∀ name ∈ ["inputs"], delete ∉ name.toList := by decide
    show spaced.chars (.object [("inputs", .string inputs.toJsonText)]) = _
    refine Eq.trans (chars_object_eq solid) ?_
    rw [memberTexts_cons, chars_schemaText_eq hinputs]
    rfl
  | some outputs =>
    have houtputs : ¬ outputs.HasDelete := fun hdelete => houtputs ⟨outputs, rfl, hdelete⟩
    have solid : ∀ name ∈ ["inputs", "outputs"], delete ∉ name.toList := by decide
    show spaced.chars (.object [("inputs", .string inputs.toJsonText),
      ("outputs", .string outputs.toJsonText)]) = _
    refine Eq.trans (chars_object_eq solid) ?_
    rw [memberTexts_cons, memberTexts_cons, chars_schemaText_eq hinputs,
      chars_schemaText_eq houtputs]
    rfl

theorem delete_not_mem_reference (signature : Signature) : delete ∉ signature.reference := by
  refine Reference.delete_not_mem_dictionary fun entry hentry => ?_
  simp only [List.cons_append, List.nil_append, List.mem_cons, Option.mem_toList,
    Option.map_eq_some_iff] at hentry
  rcases hentry with rfl | ⟨outputs, -, rfl⟩
  · exact Reference.delete_not_mem_string _
  · exact Reference.delete_not_mem_string _

theorem delete_mem_toJsonText {signature : Signature} (h : signature.HasDelete) :
    delete ∈ signature.toJsonText.toList := by
  obtain ⟨inputs, outputs⟩ := signature
  rcases h with h | ⟨outputs, rfl, h⟩
  · exact mem_chars_object (List.mem_append_left _ List.mem_cons_self)
      (delete_mem_string (Schema.delete_mem_toJsonText h))
  · exact mem_chars_object (List.mem_append_right _ List.mem_cons_self)
      (delete_mem_string (Schema.delete_mem_toJsonText h))

theorem toList_toJsonText_eq_iff (signature : Signature) :
    signature.toJsonText.toList = signature.reference ↔ ¬ signature.HasDelete := by
  constructor
  · intro heq hdelete
    have := delete_mem_toJsonText hdelete
    rw [heq] at this
    exact delete_not_mem_reference signature this
  · exact toList_toJsonText_eq

/-- Schemas and signatures are written with the reference text, except exactly when the delete
character stands in a name. -/
theorem toJsonText_eq_reference (schema : Schema) (signature : Signature) :
    (schema.toJsonText.toList = schema.reference ↔ ¬ schema.HasDelete) ∧
    (signature.toJsonText.toList = signature.reference ↔ ¬ signature.HasDelete) :=
  ⟨Schema.toList_toJsonText_eq_iff schema, toList_toJsonText_eq_iff signature⟩

end Signature

/-- The delete character is written as it is, where the reference text has an escape. -/
theorem Schema.delete_written_raw :
    let schema : Schema := ⟨[.column ⟨.long, some "\x7f"⟩], .inl (by decide), .inr (by decide)⟩
    schema.toJsonText = "[\x7b\"type\": \"long\", \"name\": \"\x7f\"\x7d]" ∧
      schema.reference = "[\x7b\"type\": \"long\", \"name\": \"\\u007f\"\x7d]".toList := by
  decide

end ModelShelf
