import ModelShelf.Proofs.Schema.Elements
import ModelShelf.Sample.Infer

/-!
Schemas are uniform in whatever way they are obtained: each way ends in the check that all specs are
of one kind and all named or none. So a query that looks at the first spec alone tells what holds of
all of them.
-/

namespace ModelShelf

open Json.Reader

/-- Where all members of a list have a property or none has it, the first one decides. -/
theorem Uniform.any_head?_iff {α : Type} {p : α → Bool} {items : List α} (h : Uniform p items) :
    items.head?.any p = true ↔ items ≠ [] ∧ ∀ a ∈ items, p a = true := by
  cases items with
  | nil => simp
  | cons first others =>
    rcases h with all | none
    · have first := all first List.mem_cons_self
      exact iff_of_true first ⟨List.cons_ne_nil _ _, all⟩
    · simp [none first List.mem_cons_self]

theorem Uniform.any_head?_eq_false {α : Type} {p : α → Bool} {items : List α} (h : Uniform p items)
    (first : items.head?.any p = false) : ∀ a ∈ items, p a = false := by
  rcases h with all | none
  · cases items with
    | nil => nofun
    | cons a others => simp [all a List.mem_cons_self] at first
  · exact none

namespace Spec

variable {spec : Spec}

theorem isNamed_iff : spec.isNamed = true ↔ spec.name ≠ none := Option.isSome_iff_ne_none

theorem isNamed_eq_false : spec.isNamed = false ↔ spec.name = none := by
  simp [isNamed]

theorem isTensor_iff : spec.isTensor = true ↔ ∃ t, spec = .tensor t := by
  cases spec <;> simp [isTensor]

theorem isTensor_eq_false : spec.isTensor = false ↔ ∃ c, spec = .column c := by
  cases spec <;> simp [isTensor]

end Spec

/-- Specs of one kind, all named or none, with shapes of at least one dimension, each of them -1 or
positive. -/
structure Homogeneous (specs : List Spec) : Prop where
  kinds : (∀ spec ∈ specs, ∃ c, spec = .column c) ∨ ∀ spec ∈ specs, ∃ t, spec = .tensor t
  naming : (∀ spec ∈ specs, spec.name ≠ none) ∨ ∀ spec ∈ specs, spec.name = none
  shapes : ∀ t, .tensor t ∈ specs → t.shape ≠ [] ∧ ∀ d ∈ t.shape, d = -1 ∨ 0 < d

theorem homogeneous_iff {specs : List Spec} :
    Homogeneous specs ↔ Uniform Spec.isNamed specs ∧ Uniform Spec.isTensor specs := by
  simp only [Uniform, Spec.isNamed_iff, Spec.isNamed_eq_false, Spec.isTensor_iff,
    Spec.isTensor_eq_false]
  constructor
  · intro h
    exact ⟨h.naming, h.kinds.symm⟩
  · rintro ⟨naming, kinds⟩
    refine ⟨kinds.symm, naming, fun t _ => ⟨t.valid.1, fun d hd => ?_⟩⟩
    exact (t.valid.2 d hd).imp id And.left

namespace Schema

variable {schema : Schema} {specs : List Spec}

/-- The check of a list of specs passes the homogeneous ones, as they are. -/
theorem ofSpecs_eq_ok : ofSpecs specs = .ok schema ↔ Homogeneous specs ∧ schema.specs = specs := by
  constructor
  · intro h
    obtain rfl := specs_of_ofSpecs h
    exact ⟨homogeneous_iff.2 ⟨schema.naming, schema.kinds⟩, rfl⟩
  · rintro ⟨-, rfl⟩
    exact ofSpecs_specs schema

theorem schemaOf_eq_ok : schemaOf specs = .ok schema ↔ schema.specs = specs := by
  rw [schemaOf, mapError_eq_ok]
  constructor
  · exact specs_of_ofSpecs
  · rintro rfl
    exact ofSpecs_specs schema

/-- One spec makes a schema. -/
theorem exists_schemaOf_singleton (spec : Spec) : ∃ schema, schemaOf [spec] = .ok schema := by
  have uniform (p : Spec → Bool) : Uniform p [spec] := by
    simp only [Uniform, List.forall_mem_singleton]
    exact Bool.eq_false_or_eq_true (p spec)
  exact ⟨⟨[spec], uniform _, uniform _⟩, schemaOf_eq_ok.2 rfl⟩

section Items

variable {α : Type} {step : α → Result Spec} {items : List α} {tensors : Bool}

/-- The schema of items has the spec of each of them, in order. -/
theorem ofItems_eq_ok : items.mapM step >>= schemaOf = .ok schema ↔
    List.Forall₂ (fun a spec => step a = .ok spec) items schema.specs := by
  simp only [bind_eq_ok, schemaOf_eq_ok, exists_eq_right', mapM_eq_ok]

/-- Items whose steps answer alike have the same schema, or none of them has one. -/
theorem toOption_ofItems {others : List α}
    (alike : List.Forall₂ (fun a b => (step a).toOption = (step b).toOption) items others) :
    (items.mapM step >>= schemaOf).toOption = (others.mapM step >>= schemaOf).toOption := by
  refine toOption_congr fun schema => ?_
  rw [ofItems_eq_ok, ofItems_eq_ok]
  simp only [← toOption_eq_some]
  generalize schema.specs = specs
  induction alike generalizing specs with
  | nil => rfl
  | cons hab _ ih => simp only [List.forall₂_cons_left_iff, hab, ih]

/-- Named specs of one kind make a schema. -/
theorem exists_schemaOf
    (h : ∀ a spec, step a = .ok spec → spec.isNamed = true ∧ spec.isTensor = tensors)
    (hspecs : items.mapM step = .ok specs) : ∃ schema, schemaOf specs = .ok schema := by
  have uniform := forall_of_forall₂ (mapM_eq_ok.1 hspecs) h
  have naming : Uniform Spec.isNamed specs := .inl fun spec hspec => (uniform spec hspec).1
  have kinds : Uniform Spec.isTensor specs := by
    cases tensors with
    | true => exact .inl fun spec hspec => (uniform spec hspec).2
    | false => exact .inr fun spec hspec => (uniform spec hspec).2
  exact ⟨⟨specs, naming, kinds⟩, schemaOf_eq_ok.2 rfl⟩

/-- There is a schema of them exactly when each item has a spec. -/
theorem exists_ofItems_iff
    (h : ∀ a spec, step a = .ok spec → spec.isNamed = true ∧ spec.isTensor = tensors) :
    (∃ schema, items.mapM step >>= schemaOf = .ok schema) ↔
      ∀ a ∈ items, ∃ spec, step a = .ok spec := by
  rw [← exists_mapM_iff]
  simp only [bind_eq_ok]
  constructor
  · rintro ⟨schema, specs, hspecs, -⟩
    exact ⟨specs, hspecs⟩
  · rintro ⟨specs, hspecs⟩
    obtain ⟨schema, hschema⟩ := exists_schemaOf h hspecs
    exact ⟨schema, specs, hspecs, hschema⟩

/-- The fault of a schema is that of an item. -/
theorem ofItems_eq_error
    (h : ∀ a spec, step a = .ok spec → spec.isNamed = true ∧ spec.isTensor = tensors) {e : Error} :
    items.mapM step >>= schemaOf = .error e ↔ items.mapM step = .error e := by
  rw [bind_eq_error]
  constructor
  · rintro (hsteps | ⟨specs, hspecs, hschema⟩)
    · exact hsteps
    · obtain ⟨schema, made⟩ := exists_schemaOf h hspecs
      cases made.symm.trans hschema
  · exact .inl

end Items

/-! ### Queries -/

/-- The element type of a spec, for a column the one that holds its values. -/
inductive HasElement : Spec → ElementType → Prop
  | column (c : ColumnSpec) : HasElement (.column c) c.type.element
  | tensor (t : TensorSpec) : HasElement (.tensor t) t.element

/-- The type of a spec, which only columns have. -/
inductive HasType : Spec → ColumnType → Prop
  | column (c : ColumnSpec) : HasType (.column c) c.type

/-- What the queries of a schema tell holds of all its specs. -/
structure Answers (schema : Schema) : Prop where
  hasNames : schema.hasNames = true ↔ schema.specs ≠ [] ∧ ∀ spec ∈ schema.specs, spec.name ≠ none
  isTensors :
    schema.isTensors = true ↔ schema.specs ≠ [] ∧ ∀ spec ∈ schema.specs, ∃ t, spec = .tensor t
  named : schema.hasNames = true → schema.names.map some = schema.specs.map Spec.name
  unnamed : schema.hasNames = false →
    schema.names = (List.range schema.specs.length).map toString
  elements : List.Forall₂ HasElement schema.specs schema.elementTypes
  columns : (∃ types, schema.columnTypes = .ok types) ↔ schema.isTensors = false
  types : ∀ types, schema.columnTypes = .ok types → List.Forall₂ HasType schema.specs types

theorem names_getElem? (schema : Schema) (i : Nat) :
    schema.names[i]? = schema.specs[i]?.map fun spec => spec.name.getD (toString i) := by
  simp [names, List.getElem?_zipIdx, Function.comp_def]

theorem map_some_names (h : ∀ spec ∈ schema.specs, spec.name ≠ none) :
    schema.names.map some = schema.specs.map Spec.name := by
  refine List.ext_getElem? fun i => ?_
  rw [List.getElem?_map, List.getElem?_map, names_getElem?]
  cases hspec : schema.specs[i]? with
  | none => rfl
  | some spec =>
    obtain ⟨name, hname⟩ := Option.ne_none_iff_exists'.1 (h spec (List.mem_of_getElem? hspec))
    simp [hname]

theorem names_eq_range (h : ∀ spec ∈ schema.specs, spec.name = none) :
    schema.names = (List.range schema.specs.length).map toString := by
  refine List.ext_getElem? fun i => ?_
  rw [names_getElem?, List.getElem?_map]
  cases hspec : schema.specs[i]? with
  | none =>
    have hlength : schema.specs.length ≤ i := List.getElem?_eq_none_iff.1 hspec
    simp [hlength]
  | some spec =>
    have hlength : i < schema.specs.length := (List.getElem?_eq_some_iff.1 hspec).1
    simp [h spec (List.mem_of_getElem? hspec), List.getElem?_range hlength]

theorem forall₂_elementTypes (schema : Schema) :
    List.Forall₂ HasElement schema.specs schema.elementTypes := by
  rw [elementTypes, List.forall₂_map_right_iff]
  refine List.forall₂_same.2 fun spec _ => ?_
  cases spec with
  | column c => exact .column c
  | tensor t => exact .tensor t

theorem columnTypes_eq_ok {types : List ColumnType} :
    schema.columnTypes = .ok types ↔ List.Forall₂ HasType schema.specs types := by
  rw [columnTypes, mapM_eq_ok]
  refine iff_of_eq (congrArg (List.Forall₂ · schema.specs types) ?_)
  funext spec type
  refine propext ⟨fun h => ?_, fun h => ?_⟩
  · cases spec with
    | column c =>
      cases h
      exact .column c
    | tensor t => cases h
  · cases h with
    | column c => rfl

theorem exists_types (h : ∀ spec ∈ specs, ∃ c, spec = .column c) :
    ∃ types, List.Forall₂ HasType specs types := by
  induction specs with
  | nil => exact ⟨[], .nil⟩
  | cons spec specs ih =>
    obtain ⟨⟨c, rfl⟩, others⟩ := List.forall_mem_cons.1 h
    obtain ⟨types, columns⟩ := ih others
    exact ⟨c.type :: types, .cons (.column c) columns⟩

theorem columnTypes_iff (kinds : Uniform Spec.isTensor schema.specs) :
    (∃ types, schema.columnTypes = .ok types) ↔ schema.isTensors = false := by
  simp only [columnTypes_eq_ok]
  constructor
  · rintro ⟨types, columns⟩
    rw [isTensors]
    generalize schema.specs = specs at columns ⊢
    cases columns with
    | nil => rfl
    | cons first _ =>
      cases first with
      | column c => rfl
  · intro h
    have columns := kinds.any_head?_eq_false h
    exact exists_types fun spec hspec => Spec.isTensor_eq_false.1 (columns spec hspec)

theorem answers_of_homogeneous (h : Homogeneous schema.specs) : Answers schema := by
  obtain ⟨naming, kinds⟩ := homogeneous_iff.1 h
  have hasNames := naming.any_head?_iff
  have isTensors := kinds.any_head?_iff
  simp only [Spec.isNamed_iff] at hasNames
  simp only [Spec.isTensor_iff] at isTensors
  exact {
    hasNames := hasNames
    isTensors := isTensors
    named := fun first => map_some_names (hasNames.1 first).2
    unnamed := fun first => names_eq_range fun spec hspec =>
      Spec.isNamed_eq_false.1 (naming.any_head?_eq_false first spec hspec)
    elements := forall₂_elementTypes schema
    columns := columnTypes_iff kinds
    types := fun types => columnTypes_eq_ok.1 }

end Schema

/-! ### The ways to a schema -/

/-- The ways in which a signature is obtained. -/
inductive Signature.Obtained : Signature → Prop
  | texts {texts : SignatureTexts} {signature : Signature} (h : ofTexts texts = .ok signature) :
      Obtained signature
  | json {value : Json} {signature : Signature} (h : ofJson value = .ok signature) :
      Obtained signature
  | jsonText {text : String} {signature : Signature} (h : ofJsonText text = .ok signature) :
      Obtained signature
  | inferred {input : Sample} {output : Option Sample} {signature : Signature}
      (h : infer input output = .ok signature) : Obtained signature

namespace Schema

/-- The ways in which a schema is obtained. -/
inductive Obtained : Schema → Prop
  | specs {specs : List Spec} {schema : Schema} (h : ofSpecs specs = .ok schema) : Obtained schema
  | jsonText {text : String} {schema : Schema} (h : ofJsonText text = .ok schema) : Obtained schema
  | sample {sample : Sample} {schema : Schema} (h : sample.schema = .ok schema) : Obtained schema
  | inputs {signature : Signature} (h : signature.Obtained) : Obtained signature.inputs
  | outputs {signature : Signature} {schema : Schema} (h : signature.Obtained)
      (known : signature.outputs = some schema) : Obtained schema

/-- A schema that was made by the check of a list of specs. -/
def Checked (schema : Schema) : Prop := ∃ specs, ofSpecs specs = .ok schema

variable {schema : Schema}

theorem checked_of_jsonText {text : String} (h : ofJsonText text = .ok schema) :
    Checked schema := by
  obtain ⟨rest, hread, -⟩ := yields_of_run (eq_ok_of_mapError h)
  obtain ⟨specs, -, hspecs⟩ := ofSpecs_of_yields hread
  exact ⟨specs, hspecs⟩

theorem checked_of_schemaOf {specs : List Spec} (h : schemaOf specs = .ok schema) :
    Checked schema :=
  ⟨specs, eq_ok_of_mapError h⟩

theorem checked_of_sample {sample : Sample} (h : sample.schema = .ok schema) : Checked schema := by
  cases sample with
  | tensor tensor =>
    obtain ⟨_, -, h⟩ := bind_eq_ok.1 h
    exact checked_of_schemaOf h
  | namedTensors tensors =>
    obtain ⟨_, -, h⟩ := bind_eq_ok.1 h
    exact checked_of_schemaOf h
  | frame frame =>
    obtain ⟨_, -, h⟩ := bind_eq_ok.1 h
    exact checked_of_schemaOf h
  | series series =>
    obtain ⟨_, -, h⟩ := bind_eq_ok.1 h
    exact checked_of_schemaOf h
  | text | texts =>
    rw [Sample.schema, textSchema] at h
    exact checked_of_schemaOf h

/-- Both schemas of a signature are checked. -/
structure BothChecked (signature : Signature) : Prop where
  inputs : Checked signature.inputs
  outputs : ∀ schema, signature.outputs = some schema → Checked schema

theorem bothChecked_of_reads {α : Type} (read : α → Result Schema) {input : α} {output : Option α}
    {signature : Signature} (hread : ∀ {a schema}, read a = .ok schema → Checked schema)
    (h : (do
      let inputs ← read input
      let outputs ← output.mapM read
      return ⟨inputs, outputs⟩ : Result Signature) = .ok signature) : BothChecked signature := by
  obtain ⟨inputs, hinputs, hnext⟩ := bind_eq_ok.1 h
  obtain ⟨outputs, houtputs, hpure⟩ := bind_eq_ok.1 hnext
  cases hpure
  refine ⟨hread hinputs, fun schema hschema => ?_⟩
  obtain rfl : outputs = some schema := hschema
  cases output with
  | none => cases houtputs
  | some a =>
    rw [Option.mapM_some] at houtputs
    obtain ⟨found, hfound, hsome⟩ := map_eq_ok.1 houtputs
    cases hsome
    exact hread hfound

theorem bothChecked_of_obtained {signature : Signature} (h : signature.Obtained) :
    BothChecked signature := by
  have ofTexts {texts : SignatureTexts} (h : Signature.ofTexts texts = .ok signature) :
      BothChecked signature := bothChecked_of_reads Schema.ofJsonText checked_of_jsonText h
  have ofJson {value : Json} (h : Signature.ofJson value = .ok signature) :
      BothChecked signature := by
    obtain ⟨texts, -, htexts⟩ := bind_eq_ok.1 h
    exact ofTexts htexts
  cases h with
  | texts h => exact ofTexts h
  | json h => exact ofJson h
  | jsonText h =>
    obtain ⟨value, -, hvalue⟩ := bind_eq_ok.1 h
    exact ofJson hvalue
  | inferred h => exact bothChecked_of_reads Sample.schema checked_of_sample h

/-- Every way to a schema ends in the check of its specs. -/
theorem checked_of_obtained (h : Obtained schema) : Checked schema := by
  cases h with
  | specs h => exact ⟨_, h⟩
  | jsonText h => exact checked_of_jsonText h
  | sample h => exact checked_of_sample h
  | inputs h => exact (bothChecked_of_obtained h).inputs
  | outputs h known => exact (bothChecked_of_obtained h).outputs schema known

/-- A schema is homogeneous in whatever way it is obtained, and its queries tell what holds of all
its specs; every homogeneous list is the list of a schema. -/
theorem uniform_of_obtained :
    (∀ schema, Obtained schema → Homogeneous schema.specs ∧ Answers schema) ∧
    ∀ specs, Homogeneous specs → ∃ schema, ofSpecs specs = .ok schema ∧ schema.specs = specs := by
  constructor
  · intro schema h
    obtain ⟨specs, hspecs⟩ := checked_of_obtained h
    obtain ⟨homogeneous, rfl⟩ := ofSpecs_eq_ok.1 hspecs
    exact ⟨homogeneous, answers_of_homogeneous homogeneous⟩
  · intro specs homogeneous
    obtain ⟨naming, kinds⟩ := homogeneous_iff.1 homogeneous
    exact ⟨⟨specs, naming, kinds⟩, ofSpecs_eq_ok.2 ⟨homogeneous, rfl⟩, rfl⟩

theorem uniform_of_obtained_marked :
    (Homogeneous Marked.schema.specs ∧ Answers Marked.schema) ∧
    ∃ schema, ofSpecs [.column ⟨.long, some "a"⟩] = .ok schema ∧
      schema.specs = [.column ⟨.long, some "a"⟩] := by
  refine ⟨uniform_of_obtained.1 _ (.jsonText Marked.ofJsonText_text),
    uniform_of_obtained.2 _ ⟨.inl ?_, .inl ?_, ?_⟩⟩
  · exact List.forall_mem_singleton.2 ⟨_, rfl⟩
  · exact List.forall_mem_singleton.2 (by decide)
  · intro t ht
    cases List.mem_singleton.1 ht

end Schema

end ModelShelf
