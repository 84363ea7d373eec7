import ModelShelf.Proofs.Schema.Layout

/-!
The stored text of a schema gives the schema back, because it is one of the schema's texts. The
text is ASCII whatever the names are.
-/

namespace ModelShelf.Schema

open Json Json.Reader

/-- The members of a tensor's block as they are written. -/
def tensorMembers (t : TensorSpec) : List (String × Json) :=
  [("dtype", .string t.element.name), ("shape", .array (t.shape.map .integer))] ++
    (t.name.map fun name => ("name", Json.string name)).toList

theorem toJson_tensor (t : TensorSpec) :
    (Spec.tensor t).toJson = .object [("type", .string tensorTypeName),
      (tensorMember, .object (tensorMembers t))] := by
  simp only [Spec.toJson, tensorMembers]
  cases t.name <;> rfl

theorem stringText_chars (s : String) : StringText s (spaced.chars (.string s)) :=
  ⟨_, Spelling.flatMap_charForm spaced s.toList, chars_string spaced s⟩

theorem nameTexts_ofOption (name : Option String) :
    NameTexts name [spaced.chars (.ofOption name)] := by
  cases name with
  | none => exact .null
  | some name => exact .string (stringText_chars name)

theorem columnMembers_toJson (c : ColumnSpec) :
    ColumnMembers c (memberTexts [("type", .string c.type.name), ("name", .ofOption c.name)]) where
  type := by
    refine ⟨_, ?_, stringText_chars c.type.name⟩
    simp [textsOf, memberTexts]
  name := nameTexts_ofOption c.name
  noBlock := by simp [textsOf, memberTexts]
  foreign := by simp [memberTexts]

theorem blockMembers_tensorMembers (t : TensorSpec) :
    BlockMembers t t.name (memberTexts (tensorMembers t)) where
  dtype := by
    refine ⟨_, ?_, t.element.name, ElementType.parse_name _, stringText_chars _⟩
    cases hname : t.name <;> simp [textsOf, memberTexts, tensorMembers, hname]
  shape := by
    refine ⟨_, ?_, listText_chars fun d _ => chars_integer spaced d⟩
    cases hname : t.name <;> simp [textsOf, memberTexts, tensorMembers, hname]
  name := by
    cases hname : t.name with
    | none =>
      have texts : textsOf "name" (memberTexts (tensorMembers t)) = [] := by
        simp [textsOf, memberTexts, tensorMembers, hname]
      rw [texts]
      exact .absent
    | some name =>
      have texts : textsOf "name" (memberTexts (tensorMembers t)) =
          [spaced.chars (.string name)] := by
        simp [textsOf, memberTexts, tensorMembers, hname]
      rw [texts]
      exact .string (stringText_chars name)
  foreign := by
    cases hname : t.name <;> simp [memberTexts, tensorMembers, hname]

/-- What is written for a spec is one of its texts. -/
theorem specText_chars (s : Spec) : SpecText (spaced.chars s.toJson) s := by
  cases s with
  | column c => exact .column (objectText_chars _) (columnMembers_toJson c)
  | tensor t =>
    rw [toJson_tensor]
    refine .tensor (objectText_chars _) ?_
    constructor
    · exact ⟨_, rfl, stringText_chars _⟩
    · exact ⟨t.name, none, by simp, .absent, _, _, rfl, objectText_chars _,
        blockMembers_tensorMembers t⟩
    · simp [memberTexts, tensorTypeName, tensorMember]

theorem schemaText_toJsonText (schema : Schema) : SchemaText schema.toJsonText.toList schema := by
  have specs : ListText SpecText schema.toJsonText.toList schema.specs :=
    listText_chars fun s _ => specText_chars s
  have text := SchemaText.list Gap.nil Gap.nil specs
  rwa [List.append_nil] at text

theorem ofJsonText_toJsonText (schema : Schema) : ofJsonText schema.toJsonText = .ok schema := by
  rw [ofJsonText, run_of_schemaText (schemaText_toJsonText schema) rfl]
  rfl

/-! ### ASCII -/

theorem ascii_ofOption (s : Option String) : Ascii (spaced.chars (.ofOption s)) := by
  cases s with
  | none =>
    exact .cons (by decide) (.cons (by decide) (.cons (by decide) (.cons (by decide) nofun)))
  | some s => exact ascii_chars_string s

theorem ascii_tensorMembers (t : TensorSpec) :
    Ascii (spaced.chars (.object (tensorMembers t))) := by
  refine ascii_chars_object fun member hmember => ?_
  simp only [tensorMembers, List.cons_append, List.nil_append, List.mem_cons, Option.mem_toList,
    Option.map_eq_some_iff] at hmember
  rcases hmember with rfl | rfl | ⟨name, -, rfl⟩
  · exact ascii_chars_string _
  · refine ascii_chars_array fun item hitem => ?_
    obtain ⟨d, -, rfl⟩ := List.mem_map.1 hitem
    exact ascii_chars_integer d
  · exact ascii_chars_string _

theorem ascii_toJson (s : Spec) : Ascii (spaced.chars s.toJson) := by
  cases s with
  | column c =>
    exact ascii_chars_object (List.forall_mem_cons.2 ⟨ascii_chars_string _,
      List.forall_mem_cons.2 ⟨ascii_ofOption c.name, nofun⟩⟩)
  | tensor t =>
    rw [toJson_tensor]
    exact ascii_chars_object (List.forall_mem_cons.2 ⟨ascii_chars_string _,
      List.forall_mem_cons.2 ⟨ascii_tensorMembers t, nofun⟩⟩)

theorem ascii_toJsonText (schema : Schema) : Ascii schema.toJsonText.toList :=
  ascii_chars_array fun item hitem => by
    obtain ⟨s, -, rfl⟩ := List.mem_map.1 hitem
    exact ascii_toJson s

/-- The text of every schema is ASCII, and it gives the schema back. -/
theorem ascii_and_ofJsonText_toJsonText (schema : Schema) :
    (∀ c ∈ schema.toJsonText.toList, c.toNat < 128) ∧
      ofJsonText schema.toJsonText = .ok schema :=
  ⟨ascii_toJsonText schema, ofJsonText_toJsonText schema⟩

end ModelShelf.Schema
