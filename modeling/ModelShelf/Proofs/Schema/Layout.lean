import ModelShelf.Proofs.Json.Skipping
import ModelShelf.Proofs.Json.Rendering
import ModelShelf.Proofs.Results
import ModelShelf.Schema.Json

/-!
Texts of schemas in any layout: members stand in any order among foreign ones, the name of a tensor
stands inside its block, outside of it or in both places, and strings are spelled in any way. A
schema is read from every one of its texts.
-/

namespace ModelShelf

open Json Json.Reader
open Json.Grammar (ValueText reads_skipValue)

@[simp]
theorem ElementType.parse_name (t : ElementType) : parse t.name = .ok t := by
  cases t with
  | datetime unit => cases unit <;> rfl
  | _ => rfl

@[simp]
theorem ColumnType.parse_name (t : ColumnType) : parse t.name = .ok t := by
  cases t <;> rfl

theorem ColumnType.name_ne_tensorTypeName (t : ColumnType) : t.name ≠ tensorTypeName := by
  cases t <;> decide

theorem ValidDimension.fits {d : Int} (h : ValidDimension d) :
    d ∈ Number.IntegerRange.signed64 := by
  rcases h with rfl | ⟨-, h⟩
  · decide
  · exact h

@[simp]
theorem TensorSpec.ofShape_self (t : TensorSpec) : ofShape t.element t.shape t.name = .ok t :=
  dif_pos t.valid

@[simp]
theorem Schema.ofSpecs_specs (schema : Schema) : ofSpecs schema.specs = .ok schema := by
  rw [ofSpecs, dif_pos schema.naming, dif_pos schema.kinds]

theorem Schema.specs_of_ofSpecs {specs : List Spec} {schema : Schema}
    (h : ofSpecs specs = .ok schema) : schema.specs = specs := by
  unfold ofSpecs at h
  split at h
  · split at h
    · cases h
      rfl
    · cases h
  · cases h

namespace Schema

/-! ### Texts -/

/-- A string, spelled in any way. -/
def StringText (s : String) (text : List Char) : Prop :=
  ∃ written, Spelling written s.toList ∧ text = '"' :: (written ++ ['"'])

/-- The texts of the values that stand under a name. -/
def textsOf (name : String) (members : List (String × List Char)) : List (List Char) :=
  (members.filter fun member => member.1 = name).map Prod.snd

/-- A name that may be absent: it is left out, null or a string. -/
inductive NameTexts : Option String → List (List Char) → Prop
  | absent : NameTexts none []
  | null : NameTexts none [['n', 'u', 'l', 'l']]
  | string {name : String} {text : List Char} (written : StringText name text) :
      NameTexts (some name) [text]

/-- The members of a column, in any order. -/
structure ColumnMembers (c : ColumnSpec) (members : List (String × List Char)) : Prop where
  type : ∃ text, textsOf "type" members = [text] ∧ StringText c.type.name text
  name : NameTexts c.name (textsOf "name" members)
  noBlock : textsOf "tensor-spec" members = []
  foreign : ∀ member ∈ members, member.1 ∉ ["type", "name", "tensor-spec"] → ValueText member.2

/-- The members of a tensor's block, in any order, with the name that stands there. -/
structure BlockMembers (t : TensorSpec) (inner : Option String)
    (members : List (String × List Char)) : Prop where
  dtype : ∃ text, textsOf "dtype" members = [text] ∧
    ∃ spelling, ElementType.parse spelling = .ok t.element ∧ StringText spelling text
  shape : ∃ text, textsOf "shape" members = [text] ∧
    ListText (fun text (d : Int) => text = (toString d).toList) text t.shape
  name : NameTexts inner (textsOf "name" members)
  foreign : ∀ member ∈ members, member.1 ∉ ["dtype", "shape", "name"] → ValueText member.2

/-- The members of a tensor, in any order. The name inside the block goes before the outer one. -/
structure TensorMembers (t : TensorSpec) (members : List (String × List Char)) : Prop where
  type : ∃ text, textsOf "type" members = [text] ∧ StringText "tensor" text
  named : ∃ inner outer : Option String, inner.or outer = t.name ∧
    NameTexts outer (textsOf "name" members) ∧
    ∃ text blockMembers, textsOf "tensor-spec" members = [text] ∧ ObjectText text blockMembers ∧
      BlockMembers t inner blockMembers
  foreign : ∀ member ∈ members, member.1 ∉ ["type", "name", "tensor-spec"] → ValueText member.2

/-- The text of a spec. -/
inductive SpecText : List Char → Spec → Prop
  | column {text : List Char} {members : List (String × List Char)} {c : ColumnSpec}
      (object : ObjectText text members) (written : ColumnMembers c members) :
      SpecText text (.column c)
  | tensor {text : List Char} {members : List (String × List Char)} {t : TensorSpec}
      (object : ObjectText text members) (written : TensorMembers t members) :
      SpecText text (.tensor t)

/-- The text of a schema, between blanks. -/
inductive SchemaText : List Char → Schema → Prop
  | list {before inside after : List Char} {schema : Schema} (blankBefore : Gap before)
      (blankAfter : Gap after) (specs : ListText SpecText inside schema.specs) :
      SchemaText (before ++ (inside ++ after)) schema

section TextsOf

variable {name key : String} {value : List Char} {members : List (String × List Char)}

theorem textsOf_cons_self :
    textsOf key ((key, value) :: members) = value :: textsOf key members := by
  simp [textsOf]

theorem textsOf_cons_ne (h : name ≠ key) :
    textsOf key ((name, value) :: members) = textsOf key members := by
  simp [textsOf, h]

end TextsOf

/-! ### Members that occur at most once -/

/-- A member that is known, or still to come once and then taken by the reader. -/
inductive Once (read : Reader α) : Option α → List (List Char) → Option α → Prop
  | absent {known : Option α} : Once read known [] known
  | read {text : List Char} {a : α} (takes : Takes read text a) : Once read none [text] (some a)

theorem Once.last_eq {read : Reader α} {known last : Option α} (h : Once read known [] last) :
    last = known := by
  cases h
  rfl

/-- A member that stands in front is read where it is still to come, and does not come again. -/
theorem Once.first {read : Reader α} {known last : Option α} {key : String} {value : List Char}
    {members : List (String × List Char)}
    (h : Once read known (textsOf key ((key, value) :: members)) last) :
    Once read last (textsOf key members) last ∧
      ∀ {before after rest : List Char}, Gap before → Gap after → EndsValue rest →
        Reads (once key known read) (before ++ ':' :: (after ++ (value ++ rest))) last rest := by
  rw [textsOf_cons_self] at h
  generalize textsOf key members = texts at *
  cases h with
  | read takes =>
    refine ⟨.absent, fun beforeBlank afterBlank hrest => ?_⟩
    exact .seqRight (reads_colon beforeBlank _) (.map some (takes.reads afterBlank hrest))

theorem takes_stringText {s : String} {text : List Char} (h : StringText s text) :
    Takes Reader.text text s := by
  obtain ⟨written, spelled, rfl⟩ := h
  have := takes_text spelled
  rwa [String.ofList_toList] at this

theorem takes_optional_stringText {s : String} {text : List Char} (h : StringText s text) :
    Takes (optional Reader.text) text (some s) := by
  refine (takes_stringText h).optional ?_
  obtain ⟨written, -, rfl⟩ := h
  rw [List.head?_cons]
  decide

theorem exists_once_nameTexts {name : Option String} {texts : List (List Char)}
    (h : NameTexts name texts) :
    ∃ last : Option (Option String), Once (optional Reader.text) none texts last ∧
      last.getD none = name := by
  cases h with
  | absent => exact ⟨none, .absent, rfl⟩
  | null => exact ⟨some none, .read (takes_null _), rfl⟩
  | string written => exact ⟨some (some _), .read (takes_optional_stringText written), rfl⟩

/-! ### Tensors -/

theorem folds_tensorField {members : List (String × List Char)} {state last : TensorFields}
    (element : Once Reader.text state.element (textsOf "dtype" members) last.element)
    (shape : Once (list integer64) state.shape (textsOf "shape" members) last.shape)
    (name : Once (optional Reader.text) state.name (textsOf "name" members) last.name)
    (foreign : ∀ member ∈ members, member.1 ∉ ["dtype", "shape", "name"] → ValueText member.2) :
    Folds tensorField state members last := by
  induction members generalizing state with
  | nil =>
    obtain ⟨_, _, _⟩ := state
    obtain ⟨_, _, _⟩ := last
    obtain rfl := element.last_eq
    obtain rfl := shape.last_eq
    obtain rfl := name.last_eq
    exact .nil
  | cons member members ih =>
    obtain ⟨key, value⟩ := member
    obtain ⟨valid, later⟩ := List.forall_mem_cons.1 foreign
    by_cases hdtype : key = "dtype"
    · obtain rfl := hdtype
      rw [textsOf_cons_ne (by decide)] at shape name
      obtain ⟨element', reads⟩ := element.first
      have more : Folds tensorField { state with element := last.element } members last :=
        ih element' shape name later
      refine .cons (fun before after hrest => ?_) more
      rw [tensorField, if_pos rfl]
      exact .bind (reads before after hrest) (.pure _ _)
    by_cases hshape : key = "shape"
    · obtain rfl := hshape
      rw [textsOf_cons_ne (by decide)] at element name
      obtain ⟨shape', reads⟩ := shape.first
      have more : Folds tensorField { state with shape := last.shape } members last :=
        ih element shape' name later
      refine .cons (fun before after hrest => ?_) more
      rw [tensorField, if_neg (by decide), if_pos rfl]
      exact .bind (reads before after hrest) (.pure _ _)
    by_cases hname : key = "name"
    · obtain rfl := hname
      rw [textsOf_cons_ne (by decide)] at element shape
      obtain ⟨name', reads⟩ := name.first
      have more : Folds tensorField { state with name := last.name } members last :=
        ih element shape name' later
      refine .cons (fun before after hrest => ?_) more
      rw [tensorField, if_neg (by decide), if_neg (by decide), if_pos rfl]
      exact .bind (reads before after hrest) (.pure _ _)
    · rw [textsOf_cons_ne hdtype] at element
      rw [textsOf_cons_ne hshape] at shape
      rw [textsOf_cons_ne hname] at name
      refine .cons (fun before after hrest => ?_) (ih element shape name later)
      have hvalue := valid (by simp [hdtype, hshape, hname])
      rw [tensorField, if_neg hdtype, if_neg hshape, if_neg hname]
      exact .bind (.seqRight (reads_colon before _) (reads_skipValue hvalue after hrest))
        (.pure _ _)

theorem takes_block {t : TensorSpec} {inner : Option String} {text : List Char}
    {members : List (String × List Char)} (object : ObjectText text members)
    (written : BlockMembers t inner members) :
    ∃ spelling, ElementType.parse spelling = .ok t.element ∧
      Takes (optional tensorBlock) text (some ⟨spelling, t.shape, inner⟩) := by
  obtain ⟨elementText, helement, spelling, accepted, hspelling⟩ := written.dtype
  obtain ⟨shapeText, hshape, dimensions⟩ := written.shape
  obtain ⟨last, name, rfl⟩ := exists_once_nameTexts written.name
  have taken : Takes (list integer64) shapeText t.shape := by
    refine takes_list (dimensions.mono fun text d hd heq => ?_)
    rw [heq]
    exact takes_integer64 (t.valid.2 d hd).fits
  have folds : Folds tensorField ⟨none, none, none⟩ members
      ⟨some spelling, some t.shape, last⟩ := by
    refine folds_tensorField ?_ ?_ name written.foreign
    · rw [helement]
      exact .read (takes_stringText hspelling)
    · rw [hshape]
      exact .read taken
  have block : Takes tensorBlock text ⟨spelling, t.shape, last.getD none⟩ :=
    takes_record object folds fun reads => .bind reads (.pure _ _)
  refine ⟨spelling, accepted, block.optional ?_⟩
  obtain ⟨inside, rfl⟩ := object.starts
  rw [List.head?_cons]
  decide

/-! ### Specs -/

theorem folds_specField {members : List (String × List Char)} {state last : SpecFields}
    (type : Once (optional Reader.text) state.type (textsOf "type" members) last.type)
    (name : Once (optional Reader.text) state.name (textsOf "name" members) last.name)
    (tensor : Once (optional tensorBlock) state.tensor (textsOf "tensor-spec" members) last.tensor)
    (foreign : ∀ member ∈ members, member.1 ∉ ["type", "name", "tensor-spec"] →
      ValueText member.2) :
    Folds specField state members last := by
  induction members generalizing state with
  | nil =>
    obtain ⟨_, _, _⟩ := state
    obtain ⟨_, _, _⟩ := last
    obtain rfl := type.last_eq
    obtain rfl := name.last_eq
    obtain rfl := tensor.last_eq
    exact .nil
  | cons member members ih =>
    obtain ⟨key, value⟩ := member
    obtain ⟨valid, later⟩ := List.forall_mem_cons.1 foreign
    by_cases htype : key = "type"
    · obtain rfl := htype
      rw [textsOf_cons_ne (by decide)] at name tensor
      obtain ⟨type', reads⟩ := type.first
      have more : Folds specField { state with type := last.type } members last :=
        ih type' name tensor later
      refine .cons (fun before after hrest => ?_) more
      rw [specField, if_pos rfl]
      exact .bind (reads before after hrest) (.pure _ _)
    by_cases hname : key = "name"
    · obtain rfl := hname
      rw [textsOf_cons_ne (by decide)] at type tensor
      obtain ⟨name', reads⟩ := name.first
      have more : Folds specField { state with name := last.name } members last :=
        ih type name' tensor later
      refine .cons (fun before after hrest => ?_) more
      rw [specField, if_neg (by decide), if_pos rfl]
      exact .bind (reads before after hrest) (.pure _ _)
    by_cases htensor : key = "tensor-spec"
    · obtain rfl := htensor
      rw [textsOf_cons_ne (by decide)] at type name
      obtain ⟨tensor', reads⟩ := tensor.first
      have more : Folds specField { state with tensor := last.tensor } members last :=
        ih type name tensor' later
      refine .cons (fun before after hrest => ?_) more
      have htensor : "tensor-spec" = tensorMember := rfl
      rw [specField, if_neg (by decide), if_neg (by decide), if_pos htensor]
      exact .bind (reads before after hrest) (.pure _ _)
    · rw [textsOf_cons_ne htype] at type
      rw [textsOf_cons_ne hname] at name
      rw [textsOf_cons_ne htensor] at tensor
      refine .cons (fun before after hrest => ?_) (ih type name tensor later)
      have hvalue := valid (by simp [htype, hname, htensor])
      have hother : key ≠ tensorMember := htensor
      rw [specField, if_neg htype, if_neg hname, if_neg hother]
      exact .bind (.seqRight (reads_colon before _) (reads_skipValue hvalue after hrest))
        (.pure _ _)

theorem specOfFields_column (c : ColumnSpec) {name : Option (Option String)}
    (h : name.getD none = c.name) :
    specOfFields ⟨some (some c.type.name), name, none⟩ = .ok (.column c) := by
  simp only [specOfFields, Option.getD_none, Option.getD_some,
    if_neg c.type.name_ne_tensorTypeName, ColumnType.parse_name, h]
  rfl

theorem specOfFields_tensor {t : TensorSpec} {spelling : String} {type : Option (Option String)}
    {inner : Option String} {outer : Option (Option String)}
    (accepted : ElementType.parse spelling = .ok t.element)
    (named : inner.or (outer.getD none) = t.name) :
    specOfFields ⟨type, outer, some (some ⟨spelling, t.shape, inner⟩)⟩ = .ok (.tensor t) := by
  simp only [specOfFields, Option.getD_some, accepted, named]
  show Functor.map Spec.tensor
    ((TensorSpec.ofShape t.element t.shape t.name).mapError Error.schema) = _
  rw [TensorSpec.ofShape_self]
  rfl

/-- The members of a spec in any layout say what the spec is. -/
theorem takes_specRecord {text : List Char} {s : Spec} (h : SpecText text s) :
    ∃ fields, Takes (record "struct RawColumnSpec" specOfList specOfObject) text fields ∧
      specOfFields fields = .ok s := by
  cases h with
  | @column members c object written =>
    obtain ⟨typeText, htype, spelled⟩ := written.type
    obtain ⟨last, name, hlast⟩ := exists_once_nameTexts written.name
    have folds : Folds specField ⟨none, none, none⟩ members
        ⟨some (some c.type.name), last, none⟩ := by
      refine folds_specField ?_ name ?_ written.foreign
      · rw [htype]
        exact .read (takes_optional_stringText spelled)
      · rw [written.noBlock]
        exact .absent
    exact ⟨_, takes_record object folds id, specOfFields_column c hlast⟩
  | @tensor members t object written =>
    obtain ⟨typeText, htype, spelled⟩ := written.type
    obtain ⟨inner, outer, named, houter, blockText, blockMembers, htensor, block, blockWritten⟩ :=
      written.named
    obtain ⟨last, name, rfl⟩ := exists_once_nameTexts houter
    obtain ⟨spelling, accepted, takes⟩ := takes_block block blockWritten
    have folds : Folds specField ⟨none, none, none⟩ members
        ⟨some (some "tensor"), last, some (some ⟨spelling, t.shape, inner⟩)⟩ := by
      refine folds_specField ?_ name ?_ written.foreign
      · rw [htype]
        exact .read (takes_optional_stringText spelled)
      · rw [htensor]
        exact .read takes
    exact ⟨_, takes_record object folds id, specOfFields_tensor accepted named⟩

theorem takes_spec {text : List Char} {s : Spec} (h : SpecText text s) : Takes spec text s := by
  obtain ⟨fields, takes, hspec⟩ := takes_specRecord h
  refine ⟨takes.starts, fun blank hrest => .bind (takes.reads blank hrest) ?_⟩
  rw [hspec]
  exact .pure s _

/-! ### Schemas -/

theorem takes_schema {text : List Char} {schema : Schema}
    (h : ListText SpecText text schema.specs) : Takes ofJsonReader text schema := by
  have takes := takes_list (h.mono fun _ _ _ => takes_spec)
  refine ⟨takes.starts, fun blank hrest => .bind (takes.reads blank hrest) ?_⟩
  rw [ofSpecs_specs]
  exact .pure schema _

theorem run_of_schemaText {text : String} {whole : List Char} {schema : Schema}
    (h : SchemaText whole schema) (htext : text.toList = whole) :
    Reader.run ofJsonReader text = .ok schema := by
  cases h with
  | @list before inside after schema blankBefore blankAfter specs =>
    have ends : EndsValue after := by
      have gap := EndsValue.gap blankAfter EndsValue.nil
      rwa [List.append_nil] at gap
    have reads := (takes_schema specs).reads blankBefore ends
    rw [← htext] at reads
    exact reads.run blankAfter

/-- A schema is read from every one of its texts. -/
theorem ofJsonText_of_schemaText {text : String} {schema : Schema}
    (h : SchemaText text.toList schema) : ofJsonText text = .ok schema := by
  rw [ofJsonText, run_of_schemaText h rfl]
  rfl

/-! ### A text of other tools -/

namespace Foreign

/-- A value that no schema knows, with half of a pair of surrogates in it. -/
def moreText : String := "[0.5e+3,\"\\ud800\"]"

/-- A block with an escape in a name and another name for the element type. -/
def blockText : String := "\x7b\"shape\":[-1],\"d\\u0074ype\":\"<M8[ns]\"\x7d"

/-- A tensor with its name outside of the block. -/
def specText : String :=
  "\x7b\"name\":\"x\", \"more\":" ++ moreText ++ ",\"type\":\"tensor\",\"tensor-spec\":" ++
    blockText ++ "\x7d"

def text : String := "[" ++ specText ++ "]\n"

def tensor : TensorSpec := ⟨.datetime .nanosecond, [-1], some "x", by decide⟩

def schema : Schema := ⟨[.tensor tensor], .inl (by decide), .inl (by decide)⟩

def quote (s : String) : List Char := '"' :: (s.toList ++ ['"'])

theorem stringText_quote {s : String}
    (h : (s.toList.all fun c => c ≠ '"' ∧ c ≠ '\\' ∧ ¬ c < ' ') = true) : StringText s (quote s) :=
  ⟨s.toList, .of_all h, rfl⟩

theorem valueText_moreText : ValueText moreText.toList := by
  have number : ValueText ([] ++ (['0'] ++ (['.', '5'] ++ ['e', '+', '3']))) :=
    .number (.inl rfl) .zero (.digits ⟨by decide, List.all_eq_true.1 rfl⟩)
      (.digits (.inl rfl) (List.mem_cons_of_mem _ List.mem_cons_self)
        ⟨by decide, List.all_eq_true.1 rfl⟩)
  have half : ValueText ['"', '\\', 'u', 'd', '8', '0', '0', '"'] :=
    .string (.unit (List.all_iff_forall_prop.1 (by decide)) .nil)
  obtain ⟨text, list, characters⟩ : ∃ text, ValueText text ∧ moreText.toList = text :=
    ⟨_, .list Gap.nil number (.item Gap.nil Gap.nil half (.endList Gap.nil)), by decide⟩
  rw [characters]
  exact list

theorem objectText_blockText : ∃ members, ObjectText blockText.toList members ∧
    BlockMembers tensor none members := by
  have escaped : Spelling ('d' :: '\\' :: 'u' :: '0' :: '0' :: '7' :: '4' :: "ype".toList)
      "dtype".toList :=
    .literal (by decide) (by decide) (by decide)
      (.unit (n := 0x74) rfl (.inl (by decide)) (.of_all (s := "ype".toList) (by decide)))
  obtain ⟨shape, dimensions, shapeText⟩ : ∃ text,
      ListText (fun text (d : Int) => text = (toString d).toList) text [-1] ∧
        text = "[-1]".toList :=
    ⟨_, .cons Gap.nil rfl (.done Gap.nil), by decide⟩
  have accepted : ElementType.parse "<M8[ns]" = .ok tensor.element := eq_ok_of_toOption (by decide)
  obtain ⟨text, object, characters⟩ : ∃ text,
      ObjectText text [("shape", shape), ("dtype", quote "<M8[ns]")] ∧ blockText.toList = text := by
    refine ⟨_, .cons Gap.nil (.of_all (by decide)) Gap.nil Gap.nil
      (.next Gap.nil Gap.nil escaped Gap.nil Gap.nil (.done Gap.nil)), ?_⟩
    rw [shapeText]
    decide
  rw [characters]
  exact ⟨_, object, {
    dtype := ⟨_, rfl, "<M8[ns]", accepted, stringText_quote (by decide)⟩
    shape := ⟨_, rfl, dimensions⟩
    name := .absent
    foreign := by simp }⟩

theorem specText_specText : SpecText specText.toList (.tensor tensor) := by
  obtain ⟨members, block, written⟩ := objectText_blockText
  have object : ObjectText _ [("name", quote "x"), ("more", moreText.toList),
      ("type", quote "tensor"), ("tensor-spec", blockText.toList)] :=
    .cons Gap.nil (.of_all (by decide)) Gap.nil Gap.nil
      (.next Gap.nil Gap.single (.of_all (by decide)) Gap.nil Gap.nil
        (.next Gap.nil Gap.nil (.of_all (by decide)) Gap.nil Gap.nil
          (.next Gap.nil Gap.nil (.of_all (by decide)) Gap.nil Gap.nil (.done Gap.nil))))
  have named : NameTexts (some "x") [quote "x"] := .string (stringText_quote (by decide))
  have spec : SpecText _ (.tensor tensor) := .tensor object {
    type := ⟨_, rfl, stringText_quote (by decide)⟩
    named := ⟨none, some "x", rfl, named, _, members, rfl, block, written⟩
    foreign := by simp [valueText_moreText] }
  obtain ⟨text, spec, characters⟩ : ∃ text, SpecText text (.tensor tensor) ∧
      specText.toList = text := ⟨_, spec, by decide⟩
  rw [characters]
  exact spec

theorem schemaText_text : SchemaText text.toList schema := by
  have specs : ListText SpecText _ schema.specs := .cons Gap.nil specText_specText (.done Gap.nil)
  have blank : Gap ['\n'] := by
    intro c hc
    rw [List.mem_singleton.1 hc]
    rfl
  have opening : "[".toList = ['['] := rfl
  have closing : "]\n".toList = [']', '\n'] := rfl
  have whole := SchemaText.list Gap.nil blank specs
  simpa [text, opening, closing] using whole

end Foreign

theorem ofJsonText_foreign : SchemaText Foreign.text.toList Foreign.schema ∧
    ofJsonText Foreign.text = .ok Foreign.schema :=
  ⟨Foreign.schemaText_text, ofJsonText_of_schemaText Foreign.schemaText_text⟩

end Schema

end ModelShelf
