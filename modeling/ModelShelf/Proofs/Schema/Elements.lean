import ModelShelf.Proofs.Json.Decomposition
import ModelShelf.Proofs.Schema.Layout

/-!
The elements that a text of a schema has. An element is an object, or the list of the values of its
members in order. Its block decides what becomes of it: an element with a block is a tensor, and one
without is a column of the type that it names. What is neither is refused, and so is the whole text.
-/

namespace ModelShelf

open Json Json.Reader
open Json.Grammar (ValueText)

theorem ColumnType.name_eq_of_parse {s : String} {type : ColumnType} (h : parse s = .ok type) :
    type.name = s := by
  rw [parse] at h
  split at h
  · rename_i found hfound
    cases h
    rw [ofName?] at hfound
    simpa using List.find?_some hfound
  · cases h

namespace Schema

def nullText : List Char := ['n', 'u', 'l', 'l']

/-- The texts that an element has for its type and for its block. -/
inductive Element : List Char → List (List Char) → List (List Char) → Prop
  | object {text : List Char} {members : List (String × List Char)}
      (isObject : ValueMembers text members) :
      Element text (textsOf "type" members) (textsOf tensorMember members)
  | list {text : List Char} {items : List (List Char)} (isList : ValueItems text items) :
      Element text items[0]?.toList items[2]?.toList

/-- What the type and the block of an element make of it. -/
inductive Kind (types blocks : List (List Char)) : Spec → Prop
  | column {c : ColumnSpec} {text : List Char} (noBlock : ∀ block ∈ blocks, block = nullText)
      (type : types = [text]) (named : StringText c.type.name text) : Kind types blocks (.column c)
  | tensor {t : TensorSpec} {block : List Char} (single : blocks = [block])
      (isBlock : block ≠ nullText) : Kind types blocks (.tensor t)

/-- The text of an element that is read as a spec. -/
def ElementOf (text : List Char) (spec : Spec) : Prop :=
  ∃ types blocks, Element text types blocks ∧ Kind types blocks spec

/-- There is no block, and no type of a column either. -/
structure Typeless (types blocks : List (List Char)) : Prop where
  noBlock : ∀ block ∈ blocks, block = nullText
  noType : ∀ text ∈ types, ∀ type : ColumnType, ¬ StringText type.name text

/-- An element that is neither an object nor a list, or has neither a block nor a type. -/
inductive Malformed (text : List Char) : Prop
  | scalar (noElement : ∀ types blocks, ¬ Element text types blocks) : Malformed text
  | typeless {types blocks : List (List Char)} (element : Element text types blocks)
      (typeless : Typeless types blocks) : Malformed text

section Elements

variable {text rest inside middle : List Char} {types types' blocks blocks' : List (List Char)}

theorem Element.eq (h : Element text types blocks) (h' : Element text types' blocks') :
    types = types' ∧ blocks = blocks' := by
  cases h with
  | object isObject =>
    cases h' with
    | object isObject' => simp [isObject.eq isObject']
    | list isList =>
      obtain ⟨_, rfl⟩ := isList.starts
      obtain ⟨_, ⟨⟩⟩ := isObject.object.starts
  | list isList =>
    cases h' with
    | object isObject =>
      obtain ⟨_, rfl⟩ := isList.starts
      obtain ⟨_, ⟨⟩⟩ := isObject.object.starts
    | list isList' => simp [isList.eq isList']

theorem Element.valueText (h : Element text types blocks) : ValueText text := by
  cases h with
  | object isObject => exact isObject.valueText
  | list isList => exact isList.valueText

theorem not_kind_of_typeless {spec : Spec} (h : Typeless types blocks) :
    ¬ Kind types blocks spec := by
  intro kind
  cases kind with
  | column _ type named => exact h.noType _ (by simp [type]) _ named
  | tensor single isBlock => exact isBlock (h.noBlock _ (by simp [single]))

/-- A malformed element is read as no spec. -/
theorem Malformed.not_elementOf {spec : Spec} (h : Malformed text) : ¬ ElementOf text spec := by
  rintro ⟨types, blocks, element, kind⟩
  cases h with
  | scalar noElement => exact noElement _ _ element
  | typeless element' typeless =>
    obtain ⟨rfl, rfl⟩ := element'.eq element
    exact not_kind_of_typeless typeless kind

/-! ### Members -/

variable {α σ : Type} {item : List Char → α → Prop} {read : Reader α}

theorem valueText_of_optionalText (values : ∀ ⦃text a⦄, item text a → ValueText text)
    {found : Option α} (h : OptionalText item text found) : ValueText text := by
  cases found with
  | none =>
    obtain rfl : text = _ := h
    exact .null
  | some a => exact values h

theorem valueText_of_stringText {s : String} (h : StringText s text) : ValueText text := by
  obtain ⟨written, spelled, rfl⟩ := h
  exact valueText_of_spelling spelled

theorem accepts_stringText : Accepts Reader.text fun text s => StringText s text := accepts_text

/-- What a member does to the field of a name: it fills its own, which was not known before. -/
def Sets (item : List Char → α → Prop) (field name : String) (value : List Char)
    (known next : Option α) : Prop :=
  if name = field then known = none ∧ ∃ a, next = some a ∧ item value a else next = known

theorem Sets.other {field name : String} {value : List Char} {known : Option α}
    (h : name ≠ field) : Sets item field name value known known := by
  rw [Sets, if_neg h]

/-- A member that must not occur twice is a colon and a text that fills its field. -/
theorem sets_of_yields_once {name : String} {known found : Option α} (hread : Accepts read item)
    (values : ∀ ⦃text a⦄, item text a → ValueText text)
    (h : Yields (once name known read) text found rest) :
    ∃ before after value, Gap before ∧ Gap after ∧
      text = before ++ ':' :: (after ++ (value ++ rest)) ∧ ValueText value ∧
      Sets item name name value known found := by
  unfold once at h
  split at h
  · exact (not_yields_mismatch _ h).elim
  · rename_i hknown
    obtain ⟨_, _, hcolon, hmap⟩ := h.of_seqRight
    obtain ⟨a, rfl, hvalue⟩ := hmap.of_map
    obtain ⟨before, beforeBlank, rfl⟩ := gap_of_yields_colon hcolon
    obtain ⟨after, value, afterBlank, rfl, written⟩ := hread hvalue
    refine ⟨before, after, value, beforeBlank, afterBlank, rfl, values written, ?_⟩
    rw [Sets, if_pos rfl]
    exact ⟨by simpa using hknown, a, rfl, written⟩

/-- What the texts of a name do to its field: it stays what it was, or one text fills it. -/
inductive Fills (item : List Char → α → Prop) : Option α → List (List Char) → Option α → Prop
  | absent {known : Option α} : Fills item known [] known
  | read {text : List Char} {a : α} (written : item text a) : Fills item none [text] (some a)

theorem Fills.first {known next last : Option α} {name field : String} {value : List Char}
    {members : List (String × List Char)} (h : Sets item field name value known next)
    (later : Fills item next (textsOf field members) last) :
    Fills item known (textsOf field ((name, value) :: members)) last := by
  unfold Sets at h
  split at h
  · rename_i hname
    subst hname
    obtain ⟨rfl, a, rfl, written⟩ := h
    rw [textsOf_cons_self]
    generalize textsOf name members = texts at later
    cases later with
    | absent => exact .read written
  · rename_i hname
    rw [textsOf_cons_ne hname, ← h]
    exact later

theorem fills_of_carries {member : String → List Char → σ → σ → Prop} {field : String}
    {get : σ → Option α} {state last : σ} {members : List (String × List Char)}
    (h : Carries member state members last)
    (sets : ∀ ⦃name value state next⦄, member name value state next →
      Sets item field name value (get state) (get next)) :
    Fills item (get state) (textsOf field members) (get last) := by
  induction h with
  | nil => exact .absent
  | cons first _ ih => exact .first (sets first) ih

theorem values_of_carries {member : String → List Char → σ → σ → Prop} {state last : σ}
    {members : List (String × List Char)} (h : Carries member state members last)
    (values : ∀ ⦃name value state next⦄, member name value state next → ValueText value) :
    ∀ member ∈ members, ValueText member.2 := by
  induction h with
  | nil => nofun
  | cons first _ ih => exact List.forall_mem_cons.2 ⟨values first, ih⟩

theorem foreign_of_yields (h : Yields (colon *> skipValue) text () rest) :
    ∃ before after value, Gap before ∧ Gap after ∧
      text = before ++ ':' :: (after ++ (value ++ rest)) ∧ ValueText value := by
  obtain ⟨_, _, hcolon, hskip⟩ := h.of_seqRight
  obtain ⟨before, beforeBlank, rfl⟩ := gap_of_yields_colon hcolon
  obtain ⟨after, value, afterBlank, rfl, isValue⟩ := accepts_skipValue hskip
  exact ⟨before, after, value, beforeBlank, afterBlank, rfl, isValue⟩

/-! ### Blocks -/

/-- The text of a block: a value that is not null. -/
def BlockText (text : List Char) (_ : TensorBlock) : Prop := ValueText text ∧ text ≠ nullText

/-- The text of a string or null. -/
def NullableText : List Char → Option String → Prop := OptionalText fun text s => StringText s text

theorem accepts_name : Accepts (optional Reader.text) NullableText :=
  accepts_optional accepts_stringText

theorem valueText_of_name {found : Option String} (h : NullableText text found) :
    ValueText text :=
  valueText_of_optionalText (fun _ _ => valueText_of_stringText) h

theorem accepts_shape : Accepts (list integer64) fun text _ => ValueText text :=
  (accepts_list accepts_integer64).imp fun shape => valueText_of_listText shape fun _ _ => id

theorem acceptsMember_tensorField :
    AcceptsMember tensorField fun _ value _ _ => ValueText value := by
  intro fields name text next rest h
  unfold tensorField at h
  split at h
  · obtain ⟨_, _, honce, hpure⟩ := h.of_bind
    obtain ⟨-, rfl⟩ := hpure.of_pure
    obtain ⟨before, after, value, beforeBlank, afterBlank, htext, isValue, -⟩ :=
      sets_of_yields_once accepts_stringText (fun _ _ => valueText_of_stringText) honce
    exact ⟨before, after, value, beforeBlank, afterBlank, htext, isValue⟩
  split at h
  · obtain ⟨_, _, honce, hpure⟩ := h.of_bind
    obtain ⟨-, rfl⟩ := hpure.of_pure
    obtain ⟨before, after, value, beforeBlank, afterBlank, htext, isValue, -⟩ :=
      sets_of_yields_once accepts_shape (fun _ _ => id) honce
    exact ⟨before, after, value, beforeBlank, afterBlank, htext, isValue⟩
  split at h
  · obtain ⟨_, _, honce, hpure⟩ := h.of_bind
    obtain ⟨-, rfl⟩ := hpure.of_pure
    obtain ⟨before, after, value, beforeBlank, afterBlank, htext, isValue, -⟩ :=
      sets_of_yields_once accepts_name (fun _ _ => valueText_of_name) honce
    exact ⟨before, after, value, beforeBlank, afterBlank, htext, isValue⟩
  · obtain ⟨_, _, hskip, hpure⟩ := h.of_bind
    obtain ⟨-, rfl⟩ := hpure.of_pure
    exact foreign_of_yields hskip

theorem blockItems_of_yields {block : TensorBlock} (h : Yields tensorOfList inside block middle)
    (hend : Yields endList middle () rest) :
    ∃ body items, inside = body ++ rest ∧ ValueItems ('[' :: body) items := by
  obtain ⟨element?, _, helement, hnext⟩ := h.of_bind
  split at hnext
  · exact (not_yields_mismatch _ hnext).elim
  obtain ⟨shape?, _, hshape, hname⟩ := hnext.of_bind
  split at hname
  · exact (not_yields_mismatch _ hname).elim
  obtain ⟨name, last, hitem, hpure⟩ := hname.of_bind
  obtain ⟨-, rfl⟩ := hpure.of_pure
  obtain ⟨others, remains⟩ : ∃ others, Remains others _ rest := by
    cases name with
    | none => exact ⟨[], remains_of_yields_item?_none hitem hend⟩
    | some name =>
      obtain ⟨value, -, remains⟩ := remains_of_yields_item?_some accepts_name
        (fun _ _ => valueText_of_name) hitem (remains_of_yields_endList hend)
      exact ⟨_, remains⟩
  obtain ⟨_, -, remains⟩ := remains_of_yields_item?_some accepts_shape (fun _ _ => id) hshape
    remains
  obtain ⟨body, _, rfl, -, isList⟩ := valueItems_of_yields_item?_some accepts_stringText
    (fun _ _ => valueText_of_stringText) helement remains
  exact ⟨body, _, rfl, isList⟩

theorem accepts_tensorBlock : Accepts tensorBlock BlockText := by
  refine accepts_record (fun inside block middle rest h hend => ?_)
    fun inside block middle rest h hend => ?_
  · obtain ⟨body, items, rfl, isList⟩ := blockItems_of_yields h hend
    exact ⟨body, rfl, isList.valueText, by simp [nullText]⟩
  · obtain ⟨fields, _, hmembers, hfields⟩ := h.of_bind
    obtain ⟨body, more, members, rfl, rfl, object, carries⟩ :=
      objectText_of_yields_members acceptsMember_tensorField hmembers
    have hmiddle : middle = '\x7d' :: more := by
      split at hfields
      · exact (not_yields_mismatch _ hfields).elim
      · exact (not_yields_mismatch _ hfields).elim
      · exact hfields.of_pure.2
    rw [hmiddle] at hend
    rw [eq_of_yields_endObject hend]
    have values := values_of_carries carries fun _ _ _ _ isValue => isValue
    exact ⟨body ++ ['\x7d'], by simp, valueText_of_objectText object values, by simp [nullText]⟩

/-! ### Specs -/

/-- What a member does to the fields of a spec. -/
structure SpecMember (name : String) (value : List Char) (fields next : SpecFields) : Prop where
  isValue : ValueText value
  type : Sets NullableText "type" name value fields.type next.type
  tensor : Sets (OptionalText BlockText) tensorMember name value fields.tensor next.tensor

theorem accepts_block : Accepts (optional tensorBlock) (OptionalText BlockText) :=
  accepts_optional accepts_tensorBlock

theorem valueText_of_block {found : Option TensorBlock} (h : OptionalText BlockText text found) :
    ValueText text :=
  valueText_of_optionalText (fun _ _ block => block.1) h

theorem acceptsMember_specField : AcceptsMember specField SpecMember := by
  intro fields name text next rest h
  unfold specField at h
  split at h
  · rename_i htype
    subst htype
    obtain ⟨found, _, honce, hpure⟩ := h.of_bind
    obtain ⟨rfl, rfl⟩ := hpure.of_pure
    obtain ⟨before, after, value, beforeBlank, afterBlank, rfl, isValue, sets⟩ :=
      sets_of_yields_once accepts_name (fun _ _ => valueText_of_name) honce
    exact ⟨before, after, value, beforeBlank, afterBlank, rfl, isValue, sets, .other (by decide)⟩
  split at h
  · rename_i htype hname
    obtain ⟨found, _, honce, hpure⟩ := h.of_bind
    obtain ⟨rfl, rfl⟩ := hpure.of_pure
    obtain ⟨before, after, value, beforeBlank, afterBlank, rfl, isValue, -⟩ :=
      sets_of_yields_once accepts_name (fun _ _ => valueText_of_name) honce
    refine ⟨before, after, value, beforeBlank, afterBlank, rfl, isValue, .other htype, .other ?_⟩
    rw [hname]
    decide
  split at h
  · rename_i htype _ htensor
    subst htensor
    obtain ⟨found, _, honce, hpure⟩ := h.of_bind
    obtain ⟨rfl, rfl⟩ := hpure.of_pure
    obtain ⟨before, after, value, beforeBlank, afterBlank, rfl, isValue, sets⟩ :=
      sets_of_yields_once accepts_block (fun _ _ => valueText_of_block) honce
    exact ⟨before, after, value, beforeBlank, afterBlank, rfl, isValue, .other htype, sets⟩
  · rename_i htype _ htensor
    obtain ⟨_, _, hskip, hpure⟩ := h.of_bind
    obtain ⟨rfl, rfl⟩ := hpure.of_pure
    obtain ⟨before, after, value, beforeBlank, afterBlank, rfl, isValue⟩ := foreign_of_yields hskip
    exact ⟨before, after, value, beforeBlank, afterBlank, rfl, isValue, .other htype,
      .other htensor⟩

/-- The fields that the texts of an element are read as. -/
def FieldsOf (text : List Char) (fields : SpecFields) : Prop :=
  ∃ types blocks, Element text types blocks ∧
    Fills NullableText none types fields.type ∧
    Fills (OptionalText BlockText) none blocks fields.tensor

theorem fieldsOf_of_yields_list {fields : SpecFields} (h : Yields specOfList inside fields middle)
    (hend : Yields endList middle () rest) :
    ∃ body, inside = body ++ rest ∧ FieldsOf ('[' :: body) fields := by
  obtain ⟨type, _, htype, hnext⟩ := h.of_bind
  obtain ⟨name, _, hname, hlast⟩ := hnext.of_bind
  obtain ⟨tensor, _, htensor, hpure⟩ := hlast.of_bind
  obtain ⟨rfl, rfl⟩ := hpure.of_pure
  -- A field is there only behind the fields before it.
  cases type with
  | none =>
    obtain ⟨rfl, rfl⟩ := Yields.of_pure hname
    obtain ⟨rfl, rfl⟩ := Yields.of_pure htensor
    obtain ⟨body, rfl, isList⟩ := valueItems_of_yields_item?_none htype hend
    exact ⟨body, rfl, _, _, .list isList, .absent, .absent⟩
  | some type =>
    have typed {others : List (List Char)} (remains : Remains others _ rest) :=
      valueItems_of_yields_item?_some accepts_name (fun _ _ => valueText_of_name) htype remains
    cases name with
    | none =>
      obtain ⟨rfl, rfl⟩ := Yields.of_pure htensor
      obtain ⟨body, value, rfl, written, isList⟩ := typed (remains_of_yields_item?_none hname hend)
      exact ⟨body, rfl, _, _, .list isList, .read written, .absent⟩
    | some name =>
      have named {others : List (List Char)} (remains : Remains others _ rest) :=
        remains_of_yields_item?_some accepts_name (fun _ _ => valueText_of_name) hname remains
      cases tensor with
      | none =>
        obtain ⟨_, -, remains⟩ := named (remains_of_yields_item?_none htensor hend)
        obtain ⟨body, value, rfl, written, isList⟩ := typed remains
        exact ⟨body, rfl, _, _, .list isList, .read written, .absent⟩
      | some tensor =>
        obtain ⟨block, isBlock, remains⟩ := remains_of_yields_item?_some accepts_block
          (fun _ _ => valueText_of_block) htensor (remains_of_yields_endList hend)
        obtain ⟨_, -, remains⟩ := named remains
        obtain ⟨body, value, rfl, written, isList⟩ := typed remains
        exact ⟨body, rfl, _, _, .list isList, .read written, .read isBlock⟩

theorem accepts_specRecord :
    Accepts (record "struct RawColumnSpec" specOfList specOfObject) FieldsOf := by
  refine accepts_record (fun inside fields middle rest => fieldsOf_of_yields_list)
    fun inside fields middle rest h hend => ?_
  obtain ⟨body, more, members, rfl, rfl, object, carries⟩ :=
    objectText_of_yields_members acceptsMember_specField h
  rw [eq_of_yields_endObject hend]
  have values := values_of_carries carries fun _ _ _ _ member => member.isValue
  exact ⟨body ++ ['\x7d'], by simp, _, _, .object ⟨object, values⟩,
    fills_of_carries carries fun _ _ _ _ member => member.type,
    fills_of_carries carries fun _ _ _ _ member => member.tensor⟩

/-- A block makes an element a tensor, and without one its type makes it a column. -/
theorem kind_of_specOfFields {fields : SpecFields} {spec : Spec}
    (type : Fills NullableText none types fields.type)
    (tensor : Fills (OptionalText BlockText) none blocks fields.tensor)
    (h : specOfFields fields = .ok spec) : Kind types blocks spec := by
  obtain ⟨foundType, name, foundBlock⟩ := fields
  unfold specOfFields at h
  split at h
  · rename_i block hblock
    obtain ⟨element, -, hspec⟩ := bind_eq_ok.1 h
    obtain ⟨t, -, rfl⟩ := map_eq_ok.1 hspec
    cases tensor with
    | absent => cases hblock
    | @read text found written =>
      obtain rfl : found = some block := hblock
      exact .tensor rfl written.2
  · rename_i hblock
    have noBlock : ∀ block ∈ blocks, block = nullText := by
      cases tensor with
      | absent => nofun
      | @read text found written =>
        obtain rfl : found = none := hblock
        exact List.forall_mem_singleton.2 written
    split at h
    · cases h
    · rename_i s htype
      split at h
      · cases h
      · obtain ⟨columnType, hparse, hpure⟩ := bind_eq_ok.1 h
        cases hpure
        cases type with
        | absent => cases htype
        | @read text found written =>
          obtain rfl : found = some s := htype
          refine .column noBlock rfl ?_
          rw [ColumnType.name_eq_of_parse (eq_ok_of_mapError hparse)]
          exact written

theorem accepts_spec : Accepts spec fun text s => ValueText text ∧ ElementOf text s := by
  intro text s rest h
  obtain ⟨fields, middle, hrecord, hnext⟩ := h.of_bind
  obtain ⟨gap, body, blank, rfl, types, blocks, element, type, tensor⟩ := accepts_specRecord hrecord
  split at hnext
  · rename_i hspec
    obtain ⟨rfl, rfl⟩ := hnext.of_pure
    exact ⟨gap, body, blank, rfl, element.valueText, types, blocks, element,
      kind_of_specOfFields type tensor hspec⟩
  · exact (not_yields_mismatch _ hnext).elim

/-! ### Schemas -/

theorem ofSpecs_of_yields {schema : Schema} (h : Yields ofJsonReader text schema rest) :
    ∃ specs, Yields (list spec) text specs rest ∧ ofSpecs specs = .ok schema := by
  obtain ⟨specs, middle, hlist, hnext⟩ := h.of_bind
  split at hnext
  · rename_i hspecs
    obtain ⟨rfl, rfl⟩ := hnext.of_pure
    exact ⟨specs, hlist, hspecs⟩
  · exact (not_yields_mismatch _ hnext).elim

theorem accepts_schema : Accepts ofJsonReader fun text schema =>
    ∃ elements, ValueItems text elements ∧ List.Forall₂ ElementOf elements schema.specs := by
  intro text schema rest h
  obtain ⟨specs, hlist, hspecs⟩ := ofSpecs_of_yields h
  obtain ⟨gap, body, blank, rfl, list⟩ := accepts_list accepts_spec hlist
  obtain ⟨elements, isList, paired⟩ := exists_valueItems_of_listText list fun _ _ item => item.1
  refine ⟨gap, body, blank, rfl, elements, isList, ?_⟩
  rw [specs_of_ofSpecs hspecs]
  exact paired.imp fun _ _ item => item.2

end Elements

/-- The text of a stored schema is refused. -/
def Refused (text : String) : Prop := ∃ reason, ofJsonText text = .error (.serialization reason)

section Refusal

variable {text : String}

theorem refused_of_ne_ok (h : ∀ schema, ofJsonText text ≠ .ok schema) : Refused text := by
  cases hread : ofJsonText text with
  | ok schema => exact absurd hread (h schema)
  | error e =>
    rw [ofJsonText] at hread
    cases hrun : Reader.run ofJsonReader text with
    | ok schema =>
      rw [hrun] at hread
      cases hread
    | error fault =>
      rw [hrun] at hread
      cases hread
      exact ⟨_, by rw [ofJsonText, hrun]; rfl⟩

theorem exists_elements {schema : Schema} (h : ofJsonText text = .ok schema) :
    ∃ elements, ArrayText text.toList elements ∧
      List.Forall₂ ElementOf elements schema.specs := by
  obtain ⟨rest, hread, blankAfter⟩ := yields_of_run (eq_ok_of_mapError h)
  obtain ⟨gap, body, blank, htext, elements, isList, paired⟩ := accepts_schema hread
  exact ⟨elements, ⟨gap, body, rest, blank, blankAfter, htext, isList⟩, paired⟩

end Refusal

/-! ### A text whose blocks stand beside other types -/

namespace Marked

def block : String := "\x7b\"dtype\": \"float32\", \"shape\": [2]\x7d"

def untyped : String := "\x7b\"tensor-spec\": " ++ block ++ "\x7d"

def typed : String := "\x7b\"type\": \"double\", \"tensor-spec\": " ++ block ++ "\x7d"

def listed : String := "[\"decimal\", null, " ++ block ++ "]"

def text : String := "[" ++ untyped ++ ", " ++ typed ++ ", " ++ listed ++ "]"

def tensor : TensorSpec := ⟨.float32, [2], none, by decide⟩

def schema : Schema :=
  ⟨[.tensor tensor, .tensor tensor, .tensor tensor], .inr (by decide), .inl (by decide)⟩

theorem ofJsonText_text : ofJsonText text = .ok schema := eq_ok_of_toOption (by decide +kernel)

theorem valueText_block : ValueText block.toList := by
  have two : Json.Grammar.Digits ['2'] := ⟨by decide, List.all_eq_true.1 rfl⟩
  have shape : ValueText "[2]".toList :=
    .list Gap.nil (.number (.inl rfl) (.digits two (by decide)) .none .none) (.endList Gap.nil)
  obtain ⟨text, object, characters⟩ : ∃ text,
      ObjectText text [("dtype", Foreign.quote "float32"), ("shape", "[2]".toList)] ∧
        block.toList = text :=
    ⟨_, .cons Gap.nil (.of_all (by decide)) Gap.nil Gap.single
      (.next Gap.nil Gap.single (.of_all (by decide)) Gap.nil Gap.single (.done Gap.nil)),
      by decide⟩
  rw [characters]
  refine valueText_of_objectText object (List.forall_mem_cons.2 ⟨?_, ?_⟩)
  · exact valueText_of_stringText (Foreign.stringText_quote (by decide))
  · exact List.forall_mem_singleton.2 shape

theorem element_untyped : Element untyped.toList [] [block.toList] := by
  obtain ⟨text, object, characters⟩ : ∃ text,
      ObjectText text [("tensor-spec", block.toList)] ∧ untyped.toList = text :=
    ⟨_, .cons Gap.nil (.of_all (by decide)) Gap.nil Gap.single (.done Gap.nil), by decide⟩
  rw [characters]
  exact .object ⟨object, List.forall_mem_singleton.2 valueText_block⟩

theorem element_typed : Element typed.toList [Foreign.quote "double"] [block.toList] := by
  obtain ⟨text, object, characters⟩ : ∃ text,
      ObjectText text [("type", Foreign.quote "double"), ("tensor-spec", block.toList)] ∧
        typed.toList = text :=
    ⟨_, .cons Gap.nil (.of_all (by decide)) Gap.nil Gap.single
      (.next Gap.nil Gap.single (.of_all (by decide)) Gap.nil Gap.single (.done Gap.nil)),
      by decide⟩
  rw [characters]
  refine .object ⟨object, List.forall_mem_cons.2 ⟨?_, ?_⟩⟩
  · exact valueText_of_stringText (Foreign.stringText_quote (by decide))
  · exact List.forall_mem_singleton.2 valueText_block

theorem valueItems_listed :
    ValueItems listed.toList [Foreign.quote "decimal", nullText, block.toList] := by
  have decimal : ValueText (Foreign.quote "decimal") :=
    valueText_of_stringText (Foreign.stringText_quote (by decide))
  obtain ⟨text, list, characters⟩ : ∃ text,
      ValueItems text [Foreign.quote "decimal", nullText, block.toList] ∧ listed.toList = text :=
    ⟨_, .cons Gap.nil ⟨decimal, rfl⟩ (.next Gap.nil Gap.single ⟨.null, rfl⟩
      (.next Gap.nil Gap.single ⟨valueText_block, rfl⟩ (.done Gap.nil))), by decide⟩
  rw [characters]
  exact list

theorem arrayText_text :
    ArrayText text.toList [untyped.toList, typed.toList, listed.toList] := by
  obtain ⟨inside, list, characters⟩ : ∃ inside,
      ValueItems inside [untyped.toList, typed.toList, listed.toList] ∧ text.toList = inside :=
    ⟨_, .cons Gap.nil ⟨element_untyped.valueText, rfl⟩
      (.next Gap.nil Gap.single ⟨element_typed.valueText, rfl⟩
        (.next Gap.nil Gap.single ⟨valueItems_listed.valueText, rfl⟩ (.done Gap.nil))),
      by simp [text]⟩
  rw [characters]
  exact ⟨[], inside, [], Gap.nil, Gap.nil, by simp, list⟩

end Marked

/-! ### A text without a type -/

namespace Untyped

def element : String := "\x7b\"name\": \"x\"\x7d"

def text : String := "[" ++ element ++ "]"

theorem element_element : Element element.toList [] [] := by
  obtain ⟨text, object, characters⟩ : ∃ text,
      ObjectText text [("name", Foreign.quote "x")] ∧ element.toList = text :=
    ⟨_, .cons Gap.nil (.of_all (by decide)) Gap.nil Gap.single (.done Gap.nil), by decide⟩
  have isName : ValueText (Foreign.quote "x") :=
    valueText_of_stringText (Foreign.stringText_quote (by decide))
  rw [characters]
  exact .object ⟨object, List.forall_mem_singleton.2 isName⟩

theorem malformed_element : Malformed element.toList :=
  .typeless element_element ⟨nofun, nofun⟩

theorem arrayText_text : ArrayText text.toList [element.toList] := by
  obtain ⟨inside, list, characters⟩ : ∃ inside,
      ValueItems inside [element.toList] ∧ text.toList = inside :=
    ⟨_, .cons Gap.nil ⟨element_element.valueText, rfl⟩ (.done Gap.nil), by simp [text]⟩
  rw [characters]
  exact ⟨[], inside, [], Gap.nil, Gap.nil, by simp, list⟩

end Untyped

/-- What is read as a schema is the list of its elements, each with the block of a tensor or the
type of a column; a text that is no list is refused, and so is one with a malformed element. -/
theorem ofJsonText_elements (text : String) :
    (∀ schema, ofJsonText text = .ok schema →
      ∃ elements, ArrayText text.toList elements ∧
        List.Forall₂ ElementOf elements schema.specs) ∧
    ((∀ elements, ¬ ArrayText text.toList elements) → Refused text) ∧
    ∀ elements, ArrayText text.toList elements → (∃ element ∈ elements, Malformed element) →
      Refused text := by
  refine ⟨fun schema => exists_elements, fun noList => ?_, ?_⟩
  · refine refused_of_ne_ok fun schema h => ?_
    obtain ⟨elements, isArray, -⟩ := exists_elements h
    exact noList elements isArray
  · rintro elements isArray ⟨element, hmem, malformed⟩
    refine refused_of_ne_ok fun schema h => ?_
    obtain ⟨elements', isArray', paired⟩ := exists_elements h
    obtain rfl := isArray.eq isArray'
    have wellFormed : List.Forall₂ (fun text spec => ¬ Malformed text ∧ ElementOf text spec)
        elements schema.specs :=
      paired.imp fun _ _ elementOf =>
        ⟨fun malformed => malformed.not_elementOf elementOf, elementOf⟩
    exact ((List.forall₂_and_left _ _).1 wellFormed).1 element hmem malformed

theorem ofJsonText_elements_texts :
    (∃ elements, ArrayText Marked.text.toList elements ∧
      List.Forall₂ ElementOf elements Marked.schema.specs) ∧
    Refused "null" ∧ Refused Untyped.text := by
  refine ⟨(ofJsonText_elements _).1 _ Marked.ofJsonText_text, ?_, ?_⟩
  · refine (ofJsonText_elements "null").2.1 fun elements isArray => ?_
    exact absurd isArray.bracket_mem (by decide)
  · exact (ofJsonText_elements _).2.2 _ Untyped.arrayText_text
      ⟨_, List.mem_singleton_self _, Untyped.malformed_element⟩

/-- An element without a type, one of a column's type and one that is a list of an unknown type are
all read as tensors. -/
theorem tensors_of_blocks :
    ofJsonText Marked.text = .ok Marked.schema ∧
    ArrayText Marked.text.toList
      [Marked.untyped.toList, Marked.typed.toList, Marked.listed.toList] ∧
    Element Marked.untyped.toList [] [Marked.block.toList] ∧
    Element Marked.typed.toList [Foreign.quote "double"] [Marked.block.toList] ∧
    ValueItems Marked.listed.toList [Foreign.quote "decimal", nullText, Marked.block.toList] :=
  ⟨Marked.ofJsonText_text, Marked.arrayText_text, Marked.element_untyped, Marked.element_typed,
    Marked.valueItems_listed⟩

end Schema

end ModelShelf
