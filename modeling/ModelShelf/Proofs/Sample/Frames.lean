import ModelShelf.Proofs.Schema.Uniformity
import ModelShelf.Proofs.Sample.ObjectColumns

/-!
Frames, built and inferred column by column. Columns make a frame exactly when they are equally
long, and the frame keeps them as they are. Its schema has a named column for each of them, of the
type that the column has as a series; without a type, the first column that has none is named in
front of the fault that it has as a series.
-/

namespace ModelShelf

/-! ### Faults of columns -/

theorem ColumnType.join_eq_error {known next : ColumnType} {e : Error}
    (h : known.join next = .error e) : ∃ text, e = .inference text := by
  rw [ColumnType.join] at h
  split at h
  · cases h
  · split at h
    · cases h
    · cases h
      exact ⟨_, rfl⟩

theorem joinCell_eq_error {known : Option ColumnType} {cell : Cell} {e : Error}
    (h : joinCell known cell = .error e) : ∃ text, e = .inference text := by
  cases hkind : cell.kind? with
  | none => cases (joinCell_null hkind).symm.trans h
  | some kind =>
    cases known with
    | none => cases (joinCell_first hkind).symm.trans h
    | some type =>
      rw [joinCell_next hkind, map_eq_error] at h
      exact ColumnType.join_eq_error h

theorem foldlM_joinCell_eq_error {known : Option ColumnType} {cells : List Cell} {e : Error}
    (h : cells.foldlM joinCell known = .error e) : ∃ text, e = .inference text := by
  induction cells generalizing known with
  | nil => cases h
  | cons cell cells ih =>
    rw [List.foldlM_cons] at h
    rcases bind_eq_error.1 h with hjoin | ⟨between, -, hrest⟩
    · exact joinCell_eq_error hjoin
    · exact ih hrest

theorem objectType_eq_error {cells : List Cell} {e : Error} (h : objectType cells = .error e) :
    ∃ text, e = .inference text := by
  rw [objectType] at h
  rcases bind_eq_error.1 h with hrun | ⟨known, -, hknown⟩
  · exact foldlM_joinCell_eq_error hrun
  · cases known with
    | none =>
      cases hknown
      exact ⟨_, rfl⟩
    | some type => cases hknown

namespace ColumnValues

variable {values : ColumnValues}

theorem element_eq_object (h : values.element = .object) : ∃ cells, values = .object cells := by
  cases values with
  | object cells => exact ⟨cells, rfl⟩
  | integer type _ => cases type <;> cases h
  | _ => cases h

/-- Only columns of objects are looked at cell by cell. -/
theorem type_of_element (h : values.element ≠ .object) :
    values.type = ColumnType.ofElement values.element := by
  cases values with
  | object cells => exact absurd rfl h
  | _ => rfl

/-- A column without a type has a fault of inference. -/
theorem type_eq_error {e : Error} (h : values.type = .error e) : ∃ text, e = .inference text := by
  by_cases hobject : values.element = .object
  · obtain ⟨cells, rfl⟩ := element_eq_object hobject
    exact objectType_eq_error h
  · rw [type_of_element hobject] at h
    cases helement : values.element <;> rw [helement] at h <;> cases h <;> exact ⟨_, rfl⟩

end ColumnValues

/-! ### Series -/

namespace Series

variable {series : Series} {schema : Schema}

theorem schema_eq_ok : series.schema = .ok schema ↔
    ∃ type, series.values.type = .ok type ∧ schema.specs = [.column ⟨type, none⟩] := by
  rw [Series.schema, bind_eq_ok]
  simp only [Schema.schemaOf_eq_ok]

theorem schema_eq_error {e : Error} :
    series.schema = .error e ↔ series.values.type = .error e := by
  rw [Series.schema, bind_eq_error]
  constructor
  · rintro (h | ⟨type, -, h⟩)
    · exact h
    · obtain ⟨schema, hschema⟩ := Schema.exists_schemaOf_singleton (.column ⟨type, none⟩)
      cases hschema.symm.trans h
  · exact .inl

/-- Inference gives a series the type, in a schema of one column without a name. -/
def HasType (series : Series) (type : ColumnType) : Prop :=
  ∃ schema, series.schema = .ok schema ∧ schema.specs = [.column ⟨type, none⟩]

theorem hasType_iff {type : ColumnType} : series.HasType type ↔ series.values.type = .ok type := by
  constructor
  · rintro ⟨schema, h, hspecs⟩
    obtain ⟨found, hfound, hsame⟩ := schema_eq_ok.1 h
    cases hspecs.symm.trans hsame
    exact hfound
  · intro h
    obtain ⟨schema, hschema⟩ := Schema.exists_schemaOf_singleton (.column ⟨type, none⟩)
    have hspecs := Schema.schemaOf_eq_ok.1 hschema
    exact ⟨schema, schema_eq_ok.2 ⟨type, h, hspecs⟩, hspecs⟩

theorem exists_schema_iff :
    (∃ schema, series.schema = .ok schema) ↔ ∃ type, series.values.type = .ok type := by
  constructor
  · rintro ⟨schema, h⟩
    obtain ⟨type, htype, -⟩ := schema_eq_ok.1 h
    exact ⟨type, htype⟩
  · rintro ⟨type, htype⟩
    obtain ⟨schema, hschema, -⟩ := hasType_iff.2 htype
    exact ⟨schema, hschema⟩

end Series

/-! ### Columns of frames -/

theorem sameLength_iff {columns : Columns} :
    SameLength columns ↔ ∀ a ∈ columns, ∀ b ∈ columns, a.2.length = b.2.length := by
  cases columns with
  | nil => exact iff_of_true nofun nofun
  | cons first rest =>
    have head : SameLength (first :: rest) ↔ ∀ c ∈ first :: rest, c.2.length = first.2.length :=
      Iff.rfl
    rw [head]
    constructor
    · intro h a ha b hb
      exact (h a ha).trans (h b hb).symm
    · intro h c hc
      exact h c hc first List.mem_cons_self

theorem SameLength.front {front back : Columns} (h : SameLength (front ++ back)) :
    SameLength front :=
  sameLength_iff.2 fun a ha b hb =>
    sameLength_iff.1 h a (List.mem_append_left back ha) b (List.mem_append_left back hb)

namespace Frame

variable {frame result : Frame} {column : String × ColumnValues} {columns : Columns}
  {schema : Schema} {e : Error}

theorem eq_iff_columns : frame = result ↔ result.columns = frame.columns := by
  cases frame
  cases result
  rw [mk.injEq, eq_comm]

/-- A column goes behind the others if that makes a frame. -/
theorem add_eq_ok {name : String} {values : ColumnValues} :
    frame.add name values = .ok result ↔ result.columns = frame.columns ++ [(name, values)] := by
  rw [add]
  split
  · next accepted => rw [Except.ok.injEq, eq_iff_columns]
  · next refused =>
    refine iff_of_false nofun fun hcolumns => refused ?_
    have even := sameLength_iff.1 result.even
    rw [hcolumns] at even
    cases hframe : frame.columns with
    | nil => exact .inl hframe
    | cons first rest =>
      have hrows : frame.rowCount = first.2.length := by simp [rowCount, hframe]
      refine .inr (hrows ▸ even (name, values) ?_ first ?_) <;> simp [hframe]

/-- Adds a column after the others. -/
def addColumn (frame : Frame) (column : String × ColumnValues) : Result Frame :=
  frame.add column.1 column.2

theorem ofColumns_eq (columns : Columns) : ofColumns columns = columns.foldlM addColumn empty := rfl

theorem foldlM_addColumn_eq_ok :
    columns.foldlM addColumn frame = .ok result ↔ result.columns = frame.columns ++ columns := by
  induction columns generalizing frame with
  | nil =>
    rw [List.append_nil, ← eq_iff_columns]
    exact ⟨Except.ok.inj, congrArg Except.ok⟩
  | cons column columns ih =>
    rw [List.foldlM_cons, bind_eq_ok]
    simp only [addColumn, add_eq_ok, ih]
    constructor
    · rintro ⟨between, hbetween, hresult⟩
      rw [hresult, hbetween, List.append_assoc, List.singleton_append]
    · intro hresult
      have split : result.columns = (frame.columns ++ [column]) ++ columns := by
        rw [hresult, List.append_assoc, List.singleton_append]
      have even : SameLength (frame.columns ++ [column]) := (split ▸ result.even).front
      exact ⟨⟨frame.columns ++ [column], even⟩, rfl, split⟩

/-- Columns make a frame as they are, or no frame. -/
theorem ofColumns_eq_ok : ofColumns columns = .ok frame ↔ frame.columns = columns := by
  rw [ofColumns_eq, foldlM_addColumn_eq_ok]
  exact Iff.rfl

theorem exists_ofColumns_iff : (∃ frame, ofColumns columns = .ok frame) ↔ SameLength columns := by
  simp only [ofColumns_eq_ok]
  constructor
  · rintro ⟨frame, rfl⟩
    exact frame.even
  · intro even
    exact ⟨⟨columns, even⟩, rfl⟩

/-! ### Schemas of frames -/

/-- The spec of a column under its name. -/
def columnSpec (column : String × ColumnValues) : Result Spec := do
  let type ← column.2.type.mapError (Error.inColumn column.1)
  return .column ⟨type, some column.1⟩

theorem schema_eq (frame : Frame) :
    frame.schema = frame.columns.mapM columnSpec >>= schemaOf := rfl

theorem columnSpec_eq_ok {spec : Spec} : columnSpec column = .ok spec ↔
    ∃ type, column.2.type = .ok type ∧ spec = .column ⟨type, some column.1⟩ := by
  rw [columnSpec, bind_pure_comp, map_eq_ok]
  simp only [mapError_eq_ok]

theorem columnSpec_eq_error : columnSpec column = .error e ↔ ∃ text,
    column.2.type = .error (.inference text) ∧
      e = .inference ("column '" ++ column.1 ++ "': " ++ text) := by
  rw [columnSpec, bind_pure_comp, map_eq_error, mapError_eq_error]
  constructor
  · rintro ⟨fault, hfault, rfl⟩
    obtain ⟨text, rfl⟩ := ColumnValues.type_eq_error hfault
    exact ⟨text, hfault, rfl⟩
  · rintro ⟨text, hfault, rfl⟩
    exact ⟨_, hfault, rfl⟩

theorem named_columnSpec (column : String × ColumnValues) (spec : Spec)
    (h : columnSpec column = .ok spec) : spec.isNamed = true ∧ spec.isTensor = false := by
  obtain ⟨type, -, rfl⟩ := columnSpec_eq_ok.1 h
  exact ⟨rfl, rfl⟩

/-- The series that a column is on its own. -/
def columnSeries (column : String × ColumnValues) : Series := ⟨some column.1, column.2⟩

/-- Inference of columns together is that of each of them as a series, under its name: all have
types, or the fault is that of the first one without a type, with its name in front. -/
structure ByColumns (columns : Columns) (result : Result Schema) : Prop where
  succeeds : (∃ schema, result = .ok schema) ↔
    ∀ column ∈ columns, ∃ schema, (columnSeries column).schema = .ok schema
  specs : ∀ schema, result = .ok schema ↔ List.Forall₂
    (fun column spec => ∃ type, (columnSeries column).HasType type ∧
      spec = .column ⟨type, some column.1⟩) columns schema.specs
  fault : ∀ e, result = .error e ↔ ∃ before column after text,
    columns = before ++ column :: after ∧
    (∀ earlier ∈ before, ∃ schema, (columnSeries earlier).schema = .ok schema) ∧
    (columnSeries column).schema = .error (.inference text) ∧
    e = .inference ("column '" ++ column.1 ++ "': " ++ text)

theorem exists_spec_iff : (∃ spec, columnSpec column = .ok spec) ↔
    ∃ schema, (columnSeries column).schema = .ok schema := by
  simp only [columnSpec_eq_ok, Series.exists_schema_iff, columnSeries]
  constructor
  · rintro ⟨-, type, h, -⟩
    exact ⟨type, h⟩
  · rintro ⟨type, h⟩
    exact ⟨_, type, h, rfl⟩

theorem byColumns (frame : Frame) : ByColumns frame.columns frame.schema where
  succeeds := by
    rw [schema_eq, Schema.exists_ofItems_iff named_columnSpec]
    simp only [exists_spec_iff]
  specs schema := by
    rw [schema_eq, Schema.ofItems_eq_ok]
    simp only [columnSpec_eq_ok, Series.hasType_iff, columnSeries]
  fault e := by
    rw [schema_eq, Schema.ofItems_eq_error named_columnSpec, mapM_eq_error]
    simp only [exists_spec_iff, columnSpec_eq_error, Series.schema_eq_error, columnSeries,
      exists_and_left]

section ToFrame

variable (series : Series) (name : String)

theorem toFrame_schema_eq_ok : (series.toFrame name).schema = .ok schema ↔
    ∃ type, series.HasType type ∧ schema.specs = [.column ⟨type, some name⟩] := by
  have columns : (series.toFrame name).columns = [(name, series.values)] := rfl
  rw [(byColumns _).specs, columns, List.forall₂_cons_left_iff]
  simp only [List.forall₂_nil_left_iff, Series.hasType_iff, columnSeries]
  constructor
  · rintro ⟨_, _, ⟨type, htype, rfl⟩, rfl, hspecs⟩
    exact ⟨type, htype, hspecs⟩
  · rintro ⟨type, htype, hspecs⟩
    exact ⟨_, [], ⟨type, htype, rfl⟩, rfl, hspecs⟩

theorem toFrame_schema_eq_error : (series.toFrame name).schema = .error e ↔
    ∃ text, series.schema = .error (.inference text) ∧
      e = .inference ("column '" ++ name ++ "': " ++ text) := by
  rw [(byColumns _).fault]
  simp only [Series.schema_eq_error]
  constructor
  · rintro ⟨before, column, after, text, hsplit, -, hfault, rfl⟩
    have only : before = [] ∧ column :: after = [(name, series.values)] := by
      rcases List.append_eq_singleton_iff.1 hsplit.symm with h | ⟨-, h⟩
      · exact h
      · cases h
    cases only.2
    exact ⟨text, hfault, rfl⟩
  · rintro ⟨text, hfault, rfl⟩
    exact ⟨[], (name, series.values), [], text, rfl, nofun, hfault, rfl⟩

end ToFrame

/-- Columns make a frame exactly when they are equally long, and its schema is inferred column by
column; so the frame of one series has the schema of the series, under the name of its column. -/
theorem schema_by_columns (columns : Columns) :
    ((∃ frame, ofColumns columns = .ok frame) ↔
      ∀ a ∈ columns, ∀ b ∈ columns, a.2.length = b.2.length) ∧
    (∀ frame, ofColumns columns = .ok frame → frame.columns = columns ∧
      ByColumns columns frame.schema) ∧
    ∀ (series : Series) (name : String),
      (∀ schema, (series.toFrame name).schema = .ok schema ↔
        ∃ type, series.HasType type ∧ schema.specs = [.column ⟨type, some name⟩]) ∧
      ∀ e, (series.toFrame name).schema = .error e ↔
        ∃ text, series.schema = .error (.inference text) ∧
          e = .inference ("column '" ++ name ++ "': " ++ text) := by
  refine ⟨?builds, ?inferred, ?single⟩
  case builds => rw [exists_ofColumns_iff, sameLength_iff]
  case inferred =>
    intro frame h
    obtain rfl := ofColumns_eq_ok.1 h
    exact ⟨rfl, frame.byColumns⟩
  case single =>
    intro series name
    exact ⟨fun schema => toFrame_schema_eq_ok series name,
      fun e => toFrame_schema_eq_error series name⟩

/-- Two columns of one name have no type, and one before them has. -/
def clashingColumns : Columns :=
  [("", .float32 [⟨0⟩]), ("x", .integer .uint64 [7]), ("x", .object [.null])]

theorem schema_by_columns_clashing :
    ∃ frame, ofColumns clashingColumns = .ok frame ∧ frame.columns = clashingColumns ∧
      frame.schema = .error (.inference
        "column 'x': Unsupported numpy data type 'uint64', kind 'u'") := by
  obtain ⟨builds, inferred, -⟩ := schema_by_columns clashingColumns
  obtain ⟨frame, hframe⟩ := builds.2 (by decide)
  obtain ⟨kept, byColumns⟩ := inferred frame hframe
  have typed : ∃ schema, (Series.mk (some "") (.float32 [⟨0⟩])).schema = .ok schema :=
    Series.exists_schema_iff.2 ⟨.float, rfl⟩
  have untyped : (Series.mk (some "x") (.integer .uint64 [7])).schema =
      .error (.inference "Unsupported numpy data type 'uint64', kind 'u'") :=
    Series.schema_eq_error.2 rfl
  refine ⟨frame, hframe, kept, (byColumns.fault _).2 ?_⟩
  exact ⟨[("", .float32 [⟨0⟩])], ("x", .integer .uint64 [7]), [("x", .object [.null])], _, rfl,
    List.forall_mem_singleton.2 typed, untyped, by decide⟩

end Frame

end ModelShelf
