import Mathlib.Data.Set.Insert
import ModelShelf.Proofs.Results
import ModelShelf.Sample.Infer

/-!
Columns of objects. Their type is joined cell by cell, but what comes out depends only on the kinds
of values that occur among the cells: one kind, or integers and floating-point numbers together.
So neither the order of the cells matters, nor how often they are repeated, nor where cells without
a value stand between them.
-/

namespace ModelShelf

/-! ### Kinds of values -/

/-- The kinds of values that a cell may hold. -/
inductive CellKind where
  | bool
  | int
  | float
  | text
  | bytes
deriving DecidableEq, Repr

namespace CellKind

/-- The type of a column whose values are all of one kind. -/
def columnType : CellKind → ColumnType
  | .bool => .boolean
  | .int => .long
  | .float => .double
  | .text => .string
  | .bytes => .binary

/-- The kinds of numbers. -/
def numeric : Set CellKind := {.int, .float}

end CellKind

/-- The kind of a cell's value, absent for a cell without a value. -/
def Cell.kind? : Cell → Option CellKind
  | .null => none
  | .bool _ => some .bool
  | .int _ => some .int
  | .float _ => some .float
  | .text _ => some .text
  | .bytes _ => some .bytes

theorem Cell.kind?_eq_none {cell : Cell} : cell.kind? = none ↔ cell = .null := by
  cases cell <;> simp [Cell.kind?]

/-- The kinds of values that occur among cells. -/
def kindsOf (cells : List Cell) : Set CellKind := {kind | ∃ cell ∈ cells, cell.kind? = some kind}

/-- Kinds of values that one column may hold together: a single kind, or numbers. -/
def Coherent (kinds : Set CellKind) : Prop :=
  (∃ kind, kinds ⊆ {kind}) ∨ kinds ⊆ CellKind.numeric

/-- The type of a column in which just the given kinds of values occur. -/
inductive TypeOfKinds (kinds : Set CellKind) : ColumnType → Prop
  | uniform (kind : CellKind) (only : kinds = {kind}) : TypeOfKinds kinds kind.columnType
  | numbers (both : kinds = CellKind.numeric) : TypeOfKinds kinds .double

/-- The same values in any order, each any number of times, with any cells without a value between
them. -/
def SameValues (cells others : List Cell) : Prop :=
  ∀ cell, cell ≠ .null → (cell ∈ cells ↔ cell ∈ others)

section

variable {cell : Cell} {cells others : List Cell} {kind other : CellKind} {kinds : Set CellKind}
  {type next : ColumnType} {known found : Option ColumnType}

theorem kindsOf_nil : kindsOf [] = ∅ := by
  simp [kindsOf]

theorem kindsOf_cons_null (h : cell.kind? = none) : kindsOf (cell :: cells) = kindsOf cells := by
  simp [kindsOf, h]

theorem kindsOf_cons (h : cell.kind? = some kind) :
    kindsOf (cell :: cells) = insert kind (kindsOf cells) := by
  ext other
  simp [kindsOf, h, eq_comm]

theorem kindsOf_eq_of_sameValues (h : SameValues cells others) :
    kindsOf cells = kindsOf others := by
  ext kind
  refine exists_congr fun cell => and_congr_left fun hkind => h cell ?_
  rintro rfl
  cases hkind

theorem Coherent.subset {more : Set CellKind} (h : Coherent more) (hsub : kinds ⊆ more) :
    Coherent kinds := by
  rcases h with ⟨kind, h⟩ | h
  · exact .inl ⟨kind, hsub.trans h⟩
  · exact .inr (hsub.trans h)

/-- Two kinds that go together are the same, or both are kinds of numbers. -/
theorem Coherent.pair (h : Coherent kinds) (hkind : kind ∈ kinds) (hother : other ∈ kinds) :
    kind = other ∨ (kind ∈ CellKind.numeric ∧ other ∈ CellKind.numeric) := by
  rcases h with ⟨only, h⟩ | h
  · exact .inl ((h hkind).trans (h hother).symm)
  · exact .inr ⟨h hkind, h hother⟩

theorem numeric_ne_singleton (kind : CellKind) : CellKind.numeric ≠ {kind} := by
  intro h
  have int : CellKind.int ∈ ({kind} : Set CellKind) := h ▸ Set.mem_insert _ _
  have float : CellKind.float ∈ ({kind} : Set CellKind) := h ▸ Set.mem_insert_of_mem _ rfl
  cases (Set.mem_singleton_iff.1 int).trans (Set.mem_singleton_iff.1 float).symm

theorem exists_typeOfKinds_iff :
    (∃ type, TypeOfKinds kinds type) ↔ kinds ≠ ∅ ∧ Coherent kinds := by
  constructor
  · rintro ⟨_, ⟨kind, rfl⟩ | rfl⟩
    · exact ⟨Set.singleton_ne_empty kind, .inl ⟨kind, subset_rfl⟩⟩
    · exact ⟨(Set.insert_nonempty _ _).ne_empty, .inr subset_rfl⟩
  · rintro ⟨nonempty, ⟨kind, h⟩ | h⟩
    · exact ⟨_, .uniform kind ((Set.subset_singleton_iff_eq.1 h).resolve_left nonempty)⟩
    · rcases Set.subset_pair_iff_eq.1 h with h | h | h | h
      · exact absurd h nonempty
      · exact ⟨_, .uniform .int h⟩
      · exact ⟨_, .uniform .float h⟩
      · exact ⟨_, .numbers h⟩

/-- The kinds of values leave one type only. -/
theorem TypeOfKinds.unique (h : TypeOfKinds kinds type) (h' : TypeOfKinds kinds next) :
    type = next := by
  rcases h with ⟨kind, rfl⟩ | rfl <;> rcases h' with ⟨other, h'⟩ | h'
  · rw [Set.singleton_eq_singleton_iff.1 h']
  · exact absurd h'.symm (numeric_ne_singleton kind)
  · exact absurd h' (numeric_ne_singleton other)
  · rfl

/-! ### The joined type -/

/-- What is known of a column after cells with the given kinds of values: its type, once there is
one. -/
inductive Known (kinds : Set CellKind) : Option ColumnType → Prop
  | nothing (empty : kinds = ∅) : Known kinds none
  | typed {type : ColumnType} (h : TypeOfKinds kinds type) : Known kinds (some type)

theorem Known.coherent (h : Known kinds known) : Coherent kinds := by
  cases h with
  | nothing empty => exact .inr (empty ▸ Set.empty_subset _)
  | typed h => exact (exists_typeOfKinds_iff.1 ⟨_, h⟩).2

theorem Known.unique (h : Known kinds known) (h' : Known kinds found) : known = found := by
  have nonempty {type : ColumnType} (h : TypeOfKinds kinds type) : kinds ≠ ∅ :=
    (exists_typeOfKinds_iff.1 ⟨type, h⟩).1
  cases h with
  | nothing empty =>
    cases h' with
    | nothing => rfl
    | typed h' => exact absurd empty (nonempty h')
  | typed h =>
    cases h' with
    | nothing empty => exact absurd empty (nonempty h)
    | typed h' => rw [h.unique h']

theorem joinCell_null (h : cell.kind? = none) : joinCell known cell = .ok known := by
  obtain rfl := Cell.kind?_eq_none.1 h
  cases known <;> rfl

theorem joinCell_first (h : cell.kind? = some kind) :
    joinCell none cell = .ok (some kind.columnType) := by
  cases cell <;> cases h <;> rfl

theorem joinCell_next (h : cell.kind? = some kind) :
    joinCell (some type) cell = some <$> type.join kind.columnType := by
  cases cell <;> cases h <;> rfl

theorem joinCell_next_eq_ok (h : cell.kind? = some kind) : joinCell (some type) cell = .ok found ↔
    ∃ next, type.join kind.columnType = .ok next ∧ found = some next := by
  rw [joinCell_next h, map_eq_ok]

/-- Values of two kinds in one column: equal kinds keep their type, numbers are floating-point
numbers. -/
theorem join_columnType :
    kind.columnType.join other.columnType = .ok next ↔
      (kind = other ∧ next = kind.columnType) ∨
      (kind ≠ other ∧ kind ∈ CellKind.numeric ∧ other ∈ CellKind.numeric ∧ next = .double) := by
  cases kind <;> cases other <;>
    simp [CellKind.columnType, CellKind.numeric, ColumnType.join, ColumnType.isNumeric, eq_comm]

/-- A value of one more kind. -/
theorem TypeOfKinds.join (h : TypeOfKinds kinds type)
    (hjoin : type.join kind.columnType = .ok next) : TypeOfKinds (insert kind kinds) next := by
  rcases h with ⟨other, rfl⟩ | rfl
  · rcases join_columnType.1 hjoin with ⟨rfl, rfl⟩ | ⟨hne, hother, hkind, rfl⟩
    · exact .uniform other (Set.insert_eq_of_mem rfl)
    · refine .numbers ?_
      rcases hother with rfl | rfl <;> rcases hkind with rfl | rfl
      · exact absurd rfl hne
      · exact Set.pair_comm _ _
      · rfl
      · exact absurd rfl hne
  · have both : kind ∈ CellKind.numeric ∧ next = .double := by
      have hfloat : CellKind.float.columnType.join kind.columnType = .ok next := hjoin
      rcases join_columnType.1 hfloat with ⟨rfl, rfl⟩ | ⟨-, -, hkind, rfl⟩
      · exact ⟨.inr rfl, rfl⟩
      · exact ⟨hkind, rfl⟩
    obtain ⟨hkind, rfl⟩ := both
    exact .numbers (Set.insert_eq_of_mem hkind)

theorem TypeOfKinds.exists_join (h : TypeOfKinds kinds type)
    (coherent : Coherent (insert kind kinds)) :
    ∃ next, type.join kind.columnType = .ok next := by
  have pair {other : CellKind} (hother : other ∈ kinds) :
      other = kind ∨ (other ∈ CellKind.numeric ∧ kind ∈ CellKind.numeric) :=
    coherent.pair (Set.mem_insert_of_mem _ hother) (Set.mem_insert _ _)
  have joins {other : CellKind} (hother : other ∈ kinds) :
      ∃ next, other.columnType.join kind.columnType = .ok next := by
    by_cases hne : other = kind
    · exact ⟨_, join_columnType.2 (.inl ⟨hne, rfl⟩)⟩
    · obtain ⟨hnumber, hkind⟩ := (pair hother).resolve_left hne
      exact ⟨_, join_columnType.2 (.inr ⟨hne, hnumber, hkind, rfl⟩)⟩
  rcases h with ⟨other, rfl⟩ | rfl
  · exact joins rfl
  · have hfloat : CellKind.float ∈ CellKind.numeric := .inr rfl
    exact joins hfloat

/-- A cell with a value of one more kind. -/
theorem Known.join (h : Known kinds known) (hkind : cell.kind? = some kind)
    (hjoin : joinCell known cell = .ok found) : Known (insert kind kinds) found := by
  cases h with
  | nothing empty =>
    cases (joinCell_first hkind).symm.trans hjoin
    exact .typed (.uniform kind (by rw [empty, insert_empty_eq]))
  | typed h =>
    obtain ⟨next, hnext, rfl⟩ := (joinCell_next_eq_ok hkind).1 hjoin
    exact .typed (h.join hnext)

theorem Known.exists_join (h : Known kinds known) (hkind : cell.kind? = some kind)
    (coherent : Coherent (insert kind kinds)) : ∃ found, joinCell known cell = .ok found := by
  cases h with
  | nothing => exact ⟨_, joinCell_first hkind⟩
  | typed h =>
    obtain ⟨next, hnext⟩ := h.exists_join coherent
    exact ⟨_, (joinCell_next_eq_ok hkind).2 ⟨next, hnext, rfl⟩⟩

/-- Cells with values of more kinds, from the first to the last. -/
theorem Known.run (h : Known kinds known) (hrun : cells.foldlM joinCell known = .ok found) :
    Known (kinds ∪ kindsOf cells) found := by
  induction cells generalizing kinds known with
  | nil =>
    cases hrun
    rwa [kindsOf_nil, Set.union_empty]
  | cons cell cells ih =>
    rw [List.foldlM_cons] at hrun
    obtain ⟨between, hjoin, hrest⟩ := bind_eq_ok.1 hrun
    cases hkind : cell.kind? with
    | none =>
      cases (joinCell_null hkind).symm.trans hjoin
      rw [kindsOf_cons_null hkind]
      exact ih h hrest
    | some kind =>
      rw [kindsOf_cons hkind, Set.union_insert, ← Set.insert_union]
      exact ih (h.join hkind hjoin) hrest

/-- Where the kinds go together, no cell stops the run. -/
theorem Known.exists_run (h : Known kinds known) (coherent : Coherent (kinds ∪ kindsOf cells)) :
    ∃ found, cells.foldlM joinCell known = .ok found := by
  induction cells generalizing kinds known with
  | nil => exact ⟨known, rfl⟩
  | cons cell cells ih =>
    simp only [List.foldlM_cons, bind_eq_ok]
    cases hkind : cell.kind? with
    | none =>
      rw [kindsOf_cons_null hkind] at coherent
      obtain ⟨found, hrest⟩ := ih h coherent
      exact ⟨found, known, joinCell_null hkind, hrest⟩
    | some kind =>
      rw [kindsOf_cons hkind, Set.union_insert, ← Set.insert_union] at coherent
      obtain ⟨between, hjoin⟩ := h.exists_join hkind (coherent.subset Set.subset_union_left)
      obtain ⟨found, hrest⟩ := ih (h.join hkind hjoin) coherent
      exact ⟨found, between, hjoin, hrest⟩

theorem foldlM_joinCell :
    cells.foldlM joinCell none = .ok found ↔ Known (kindsOf cells) found := by
  have start : Known ∅ none := .nothing rfl
  constructor
  · intro h
    simpa using start.run h
  · intro h
    have coherent : Coherent (∅ ∪ kindsOf cells) := by simpa using h.coherent
    obtain ⟨other, hrun⟩ := start.exists_run coherent
    have reached : Known (kindsOf cells) other := by simpa using start.run hrun
    rw [hrun, reached.unique h]

/-- The type of a column of objects is that of the kinds of its values. -/
theorem objectType_eq_ok : objectType cells = .ok type ↔ TypeOfKinds (kindsOf cells) type := by
  rw [objectType, bind_eq_ok]
  constructor
  · rintro ⟨found, hrun, hfound⟩
    cases foldlM_joinCell.1 hrun with
    | nothing => cases hfound
    | typed h =>
      cases hfound
      exact h
  · intro h
    exact ⟨some type, foldlM_joinCell.2 (.typed h), rfl⟩

theorem toOption_objectType (h : kindsOf cells = kindsOf others) :
    (objectType cells).toOption = (objectType others).toOption :=
  toOption_congr fun type => by rw [objectType_eq_ok, objectType_eq_ok, h]

end

/-- A column of objects has a type exactly when values occur in it and they are all of one kind or
all numbers: the type of the one kind, or that of floating-point numbers. So the type is the same
for all columns of the same values. -/
theorem ColumnValues.type_object (cells : List Cell) :
    (∀ type, (object cells).type = .ok type ↔ TypeOfKinds (kindsOf cells) type) ∧
    ((∃ type, (object cells).type = .ok type) ↔ kindsOf cells ≠ ∅ ∧ Coherent (kindsOf cells)) ∧
    ∀ others, SameValues cells others →
      (object cells).type.toOption = (object others).type.toOption := by
  have typed (type : ColumnType) :
      (object cells).type = .ok type ↔ TypeOfKinds (kindsOf cells) type := objectType_eq_ok
  refine ⟨typed, ?succeeds, ?unordered⟩
  case succeeds =>
    rw [← exists_typeOfKinds_iff]
    exact exists_congr typed
  case unordered =>
    intro others same
    exact toOption_objectType (kindsOf_eq_of_sameValues same)

theorem ColumnValues.type_object_mixed :
    SameValues [.int 2, .null, .float ⟨0⟩, .int 2] [.float ⟨0⟩, .int 2] ∧
    (object [.int 2, .null, .float ⟨0⟩, .int 2]).type = .ok .double ∧
    (object [.int 2, .null, .float ⟨0⟩, .int 2]).type.toOption =
      (object [.float ⟨0⟩, .int 2]).type.toOption := by
  have same : SameValues [.int 2, .null, .float ⟨0⟩, .int 2] [.float ⟨0⟩, .int 2] := by
    intro cell hcell
    grind
  have both : kindsOf [.int 2, .null, .float ⟨0⟩, .int 2] = CellKind.numeric := by
    ext kind
    cases kind <;> simp [kindsOf, Cell.kind?, CellKind.numeric]
  obtain ⟨typed, -, unordered⟩ := type_object [.int 2, .null, .float ⟨0⟩, .int 2]
  exact ⟨same, (typed .double).2 (.numbers both), unordered _ same⟩

end ModelShelf
