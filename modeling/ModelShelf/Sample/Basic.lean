import ModelShelf.Sample.Tensor

/-!
Samples of a model's data in columns: columns of values, alone or as equally long columns of a
frame.
-/

namespace ModelShelf

open Number

/-- One cell of a column whose values may be of different kinds. -/
inductive Cell where
  | null
  | bool (value : Bool)
  | int (value : Int64)
  | float (value : Binary64)
  | text (value : String)
  | bytes (value : List UInt8)
deriving DecidableEq, Repr

/-- The values of a column, kept with their type. -/
inductive ColumnValues where
  | bool (values : List Bool)
  | integer (type : IntegerType) (values : List type.Value)
  | float32 (values : List Binary32)
  | float64 (values : List Binary64)
  | text (values : List String)
  | binary (values : List (List UInt8))
  /-- Ticks since the first instant of 1970. -/
  | timestamp (unit : TimeUnit) (ticks : List Int64)
  | date (values : List Time.Date)
  /-- Values of any kind. -/
  | object (cells : List Cell)
deriving DecidableEq, Repr

namespace ColumnValues

def element : ColumnValues → ElementType
  | .bool _ => .bool
  | .integer type _ => type.element
  | .float32 _ => .float32
  | .float64 _ => .float64
  | .text _ => .str
  | .binary _ => .bytes
  | .timestamp unit _ => .datetime unit
  | .date _ => .datetime .day
  | .object _ => .object

def length : ColumnValues → Nat
  | .bool v => v.length
  | .integer _ v => v.length
  | .float32 v => v.length
  | .float64 v => v.length
  | .text v => v.length
  | .binary v => v.length
  | .timestamp _ v => v.length
  | .date v => v.length
  | .object v => v.length

def isEmpty (values : ColumnValues) : Bool := values.length == 0

/-- A column of points in time, each rounded down to its microsecond. -/
def ofInstants (instants : List Time.Instant) : ColumnValues :=
  .timestamp .microsecond (instants.map fun instant => .ofInt instant.microseconds)

end ColumnValues

/-- One column, with or without a name. -/
structure Series where
  name : Option String
  values : ColumnValues
deriving DecidableEq, Repr

/-- Columns in order, each with its name. -/
abbrev Columns := List (String × ColumnValues)

/-- All columns have the same length. -/
def SameLength (columns : Columns) : Prop :=
  ∀ c ∈ columns, c.2.length = (columns.head?.map fun c => c.2.length).getD 0

instance (columns : Columns) : Decidable (SameLength columns) := by
  unfold SameLength; infer_instance

/-- Named columns of one length. -/
structure Frame where
  columns : Columns
  even : SameLength columns
deriving DecidableEq, Repr

namespace Frame

def empty : Frame := ⟨[], by simp [SameLength]⟩

/-- The number of rows, zero if there is no column. -/
def rowCount (frame : Frame) : Nat := (frame.columns.head?.map fun c => c.2.length).getD 0

def columnNames (frame : Frame) : List String := frame.columns.map Prod.fst

/-- Whether a column of the given length may be added. -/
def Accepts (frame : Frame) (length : Nat) : Prop :=
  frame.columns = [] ∨ length = frame.rowCount

instance (frame : Frame) (length : Nat) : Decidable (frame.Accepts length) := by
  unfold Accepts; infer_instance

theorem sameLength_append {frame : Frame} {name : String} {values : ColumnValues}
    (h : frame.Accepts values.length) : SameLength (frame.columns ++ [(name, values)]) := by
  intro c hc
  rcases h with h | h
  · rw [h] at hc ⊢
    simp at hc
    simp [hc]
  · cases hcols : frame.columns with
    | nil =>
      rw [hcols] at hc
      simp at hc
      simp [hc]
    | cons first rest =>
      rw [List.mem_append, List.mem_singleton] at hc
      have hrow : frame.rowCount = first.2.length := by simp [rowCount, hcols]
      rcases hc with hc | hc
      · have := frame.even c hc
        simpa [hcols] using this
      · subst hc
        simpa [hrow] using h

/-- Adds a column after the others. -/
def add (frame : Frame) (name : String) (values : ColumnValues) : Result Frame :=
  if h : frame.Accepts values.length then
    .ok ⟨frame.columns ++ [(name, values)], sameLength_append h⟩
  else
    .error (.invalidParameter ("column '" ++ name ++ "' has " ++ toString values.length ++
      " rows, expected " ++ toString frame.rowCount))

def ofColumns (columns : Columns) : Result Frame :=
  columns.foldlM (fun frame (name, values) => frame.add name values) empty

end Frame

theorem sameLength_single (name : String) (values : ColumnValues) :
    SameLength [(name, values)] := by
  simp [SameLength]

/-- The frame whose only column is a series, under a name of its own. -/
def Series.toFrame (series : Series) (name : String) : Frame :=
  ⟨[(name, series.values)], sameLength_single name series.values⟩

end ModelShelf
