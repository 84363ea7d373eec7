import ModelShelf.Dictionary
import ModelShelf.Schema.Basic
import ModelShelf.Time.Instant

/-!
Samples of a model's data in arrays: tensors, which have one type of elements each, and named
tensors in the order of first insertion.
-/

namespace ModelShelf

open Number

/-- The integers of a fixed width. -/
abbrev IntegerType.Value : IntegerType → Type
  | .int8 => Int8
  | .int16 => Int16
  | .int32 => Int32
  | .int64 => Int64
  | .uint8 => UInt8
  | .uint16 => UInt16
  | .uint32 => UInt32
  | .uint64 => UInt64

instance : (type : IntegerType) → DecidableEq type.Value
  | .int8 => inferInstanceAs (DecidableEq Int8)
  | .int16 => inferInstanceAs (DecidableEq Int16)
  | .int32 => inferInstanceAs (DecidableEq Int32)
  | .int64 => inferInstanceAs (DecidableEq Int64)
  | .uint8 => inferInstanceAs (DecidableEq UInt8)
  | .uint16 => inferInstanceAs (DecidableEq UInt16)
  | .uint32 => inferInstanceAs (DecidableEq UInt32)
  | .uint64 => inferInstanceAs (DecidableEq UInt64)

instance : (type : IntegerType) → Repr type.Value
  | .int8 => inferInstanceAs (Repr Int8)
  | .int16 => inferInstanceAs (Repr Int16)
  | .int32 => inferInstanceAs (Repr Int32)
  | .int64 => inferInstanceAs (Repr Int64)
  | .uint8 => inferInstanceAs (Repr UInt8)
  | .uint16 => inferInstanceAs (Repr UInt16)
  | .uint32 => inferInstanceAs (Repr UInt32)
  | .uint64 => inferInstanceAs (Repr UInt64)

/-- The elements of an array. -/
abbrev ArrayType.Value : ArrayType → Type
  | .bool => Bool
  | .integer type => type.Value
  | .float32 => Binary32
  | .float64 => Binary64
  | .text => String
  | .bytes => List UInt8
  | .instant => Time.Instant

/-- The number of places in an array with the given dimensions. -/
def placeCount (shape : List Nat) : Nat := shape.foldr (· * ·) 1

/-- An array of elements of one type: its dimensions, and the element at each of its places, which
are counted row by row. Elements that are repeated need not be stored more than once. -/
structure Tensor where
  type : ArrayType
  shape : List Nat
  elementAt : Fin (placeCount shape) → type.Value

/-- The element type that is recorded for a tensor. -/
def Tensor.element (tensor : Tensor) : ElementType := tensor.type.element

/-- Tensors by name, in the order in which the names were first inserted. -/
structure NamedTensors where
  entries : List (String × Tensor)
  unique : (entries.map Prod.fst).Nodup

namespace NamedTensors

def empty : NamedTensors := ⟨[], by simp⟩

/-- Replaces the tensor of a name where it stands, or adds it at the end. -/
def put (name : String) (tensor : Tensor) : List (String × Tensor) → List (String × Tensor)
  | [] => [(name, tensor)]
  | (n, t) :: rest =>
    if n = name then (n, tensor) :: rest else (n, t) :: put name tensor rest

theorem map_fst_put (name : String) (tensor : Tensor) (entries : List (String × Tensor)) :
    (put name tensor entries).map Prod.fst =
      if name ∈ entries.map Prod.fst then entries.map Prod.fst
      else entries.map Prod.fst ++ [name] := by
  induction entries with
  | nil => simp [put]
  | cons e rest ih =>
    obtain ⟨n, t⟩ := e
    by_cases h : n = name
    · simp [put, h]
    · simp only [put, h, if_false, List.map_cons, ih, List.mem_cons]
      have h' : ¬name = n := fun e => h e.symm
      by_cases hm : name ∈ rest.map Prod.fst <;> simp [hm, h']

theorem nodup_put {name : String} {tensor : Tensor} {entries : List (String × Tensor)}
    (h : (entries.map Prod.fst).Nodup) : ((put name tensor entries).map Prod.fst).Nodup := by
  rw [map_fst_put]
  split
  · exact h
  · rename_i hm
    refine List.nodup_append.2 ⟨h, by simp, fun a ha b hb e => hm ?_⟩
    rw [List.mem_singleton] at hb
    subst hb e
    exact ha

/-- Stores a tensor under a name. A name that is there already keeps its place. -/
def insert (tensors : NamedTensors) (name : String) (tensor : Tensor) : NamedTensors :=
  ⟨put name tensor tensors.entries, nodup_put tensors.unique⟩

def get? (tensors : NamedTensors) (name : String) : Option Tensor := tensors.entries.lookup name

theorem lookup_put {name other : String} {tensor : Tensor} {entries : List (String × Tensor)} :
    (put name tensor entries).lookup other =
      if other = name then some tensor else entries.lookup other := by
  induction entries with
  | nil => simp [put, lookup_cons_eq_ite]
  | cons first rest ih =>
    obtain ⟨n, t⟩ := first
    simp only [put]
    split <;> grind [lookup_cons_eq_ite]

/-- A stored tensor is found under its name, and what other names have is as before. -/
theorem get?_insert (tensors : NamedTensors) (name other : String) (tensor : Tensor) :
    (tensors.insert name tensor).get? other =
      if other = name then some tensor else tensors.get? other :=
  lookup_put

def length (tensors : NamedTensors) : Nat := tensors.entries.length

def ofList (entries : List (String × Tensor)) : NamedTensors :=
  entries.foldl (fun tensors (name, tensor) => tensors.insert name tensor) empty

end NamedTensors

end ModelShelf
