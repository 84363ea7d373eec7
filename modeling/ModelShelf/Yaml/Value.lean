import ModelShelf.Number.Binary64
import ModelShelf.Number.IntegerRange

/-!
Values of YAML. Integers are those of 64 bits with or without a sign; a mapping keeps its entries
in the order of insertion; a tagged value carries a tag without its leading mark.
-/

namespace ModelShelf.Yaml

open Number

/-- A value, whatever way it is written. -/
inductive Value where
  | null
  | bool (value : Bool)
  | integer (value : Int)
  | float (value : Binary64)
  | string (value : String)
  | sequence (items : List Value)
  | mapping (entries : List (Value × Value))
  | tagged (tag : String) (value : Value)
deriving Repr, Inhabited

namespace Value

/-- The integers that a value may hold. -/
def integers : IntegerRange := .either64

/-- Whether a tag is one of the document's own, written with a mark in front. -/
def isLocalTag (tag : String) : Bool := tag.toList.head? = some '!'

/-- A tag without the mark that it is written with. A lone mark is kept. -/
def bareTag (tag : String) : String :=
  match tag.toList with
  | '!' :: c :: rest => String.ofList (c :: rest)
  | _ => tag

mutual

/-- Equality of values: all values that are no number are equal, and so are both zeros; mappings
may differ in the order of their entries. -/
def same : Value → Value → Bool
  | .null, .null => true
  | .bool a, .bool b => a = b
  | .integer a, .integer b => a = b
  | .float a, .float b => a.same b
  | .string a, .string b => a = b
  | .sequence a, .sequence b => sameItems a b
  | .mapping a, .mapping b => a.length = b.length && sameEntries a b
  | .tagged s a, .tagged t b => bareTag s = bareTag t && same a b
  | _, _ => false

def sameItems : List Value → List Value → Bool
  | [], [] => true
  | a :: as, b :: bs => same a b && sameItems as bs
  | _, _ => false

/-- Whether each entry of the first list stands in the second one. -/
def sameEntries : List (Value × Value) → List (Value × Value) → Bool
  | [], _ => true
  | (k, v) :: rest, other =>
    (match other.find? fun e => same k e.1 with
      | some e => same v e.2
      | none => false) && sameEntries rest other

end

/-- Stores a value under a key. A key that is there already keeps its place. -/
def insertEntry (key value : Value) : List (Value × Value) → List (Value × Value)
  | [] => [(key, value)]
  | (k, v) :: rest =>
    if same k key then (k, value) :: rest else (k, v) :: insertEntry key value rest

mutual

/-- A key that a mapping inside a value has twice, the first one in reading order. -/
def repetition? : Value → Option Value
  | .sequence items => repetitionInItems? items
  | .mapping entries => repetitionInEntries? [] entries
  | .tagged _ value => repetition? value
  | .null | .bool _ | .integer _ | .float _ | .string _ => none

def repetitionInItems? : List Value → Option Value
  | [] => none
  | item :: rest => (repetition? item).or (repetitionInItems? rest)

def repetitionInEntries? (known : List Value) : List (Value × Value) → Option Value
  | [] => none
  | (key, value) :: rest =>
    (repetition? key).or
      (if known.any (same key) then some key
      else (repetition? value).or (repetitionInEntries? (key :: known) rest))

end

mutual

/-- Whether two values are the same in every detail. -/
def identical : Value → Value → Bool
  | .null, .null => true
  | .bool a, .bool b => a = b
  | .integer a, .integer b => a = b
  | .float a, .float b => a = b
  | .string a, .string b => a = b
  | .sequence a, .sequence b => identicalItems a b
  | .mapping a, .mapping b => identicalEntries a b
  | .tagged s a, .tagged t b => s = t && identical a b
  | _, _ => false

def identicalItems : List Value → List Value → Bool
  | [], [] => true
  | a :: as, b :: bs => identical a b && identicalItems as bs
  | _, _ => false

def identicalEntries : List (Value × Value) → List (Value × Value) → Bool
  | [], [] => true
  | (k, v) :: as, (l, w) :: bs => identical k l && identical v w && identicalEntries as bs
  | _, _ => false

end

mutual

theorem identical_iff (a b : Value) : identical a b = true ↔ a = b := by
  cases a with
  | sequence as =>
    cases b with
    | sequence bs => rw [identical, identicalItems_iff as bs, sequence.injEq]
    | _ => simp [identical]
  | mapping as =>
    cases b with
    | mapping bs => rw [identical, identicalEntries_iff as bs, mapping.injEq]
    | _ => simp [identical]
  | tagged s a =>
    cases b with
    | tagged t b => simp [identical, identical_iff a b]
    | _ => simp [identical]
  | _ => cases b <;> simp [identical]

theorem identicalItems_iff (as bs : List Value) : identicalItems as bs = true ↔ as = bs := by
  match as, bs with
  | [], [] | [], _ :: _ | _ :: _, [] => simp [identicalItems]
  | a :: as, b :: bs => simp [identicalItems, identical_iff a b, identicalItems_iff as bs]

theorem identicalEntries_iff (as bs : List (Value × Value)) :
    identicalEntries as bs = true ↔ as = bs := by
  match as, bs with
  | [], [] | [], _ :: _ | _ :: _, [] => simp [identicalEntries]
  | (k, v) :: as, (l, w) :: bs =>
    simp [identicalEntries, identical_iff k l, identical_iff v w, identicalEntries_iff as bs]

end

instance : DecidableEq Value := fun a b => decidable_of_iff _ (identical_iff a b)

end Value

end ModelShelf.Yaml
