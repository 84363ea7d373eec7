/-!
Ranges of integers, among them those that fit in a number of bits.
-/

namespace ModelShelf.Number

/-- The integers from `least` to `greatest`. -/
structure IntegerRange where
  least : Int
  greatest : Int
deriving DecidableEq, Repr

namespace IntegerRange

/-- The integers of 32 bits without a sign. -/
def unsigned32 : IntegerRange := ⟨0, 0xFFFFFFFF⟩

/-- The integers of 32 bits with a sign. -/
def signed32 : IntegerRange := ⟨-0x80000000, 0x7FFFFFFF⟩

/-- The integers of 64 bits with a sign. -/
def signed64 : IntegerRange := ⟨-0x8000000000000000, 0x7FFFFFFFFFFFFFFF⟩

/-- The integers of 64 bits with or without a sign. -/
def either64 : IntegerRange := ⟨-0x8000000000000000, 0xFFFFFFFFFFFFFFFF⟩

/-- The integers of 128 bits with or without a sign. -/
def either128 : IntegerRange :=
  ⟨-0x80000000000000000000000000000000, 0xFFFFFFFFFFFFFFFFFFFFFFFFFFFFFFFF⟩

instance : Membership Int IntegerRange where
  mem range n := range.least ≤ n ∧ n ≤ range.greatest

instance (n : Int) (range : IntegerRange) : Decidable (n ∈ range) :=
  inferInstanceAs (Decidable (_ ∧ _))

theorem mem_iff {n : Int} {range : IntegerRange} :
    n ∈ range ↔ range.least ≤ n ∧ n ≤ range.greatest := Iff.rfl

end IntegerRange

end ModelShelf.Number
