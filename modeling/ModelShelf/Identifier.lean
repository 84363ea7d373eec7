import ModelShelf.Text.Quoted

/-!
Identifiers of models and runs: 128 bits in hexadecimal, random except for those that tell so.
-/

namespace ModelShelf

open Text

namespace Identifier

/-- The digit that tells that an identifier is random, and its position. -/
def versionDigit : Char := '4'
def versionPosition : Nat := 12

/-- The position of the digit whose two upper bits are fixed. -/
def variantPosition : Nat := 16

/-- The identifier of 128 random bits. -/
def ofRandom (bits : Nat) : String :=
  let digits := hexPadded 32 (bits % 0x100000000000000000000000000000000)
  let variant := Nat.digitChar (8 + bits / 0x1000000000000000 % 4)
  String.ofList ((digits.set versionPosition versionDigit).set variantPosition variant)

end Identifier

end ModelShelf
