/-!
Binary floating-point numbers of 64 bits, kept as their bit patterns and computed with exact
natural-number arithmetic: rounding of a ratio and of a decimal to the nearest number, products
and quotients, and the decimal of fewest digits that reads back.
-/

namespace ModelShelf.Number

/-- A floating-point number of 64 bits: a sign, eleven exponent bits and 52 fraction bits. -/
structure Binary64 where
  bits : UInt64
deriving DecidableEq, Repr

/-- A floating-point number of 32 bits. It is only kept, not computed with. -/
structure Binary32 where
  bits : UInt32
deriving DecidableEq, Repr

/-- A decimal `digits · 10 ^ exponent`. -/
structure Decimal where
  digits : Nat
  exponent : Int
deriving DecidableEq, Repr

/-- `numerator / denominator` to the nearest natural number, a half going to the even one. -/
def roundHalfEven (numerator denominator : Nat) : Nat :=
  let quotient := numerator / denominator
  let twice := 2 * (numerator % denominator)
  if denominator < twice ∨ (twice = denominator ∧ quotient % 2 = 1) then quotient + 1
  else quotient

/-- `base ^ exponent` as a numerator and a denominator. -/
def powerRatio (base : Nat) (exponent : Int) : Nat × Nat :=
  (Nat.pow base exponent.toNat, Nat.pow base (-exponent).toNat)

namespace Binary64

def signBit : Nat := 0x8000000000000000
def fractionSize : Nat := 0x10000000000000

/-- The exponent of the last fraction bit of the smallest numbers. -/
def leastExponent : Int := -1074

/-- The exponent of the last fraction bit of the largest numbers. -/
def greatestExponent : Int := 971

def ofFields (negative : Bool) (magnitude : Nat) : Binary64 :=
  ⟨UInt64.ofNat (magnitude + if negative then signBit else 0)⟩

def zero (negative : Bool) : Binary64 := ofFields negative 0
def infinity (negative : Bool) : Binary64 := ofFields negative (2047 * fractionSize)
def nan : Binary64 := ofFields false (2047 * fractionSize + fractionSize / 2)

/-- The bits without the sign. -/
def magnitude (x : Binary64) : Nat := x.bits.toNat % signBit

def isNegative (x : Binary64) : Bool := signBit ≤ x.bits.toNat
def isFinite (x : Binary64) : Bool := x.magnitude < 2047 * fractionSize
def isInfinite (x : Binary64) : Bool := x.magnitude == 2047 * fractionSize
def isNan (x : Binary64) : Bool := 2047 * fractionSize < x.magnitude
def isZero (x : Binary64) : Bool := x.magnitude == 0

def negate (x : Binary64) : Binary64 := ofFields (!x.isNegative) x.magnitude

/-- The significand `m` and exponent `q` of a finite number of absolute value `m · 2 ^ q`. -/
def significand (x : Binary64) : Nat × Int :=
  let exponent := x.magnitude / fractionSize
  let fraction := x.magnitude % fractionSize
  if exponent = 0 then (fraction, leastExponent)
  else (fractionSize + fraction, exponent - 1075)

/-- Numeric equality: both zeros are equal, and the number that is no number equals itself. -/
def same (x y : Binary64) : Bool :=
  (x.isNan && y.isNan) || (x.isZero && y.isZero) || (!x.isNan && !y.isNan && x == y)

/-- The absolute value of a finite number as a ratio. -/
def ratio (x : Binary64) : Nat × Nat :=
  let (m, q) := x.significand
  let (up, down) := powerRatio 2 q
  (m * up, down)

/-- The bits, without sign, of the number of significand `m` and exponent `q`, where `m` may have
been rounded up to `2 ^ 53`; past the largest number they are those of infinity. -/
def magnitudeOf (m : Nat) (q : Int) : Nat :=
  let (m, q) := if m = 2 * fractionSize then (fractionSize, q + 1) else (m, q)
  if greatestExponent < q then 2047 * fractionSize
  else if m < fractionSize then m
  else (q + 1075).toNat * fractionSize + (m - fractionSize)

/-- The number nearest to `numerator / denominator`, a tie going to the even significand. -/
def ofRatio (negative : Bool) (numerator denominator : Nat) : Binary64 :=
  if numerator = 0 ∨ denominator = 0 then zero negative
  else
    let guess : Int := (numerator.log2 : Int) - denominator.log2 - 52
    let scaled (q : Int) : Nat × Nat :=
      let (up, down) := powerRatio 2 q
      (numerator * down, denominator * up)
    let (top, bottom) := scaled guess
    let tight := if top < bottom * fractionSize then guess - 1 else guess
    let q := max tight leastExponent
    let (top, bottom) := scaled q
    ofFields negative (magnitudeOf (roundHalfEven top bottom) q)

def ofNat (n : Nat) : Binary64 := ofRatio false n 1

/-- The number nearest to a decimal. Exponents far outside the range are settled without building
their powers. -/
def ofDecimal (negative : Bool) (d : Decimal) : Binary64 :=
  let size : Int := (Nat.toDigits 10 d.digits).length
  if d.digits = 0 ∨ size + d.exponent < -330 then zero negative
  else if 320 < size + d.exponent then infinity negative
  else
    let (up, down) := powerRatio 10 d.exponent
    ofRatio negative (d.digits * up) down

/-- The rounded product of two finite numbers. -/
def mul (x y : Binary64) : Binary64 :=
  let (a, b) := x.ratio
  let (c, d) := y.ratio
  ofRatio (x.isNegative != y.isNegative) (a * c) (b * d)

/-- The rounded quotient of two finite numbers, the second of which is not zero. -/
def div (x y : Binary64) : Binary64 :=
  let (a, b) := x.ratio
  let (c, d) := y.ratio
  ofRatio (x.isNegative != y.isNegative) (a * d) (b * c)

/-- The exponent `e` with `10 ^ e ≤ numerator / denominator < 10 ^ (e + 1)`. -/
def decimalExponent (numerator denominator : Nat) : Int :=
  if denominator ≤ numerator then
    (Nat.toDigits 10 (numerator / denominator)).length - 1
  else
    let k := (Nat.toDigits 10 (denominator / numerator)).length
    if denominator ≤ numerator * Nat.pow 10 (k - 1) then -((k - 1 : Nat) : Int) else -(k : Int)

/-- The reals that round to a finite number other than zero, in quarters of the number's unit:
the number itself, the lower end and the upper end. The numbers just above a power of two have a
lower neighbour at half the distance. -/
def interval (x : Binary64) : Nat × Nat × Nat :=
  let (m, q) := x.significand
  let below := if m = fractionSize ∧ leastExponent < q then 1 else 2
  (4 * m, 4 * m - below, 4 * m + 2)

/-- The point of the decimal grid of step `10 ^ p` that stands for `x`: of the grid's two points
around `x`, those that round to `x`, and of two such points the nearer or the even one. -/
def gridPoint? (x : Binary64) (p : Int) : Option Nat :=
  let (m, q) := x.significand
  let (value, low, high) := x.interval
  let (tenUp, tenDown) := powerRatio 10 p
  let (twoUp, twoDown) := powerRatio 2 (q - 2)
  let step := tenUp * twoDown
  let unit := twoUp * tenDown
  let point := value * unit / step
  let inside (d : Nat) : Bool :=
    if m % 2 = 0 then low * unit ≤ d * step && d * step ≤ high * unit
    else low * unit < d * step && d * step < high * unit
  match inside point, inside (point + 1) with
  | false, false => none
  | true, false => some point
  | false, true => some (point + 1)
  | true, true =>
    let below := value * unit - point * step
    let above := (point + 1) * step - value * unit
    if below < above ∨ (below = above ∧ point % 2 = 0) then some point else some (point + 1)

/-- Moves trailing zeros of the digits into the exponent. -/
def stripZeros : Nat → Decimal → Decimal
  | 0, d => d
  | fuel + 1, d =>
    if d.digits ≠ 0 ∧ d.digits % 10 = 0 then
      stripZeros fuel ⟨d.digits / 10, d.exponent + 1⟩
    else d

/-- The decimal of fewest digits that reads back as the absolute value of a finite number, and of
those the nearest. Seventeen digits always suffice. -/
def shortest (x : Binary64) : Decimal :=
  if x.isZero then ⟨0, 0⟩
  else
    let (numerator, denominator) := x.ratio
    let e := decimalExponent numerator denominator
    let found := (List.range 17).findSome? fun (n : Nat) =>
      (x.gridPoint? (e - n)).map fun d => (⟨d, e - n⟩ : Decimal)
    stripZeros 20 (found.getD ⟨0, 0⟩)

end Binary64

/-- How a decimal is spelled: written positionally while its first digit stands for `10 ^ e` with
`leastPositional ≤ e ≤ greatestPositional`, and with an exponent otherwise. -/
structure DecimalStyle where
  leastPositional : Int
  greatestPositional : Int
  /-- Whether an exponent that is not negative has a plus sign. -/
  plusSign : Bool

/-- The digits of a natural number in base ten. -/
def digitsOf (n : Nat) : List Char := Nat.toDigits 10 n

/-- The text of a decimal: at least one digit on each side of a decimal point, or one digit, the
others after a point, and the exponent. -/
def DecimalStyle.spell (style : DecimalStyle) (d : Decimal) : String :=
  let digits := digitsOf d.digits
  let first : Int := d.exponent + digits.length - 1
  if d.digits = 0 then "0.0"
  else if style.leastPositional ≤ first ∧ first ≤ style.greatestPositional then
    if 0 ≤ d.exponent then
      String.ofList (digits ++ List.replicate d.exponent.toNat '0') ++ ".0"
    else if 0 ≤ first then
      String.ofList (digits.take (first.toNat + 1)) ++ "." ++
        String.ofList (digits.drop (first.toNat + 1))
    else
      "0." ++ String.ofList (List.replicate (-first - 1).toNat '0' ++ digits)
  else
    let lead := String.ofList (digits.take 1)
    let rest := String.ofList (digits.drop 1)
    let point := if rest.isEmpty then "" else "."
    let sign := if first < 0 then "-" else if style.plusSign then "+" else ""
    lead ++ point ++ rest ++ "e" ++ sign ++ String.ofList (digitsOf first.natAbs)

/-- The text of a finite number. -/
def DecimalStyle.spellNumber (style : DecimalStyle) (x : Binary64) : String :=
  (if x.isNegative then "-" else "") ++ style.spell x.shortest

end ModelShelf.Number
