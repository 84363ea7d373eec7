import ModelShelf.Text.Mismatch
import ModelShelf.Text.Split
import ModelShelf.Yaml.Value

/-!
What a plain scalar stands for: nothing, a truth value, an integer, a floating-point number, or its
own text. Integers may have a base; a decimal integer must not begin with a zero, unless it is
zero.
-/

namespace ModelShelf.Yaml

open Number Text

/-- What a scalar stands for. An integer may be too wide for a value. -/
inductive Scalar where
  | null
  | bool (value : Bool)
  | integer (value : Int)
  | wideInteger (value : Int)
  | float (value : Binary64)
  | string (value : String)
deriving DecidableEq, Repr

def Scalar.found : Scalar → Found
  | .null => .nothing
  | .bool b => .boolean b
  | .integer n => .integer n
  | .wideInteger n => .wideInteger n
  | .float x => .float x
  | .string s => .string s

namespace Plain

def isNull (s : String) : Bool := s ∈ ["null", "Null", "NULL", "~"]

def bool? (s : String) : Option Bool :=
  if s ∈ ["true", "True", "TRUE"] then some true
  else if s ∈ ["false", "False", "FALSE"] then some false
  else none

/-! ### Integers -/

def isSign (c : Char) : Bool := c = '+' || c = '-'

/-- The value of a digit of any base up to 36. -/
def digitValue? (c : Char) : Option Nat :=
  if '0' ≤ c && c ≤ '9' then some (c.toNat - '0'.toNat)
  else if 'a' ≤ c && c ≤ 'z' then some (c.toNat - 'a'.toNat + 10)
  else if 'A' ≤ c && c ≤ 'Z' then some (c.toNat - 'A'.toNat + 10)
  else none

/-- The number that one or more digits write. -/
def natural? (base : Nat) (digits : List Char) : Option Nat :=
  if digits.isEmpty then none
  else digits.foldlM (fun n c => do
    let d ← digitValue? c
    if d < base then some (n * base + d) else none) 0

/-- Digits after a zero are no number, whatever the sign in front. -/
def isZeroPadded (s : List Char) : Bool :=
  match (match s with
    | c :: rest => if isSign c then rest else s
    | [] => s) with
  | '0' :: c :: rest => (c :: rest).all Char.isDigit
  | _ => false

/-- The bases that a letter after a zero announces. -/
def base? : Char → Option Nat
  | 'x' => some 16
  | 'o' => some 8
  | 'b' => some 2
  | _ => none

/-- A number without a sign, in any base. -/
def magnitude? (s : List Char) : Option Nat :=
  match s with
  | '0' :: letter :: digits =>
    match base? letter with
    | some base => natural? base digits
    | none => if isZeroPadded s then none else natural? 10 s
  | _ => natural? 10 s

/-- The integer that a scalar writes, of any size. -/
def integer? (s : List Char) : Option Int :=
  match s with
  | '+' :: rest => (magnitude? rest).map Int.ofNat
  | '-' :: rest => (magnitude? rest).map fun n => -(n : Int)
  | _ => (magnitude? s).map Int.ofNat

/-- Integers beyond these are read as floating-point numbers. -/
def wideIntegers : IntegerRange := .either128

/-! ### Floating-point numbers -/

/-- The exponent of a number, with the letter in front of it. -/
def exponent? : List Char → Option Int
  | [] => some 0
  | letter :: rest =>
    if letter = 'e' || letter = 'E' then
      match rest with
      | '+' :: digits => (natural? 10 digits).map Int.ofNat
      | '-' :: digits => (natural? 10 digits).map fun n => -(n : Int)
      | digits => (natural? 10 digits).map Int.ofNat
    else none

/-- A decimal: digits with a point among or beside them, and an exponent. -/
def decimal? (s : List Char) : Option Decimal := do
  let whole := s.takeWhile Char.isDigit
  let (fraction, rest) := match s.dropWhile Char.isDigit with
    | '.' :: rest => (rest.takeWhile Char.isDigit, rest.dropWhile Char.isDigit)
    | rest => ([], rest)
  let digits ← natural? 10 (whole ++ fraction)
  return ⟨digits, (← exponent? rest) - fraction.length⟩

/-- A finite number with or without a sign. -/
def finite? (negative : Bool) (s : List Char) : Option Binary64 := do
  let x := Binary64.ofDecimal negative (← decimal? s)
  if x.isFinite then some x else none

def isInfinity (s : List Char) : Bool :=
  s ∈ [".inf".toList, ".Inf".toList, ".INF".toList]

def isNan (s : List Char) : Bool := s ∈ [".nan".toList, ".NaN".toList, ".NAN".toList]

/-- A number in magnitude: infinite or finite. -/
def number? (negative : Bool) (s : List Char) : Option Binary64 :=
  if isInfinity s then some (Binary64.infinity negative) else finite? negative s

def float? (s : List Char) : Option Binary64 :=
  match s with
  | '+' :: rest => number? false rest
  | '-' :: rest => number? true rest
  | _ => if isNan s then some Binary64.nan else number? false s

end Plain

namespace Scalar

/-- What an integer of any size stands for, unless it is too wide to be one. -/
def ofInteger? (n : Int) : Option Scalar :=
  if n ∈ Value.integers then some (.integer n)
  else if n ∈ Plain.wideIntegers then some (.wideInteger n)
  else none

/-- What a text stands for as an integer. -/
def integer? (s : String) : Option Scalar := Plain.integer? s.toList >>= ofInteger?

/-- What a text stands for as a plain scalar. -/
def ofPlain (s : String) : Scalar :=
  if s.isEmpty || Plain.isNull s then .null
  else match Plain.bool? s with
    | some b => .bool b
    | none =>
      match integer? s with
      | some n => n
      | none =>
        if Plain.isZeroPadded s.toList then .string s
        else match Plain.float? s.toList with
          | some x => .float x
          | none => .string s

end Scalar

end ModelShelf.Yaml
