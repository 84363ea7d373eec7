import ModelShelf.Error
import ModelShelf.Number.IntegerRange

/-!
Variables of the environment with a type and a default. A variable that is set has to hold a text
of its type.
-/

namespace ModelShelf

open Text Number

/-- The texts of the variables that are set. A variable that is set to bytes which are no text is
read as one that is not set, and has no text here. -/
abbrev Environment := String → Option String

/-- Why a text is no integer of a range. -/
inductive IntegerFault where
  | empty
  | invalidDigit
  | tooLarge
  | tooSmall
deriving DecidableEq, Repr

def IntegerFault.message : IntegerFault → String
  | .empty => "cannot parse integer from empty string"
  | .invalidDigit => "invalid digit found in string"
  | .tooLarge => "number too large to fit in target type"
  | .tooSmall => "number too small to fit in target type"

namespace Number.IntegerRange

/-- Adds one digit to a number. The first digit that is none, or that leaves the range, is
reported. -/
def addDigit (range : IntegerRange) (negative : Bool) (n : Int) (c : Char) :
    Except IntegerFault Int :=
  if !c.isDigit then .error .invalidDigit
  else
    let digit : Int := c.toNat - '0'.toNat
    let next := if negative then n * 10 - digit else n * 10 + digit
    if range.greatest < next then .error .tooLarge
    else if next < range.least then .error .tooSmall
    else .ok next

def digits (range : IntegerRange) (negative : Bool) (s : List Char) : Except IntegerFault Int :=
  s.foldlM (addDigit range negative) 0

/-- The integer of a text: digits after a sign, where a minus needs a range with negative
numbers. -/
def parse (range : IntegerRange) (text : String) : Except IntegerFault Int :=
  match text.toList with
  | [] => .error .empty
  | [c] => if c = '+' || c = '-' then .error .invalidDigit else range.digits false [c]
  | '+' :: rest => range.digits false rest
  | '-' :: rest =>
    if range.least < 0 then range.digits true rest else range.digits false ('-' :: rest)
  | s => range.digits false s

end Number.IntegerRange

/-- A variable whose text is read as a value. -/
structure Variable (α : Type) where
  name : String
  default : α
  /-- The value of a text, or why it has none. -/
  read : String → Except String α
  /-- The default as it is shown. -/
  shown : String

namespace Variable

def isDefined (v : Variable α) (env : Environment) : Bool := (env v.name).isSome

/-- The value in an environment. -/
def get (v : Variable α) (env : Environment) : Result α :=
  match env v.name with
  | none => .ok v.default
  | some raw =>
    (v.read raw).mapError fun reason =>
      .invalidParameter
        ("Failed to convert " ++ quoted raw ++ " for " ++ v.name ++ ": " ++ reason)

def display (v : Variable α) : String := v.name ++ " (default: " ++ v.shown ++ ")"

/-- A variable that holds any text. -/
def ofText (name default : String) : Variable String := ⟨name, default, .ok, quoted default⟩

/-- A variable that holds an integer of a range. -/
def ofInteger (name : String) (range : IntegerRange) (default : Int) : Variable Int where
  name := name
  default := default
  read raw := (range.parse raw).mapError IntegerFault.message
  shown := toString default

end Variable

/-- A variable that holds a truth value. -/
structure Switch where
  name : String
  default : Bool

namespace Switch

def isDefined (s : Switch) (env : Environment) : Bool := (env s.name).isSome

/-- A truth value is a word in any case, or a digit. -/
def parse? (raw : String) : Option Bool :=
  match raw.map Char.toLower with
  | "true" | "1" => some true
  | "false" | "0" => some false
  | _ => none

/-- The value in an environment. -/
def get (s : Switch) (env : Environment) : Result Bool :=
  match env s.name with
  | none => .ok s.default
  | some raw =>
    match parse? raw with
    | some b => .ok b
    | none =>
      .error (.invalidParameter (s.name ++
        " value must be one of ['true', 'false', '1', '0'] (case-insensitive), but got " ++ raw))

end Switch

end ModelShelf
