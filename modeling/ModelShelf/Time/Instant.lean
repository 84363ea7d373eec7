import ModelShelf.Number.IntegerRange
import ModelShelf.Text.Blank
import ModelShelf.Time.Calendar

/-!
Points in time with nanoseconds, and their text: a date, a time of day and an offset from
universal time. Reading allows blanks between the parts and several separators; writing gives
universal time with as many groups of three fraction digits as needed.
-/

namespace ModelShelf.Time

open Text Number

/-- A point in universal time. In a leap second the nanoseconds go on counting past `10 ^ 9`. -/
structure Instant where
  /-- Seconds since the start of 1970. -/
  seconds : Int
  nanoseconds : Nat
deriving DecidableEq, Repr

/-- Why a text is no point in time. -/
inductive TimeFault where
  | outOfRange
  | impossible
  | invalid
  | tooShort
  | tooLong
deriving DecidableEq, Repr

def TimeFault.message : TimeFault → String
  | .outOfRange => "input is out of range"
  | .impossible => "no possible date and time matching input"
  | .invalid => "input contains invalid characters"
  | .tooShort => "premature end of input"
  | .tooLong => "trailing input"

/-- A reader of a part of a text: the value and the rest, or a fault. -/
abbrev Scan := StateT (List Char) (Except TimeFault)

namespace Scan

def fail (fault : TimeFault) : Scan α := throw fault

def skipBlanks : Scan Unit := modify (·.dropWhile isBlank)

def isDigit (c : Char) : Bool := '0' ≤ c && c ≤ '9'

def numberOf (digits : List Char) : Nat :=
  digits.foldl (fun n d => n * 10 + (d.toNat - '0'.toNat)) 0

/-- The digits that come next, at least one and at most `width`. -/
def digits (width : Option Nat) : Scan (List Char) := do
  let s ← get
  let found := s.takeWhile isDigit
  let taken := match width with
    | none => found
    | some n => found.take n
  if s.isEmpty then fail .tooShort
  else if taken.isEmpty then fail .invalid
  else
    set (s.drop taken.length)
    return taken

/-- A number of at most `width` digits after blanks, between two bounds. -/
def field (width low high : Nat) : Scan Nat := do
  skipBlanks
  let n := numberOf (← digits (some width))
  if low ≤ n ∧ n ≤ high then return n else fail .outOfRange

/-- A year after blanks: four digits at most, or a sign and any number of digits. -/
def year : Scan Int := do
  skipBlanks
  let value ← do
    match ← get with
    | '-' :: rest => do
      set rest
      let ds ← digits none
      if (numberOf ds : Int) ∉ IntegerRange.signed64 then fail .outOfRange
      pure (-(numberOf ds : Int))
    | '+' :: rest => do
      set rest
      let ds ← digits none
      if (numberOf ds : Int) ∉ IntegerRange.signed64 then fail .outOfRange
      pure (numberOf ds : Int)
    | _ => pure (numberOf (← digits (some 4)) : Int)
  if value ∈ IntegerRange.signed32 then return value else fail .outOfRange

/-- One given character after blanks. -/
def mark (expected : Char) : Scan Unit := do
  skipBlanks
  match ← get with
  | [] => fail .tooShort
  | c :: rest => if c = expected then set rest else fail .invalid

/-- A fraction of a second, in nanoseconds. Digits after the ninth are dropped. -/
def fraction : Scan Nat := do
  match ← get with
  | '.' :: rest => do
    set rest
    let ds ← digits (some 9)
    modify (·.dropWhile isDigit)
    return numberOf ds * Nat.pow 10 (9 - ds.length)
  | _ => return 0

/-- Two digits of an offset. -/
def pair : Scan (Char × Char) := do
  match ← get with
  | a :: b :: _ => return (a, b)
  | [a] => if a.utf8Size < 2 then fail .tooShort else fail .invalid
  | [] => fail .tooShort

/-- The offset from universal time in seconds: a letter, or hours and minutes with a sign. -/
def offset : Scan Int := do
  let negative ← do
    match ← get with
    | [] => fail .tooShort
    | c :: rest =>
      set rest
      if c = 'Z' ∨ c = 'z' then return 0
      else if c = '+' then pure false
      else if c = '-' ∨ c = '\u2212' then pure true
      else fail .invalid
  let (a, b) ← pair
  if !isDigit a || !isDigit b then fail .invalid
  let hours := numberOf [a, b]
  modify (·.drop 2)
  modify (·.dropWhile fun c => c = ':' || isBlank c)
  let (c, d) ← pair
  if !isDigit c || !isDigit d then fail .invalid
  let minutes := numberOf [c, d]
  if 59 < minutes then fail .outOfRange
  modify (·.drop 2)
  let seconds : Int := hours * 3600 + minutes * 60
  return if negative then -seconds else seconds

/-- The offset of a text that may name universal time. -/
def zone : Scan Int := do
  skipBlanks
  let s ← get
  if (s.take 3).map Char.toLower = ['u', 't', 'c'] then
    set (s.drop 3)
    return 0
  else offset

/-- The separator between the date and the time of day. -/
def separator : Scan Unit := do
  match ← get with
  | [] => fail .tooShort
  | c :: rest => if c = 't' ∨ c = 'T' ∨ c = ' ' then set rest else fail .invalid

end Scan

open Scan in
/-- A date, a time of day and an offset. The second 60 is the last second of its minute, with the
nanoseconds going on. -/
def Scan.instant : Scan Instant := do
  let year ← year
  mark '-'
  let month ← field 2 1 12
  mark '-'
  let day ← field 2 1 31
  separator
  let hour ← field 2 0 23
  mark ':'
  let minute ← field 2 0 59
  mark ':'
  let second ← field 2 0 60
  let nanoseconds ← fraction
  let offset ← zone
  modify (·.dropWhile isBlank)
  if !(← get).isEmpty then fail .tooLong
  let date : Date := ⟨year, month, day⟩
  if !date.isValid then fail .outOfRange
  if 86400 ≤ offset.natAbs then fail .outOfRange
  let leap := second = 60
  let secondOfDay : Int := hour * 3600 + minute * 60 + if leap then 59 else second
  let seconds := date.toDays * 86400 + secondOfDay - offset
  if !(Date.ofDays (seconds.fdiv 86400)).isValid then fail .impossible
  return ⟨seconds, nanoseconds + if leap then 1000000000 else 0⟩

namespace Instant

/-- The point in time that a text names. -/
def parse (s : String) : Except TimeFault Instant := (Scan.instant.run s.toList).map (·.1)

/-- Whole microseconds since the start of 1970, rounded down. -/
def microseconds (t : Instant) : Int := t.seconds * 1000000 + t.nanoseconds / 1000

/-- Decimal digits with zeros in front up to a width. -/
def padded (width n : Nat) : String :=
  let digits := Nat.toDigits 10 n
  String.ofList (List.replicate (width - digits.length) '0' ++ digits)

/-- A year of four digits, with a sign when it has more or is negative. -/
def yearText (year : Int) : String :=
  if 0 ≤ year ∧ year ≤ 9999 then padded 4 year.toNat
  else (if year < 0 then "-" else "+") ++ padded 4 year.natAbs

/-- The fraction of a second in three, six or nine digits, or none. -/
def fractionText (nanoseconds : Nat) : String :=
  if nanoseconds = 0 then ""
  else if nanoseconds % 1000000 = 0 then "." ++ padded 3 (nanoseconds / 1000000)
  else if nanoseconds % 1000 = 0 then "." ++ padded 6 (nanoseconds / 1000)
  else "." ++ padded 9 nanoseconds

/-- The text of a point in universal time. -/
def toText (t : Instant) : String :=
  let date := Date.ofDays (t.seconds.fdiv 86400)
  let ofDay := (t.seconds.fmod 86400).toNat
  let leap := 1000000000 ≤ t.nanoseconds
  let second := ofDay % 60 + if leap then 1 else 0
  yearText date.year ++ "-" ++ padded 2 date.month ++ "-" ++ padded 2 date.day ++ "T" ++
    padded 2 (ofDay / 3600) ++ ":" ++ padded 2 (ofDay / 60 % 60) ++ ":" ++ padded 2 second ++
    fractionText (t.nanoseconds % 1000000000) ++ "Z"

end Instant

end ModelShelf.Time
