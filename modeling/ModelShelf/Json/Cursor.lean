import ModelShelf.Json.Fault
import ModelShelf.Text.Utf8

/-!
Reading JSON from left to right. A reader consumes a part of the text and yields a value or a
fault; after a fault the place where reading stopped is kept, because the brackets around a value
are still passed before the fault is given its place.
-/

namespace ModelShelf.Json

open Number Text

/-- The part of a text that is still to be read, and its place. -/
structure Cursor where
  rest : List Char
  position : Position
deriving Repr

def Cursor.start (text : String) : Cursor := ⟨text.toList, .start⟩

/-- The place one byte further, where a fault of the next character is reported. -/
def Cursor.peekPosition (c : Cursor) : Position :=
  match c.rest with
  | [] => c.position
  | x :: _ => c.position.afterByte x

/-- A step through a JSON text: it moves the cursor, or the text is malformed. -/
abbrev Reader := EStateM Fault Cursor

namespace Reader

/-- Fails where reading stands. -/
def failHere (cause : Cause) : Reader α := fun c => .error ⟨cause, some c.position⟩ c

/-- Fails at the next character. -/
def failPeek (cause : Cause) : Reader α := fun c => .error ⟨cause, some c.peekPosition⟩ c

/-- Fails without a place. -/
def mismatch (m : Mismatch) : Reader α := fun c => .error (.ofMismatch m) c

/-- Gives a fault that has no place the one where reading stands. -/
def located (read : Reader α) : Reader α := fun c =>
  match read c with
  | .ok a c => .ok a c
  | .error fault c => .error ⟨fault.cause, some (fault.position.getD c.position)⟩ c

def peek? : Reader (Option Char) := fun c => .ok c.rest.head? c

/-- Consumes the next character. -/
def next? : Reader (Option Char) := fun c =>
  match c.rest with
  | [] => .ok none c
  | x :: rest => .ok (some x) ⟨rest, c.position.after x⟩

def skip : Reader Unit := do let _ ← next?

def isBlank (c : Char) : Bool := c = ' ' || c = '\n' || c = '\t' || c = '\r'

/-- The cursor at the first character that does not satisfy `p`. -/
def dropWhile (p : Char → Bool) (position : Position) : List Char → Cursor
  | [] => ⟨[], position⟩
  | x :: rest => if p x then dropWhile p (position.after x) rest else ⟨x :: rest, position⟩

/-- Passes blanks and looks at the character behind them. -/
def skipBlanks : Reader (Option Char) := fun c =>
  let c := dropWhile isBlank c.position c.rest
  .ok c.rest.head? c

/-- The place after `n` bytes, which may lie inside a character. -/
def advance (position : Position) : Nat → List Char → Position
  | _, [] => position
  | 0, _ => position
  | n + 1, x :: rest =>
    if x = '\n' then advance ⟨position.line + 1, 0⟩ n rest
    else
      let step := min (n + 1) x.utf8Size
      advance ⟨position.line, position.column + step⟩ (n + 1 - step) rest

def hexValue? (c : Char) : Option Nat :=
  if '0' ≤ c && c ≤ '9' then some (c.toNat - '0'.toNat)
  else if 'a' ≤ c && c ≤ 'f' then some (c.toNat - 'a'.toNat + 10)
  else if 'A' ≤ c && c ≤ 'F' then some (c.toNat - 'A'.toNat + 10)
  else none

/-- The number of four hexadecimal digits. -/
def hexUnit? (a b c d : Char) : Option Nat := do
  let a ← hexValue? a
  let b ← hexValue? b
  let c ← hexValue? c
  let d ← hexValue? d
  return ((a * 16 + b) * 16 + c) * 16 + d

/-- The four digits of an escaped UTF-16 unit. Four bytes are passed even if they are no digits. -/
def hexUnit : Reader Nat := fun c =>
  let failed (cause : Cause) (n : Nat) : EStateM.Result Fault Cursor Nat :=
    let position := advance c.position n c.rest
    .error ⟨cause, some position⟩ ⟨[], position⟩
  if byteCount (c.rest.take 4) < 4 then failed .endInString (byteCount c.rest)
  else
    match c.rest with
    | x :: y :: z :: w :: rest =>
      match hexUnit? x y z w with
      | some n => .ok n ⟨rest, ⟨c.position.line, c.position.column + 4⟩⟩
      | none => failed .invalidEscape 4
    | _ => failed .invalidEscape 4

/-- Expects the character `expected` inside an escape of two units. -/
def pairMark (expected : Char) : Reader Unit := do
  match ← peek? with
  | none => failHere .endInString
  | some c => if c = expected then skip else failPeek .unexpectedEndOfHexEscape

/-- The character of an escape by UTF-16 units; a unit of a pair needs the other one after it. -/
def unicodeEscape : Reader Char := do
  let n ← hexUnit
  if 0xDC00 ≤ n ∧ n ≤ 0xDFFF then failHere .loneSurrogate
  else if n < 0xD800 ∨ 0xDFFF < n then return Char.ofNat n
  else
    pairMark '\\'
    pairMark 'u'
    let low ← hexUnit
    if low < 0xDC00 ∨ 0xDFFF < low then failHere .loneSurrogate
    else return Char.ofNat ((n - 0xD800) * 0x400 + (low - 0xDC00) + 0x10000)

/-- The character of a short escape. -/
def shortEscape? : Char → Option Char
  | '"' => some '"'
  | '\\' => some '\\'
  | '/' => some '/'
  | 'b' => some '\x08'
  | 'f' => some '\x0c'
  | 'n' => some '\n'
  | 'r' => some '\r'
  | 't' => some '\t'
  | _ => none

/-- The character of an escape, after its backslash. -/
def escape : Reader Char := do
  match ← next? with
  | none => failHere .endInString
  | some 'u' => unicodeEscape
  | some c =>
    match shortEscape? c with
    | some x => return x
    | none => failHere .invalidEscape

/-- The rest of a string after its opening quote, behind the characters `read`, last one first. -/
def stringFrom : Nat → List Char → Reader String
  | 0, _ => failHere .endInString
  | fuel + 1, read => do
    match ← next? with
    | none => failHere .endInString
    | some '"' => return String.ofList read.reverse
    | some '\\' => do
      let c ← escape
      stringFrom fuel (c :: read)
    | some c =>
      if c < ' ' then failHere .controlCharacter else stringFrom fuel (c :: read)

/-- The content of a string, after its opening quote. -/
def stringBody : Reader String := fun c => stringFrom (c.rest.length + 1) [] c

/-- Passes an escape without asking which character it stands for. -/
def skipEscape : Reader Unit := do
  match ← next? with
  | none => failHere .endInString
  | some 'u' => let _ ← hexUnit
  | some c => if (shortEscape? c).isNone then failHere .invalidEscape

def skipStringFrom : Nat → Reader Unit
  | 0 => failHere .endInString
  | fuel + 1 => do
    match ← peek? with
    | none => failHere .endInString
    | some '"' => skip
    | some '\\' => do
      skip
      skipEscape
      skipStringFrom fuel
    | some c =>
      if c < ' ' then failHere .controlCharacter
      else do
        skip
        skipStringFrom fuel

/-- Passes a string, after its opening quote. -/
def skipString : Reader Unit := fun c => skipStringFrom (c.rest.length + 1) c

/-- Expects the remaining letters of a literal. -/
def letters : List Char → Reader Unit
  | [] => pure ()
  | expected :: rest => do
    match ← next? with
    | none => failHere .endInValue
    | some c => if c = expected then letters rest else failHere .expectedIdent

/-- The letters of a literal after its first one. -/
def literalTail (first : Char) : List Char :=
  if first = 'n' then ['u', 'l', 'l']
  else if first = 't' then ['r', 'u', 'e']
  else ['a', 'l', 's', 'e']

def isDigit (c : Char) : Bool := '0' ≤ c && c ≤ '9'

def digitValue (c : Char) : Nat := c.toNat - '0'.toNat

/-- The digits that come next. -/
def digits : Reader (List Char) := fun c =>
  .ok (c.rest.takeWhile isDigit) (dropWhile isDigit c.position c.rest)

/-- Appends digits while the number fits in 64 bits; the digits left over are counted. -/
def gather (significand : Nat) : List Char → Nat × Nat
  | [] => (significand, 0)
  | d :: rest =>
    let next := significand * 10 + digitValue d
    if (next : Int) ∈ IntegerRange.either64 then gather next rest
    else (significand, rest.length + 1)

/-- A significand times a power of ten, by the rounded powers up to `10 ^ 308`. A number beyond the
largest one is refused; a number below the smallest one is zero. -/
def scale? : Nat → Binary64 → Int → Option Binary64
  | 0, x, _ => some x
  | fuel + 1, x, exponent =>
    if exponent.natAbs ≤ 308 then
      let power := Binary64.ofDecimal false ⟨1, exponent.natAbs⟩
      if 0 ≤ exponent then
        let product := x.mul power
        if product.isInfinite then none else some product
      else some (x.div power)
    else if x.isZero then some x
    else if 0 ≤ exponent then none
    else scale? fuel (x.div (Binary64.ofDecimal false ⟨1, 308⟩)) (exponent + 308)

/-- A floating-point number of a significand below `2 ^ 64` and a power of ten. -/
def floatOf (negative : Bool) (significand : Nat) (exponent : Int) : Reader Numeral := do
  match scale? 8 (Binary64.ofNat significand) exponent with
  | none => failHere .numberOutOfRange
  | some x => return .float (if negative then x.negate else x)

/-- The digits of an exponent, of which the first is still to come. An exponent that does not fit
in 32 bits makes the number zero or too large. -/
def exponentDigits (negative : Bool) (significand : Nat) (exponent : Int) (below : Bool) :
    Nat → Nat → Reader Numeral
  | 0, _ => failHere .invalidNumber
  | fuel + 1, read => do
    match ← peek? with
    | some c =>
      if isDigit c then
        skip
        let next := read * 10 + digitValue c
        if (next : Int) ∉ IntegerRange.signed32 then
          if significand ≠ 0 ∧ !below then failHere .numberOutOfRange
          else
            let _ ← digits
            return .float (.zero negative)
        else exponentDigits negative significand exponent below fuel next
      else floatOf negative significand (if below then exponent - read else exponent + read)
    | none => floatOf negative significand (if below then exponent - read else exponent + read)

/-- The exponent of a number, at its letter. -/
def exponentPart (negative : Bool) (significand : Nat) (exponent : Int) : Reader Numeral := do
  skip
  let below ← do
    match ← peek? with
    | some '+' => do
      skip
      pure false
    | some '-' => do
      skip
      pure true
    | _ => pure false
  match ← next? with
  | none => failHere .endInValue
  | some c =>
    if isDigit c then
      fun cursor =>
        exponentDigits negative significand exponent below (cursor.rest.length + 1) (digitValue c)
          cursor
    else failHere .invalidNumber

/-- The fraction of a number, at its point. Digits that no longer fit are dropped. -/
def fractionPart (negative : Bool) (significand : Nat) (exponent : Int) : Reader Numeral := do
  skip
  let ds ← digits
  if ds.isEmpty then
    match ← peek? with
    | some _ => failPeek .invalidNumber
    | none => failPeek .endInValue
  else
    let (significand, left) := gather significand ds
    let exponent := exponent - (ds.length - left : Nat)
    match ← peek? with
    | some 'e' | some 'E' => exponentPart negative significand exponent
    | _ => floatOf negative significand exponent

/-- An integer that is neither too large nor a negative zero. -/
def exactInteger? (negative : Bool) (n : Nat) : Option Int :=
  if negative then if n = 0 ∨ -(n : Int) ∉ Numeral.exactRange then none else some (-n)
  else some n

/-- The digits of a number after its first one. A zero in front stands alone. -/
def moreDigits (first : Char) : Reader (List Char) := do
  if first = '0' then
    match ← peek? with
    | some c => if isDigit c then failPeek .invalidNumber else return []
    | none => return []
  else digits

/-- A number after its sign. -/
def number (negative : Bool) : Reader Numeral := do
  match ← next? with
  | none => failHere .endInValue
  | some first =>
    if !isDigit first then failHere .invalidNumber
    else
      let more ← moreDigits first
      let (significand, left) := gather 0 (first :: more)
      match ← peek? with
      | some '.' => fractionPart negative significand left
      | some 'e' | some 'E' => exponentPart negative significand left
      | _ =>
        if left ≠ 0 then floatOf negative significand left
        else
          match exactInteger? negative significand with
          | some n => return .integer n
          | none => floatOf negative significand 0

/-- Passes a digit and those behind it. -/
def skipDigits : Reader Unit := do
  match ← next? with
  | some c => if isDigit c then let _ ← digits else failHere .invalidNumber
  | none => failHere .invalidNumber

/-- Passes the whole part of a number; a zero in front of other digits is refused. -/
def skipWhole : Reader Unit := do
  match ← peek? with
  | some '0' => do
    skip
    match ← peek? with
    | some c => if isDigit c then failPeek .invalidNumber
    | none => pure ()
  | _ => skipDigits

/-- Passes a fraction, if one comes next. -/
def skipFraction : Reader Unit := do
  match ← peek? with
  | some '.' => do
    skip
    let ds ← digits
    if ds.isEmpty then failPeek .invalidNumber
  | _ => pure ()

def skipSign : Reader Unit := do
  match ← peek? with
  | some '+' | some '-' => skip
  | _ => pure ()

/-- Passes an exponent, if one comes next. -/
def skipExponent : Reader Unit := do
  match ← peek? with
  | some 'e' | some 'E' => do
    skip
    skipSign
    skipDigits
  | _ => pure ()

/-- Passes a number after its sign. -/
def skipNumber : Reader Unit := do
  skipWhole
  skipFraction
  skipExponent

/-- Passes the colon after a member's name. -/
def colon : Reader Unit := do
  match ← skipBlanks with
  | some ':' => skip
  | some _ => failPeek .expectedColon
  | none => failPeek .endInObject

/-- Whether a list goes on, after its bracket or an item: passes the comma in front of an item. -/
def hasItem (isFirst : Bool) : Reader Bool := do
  match ← skipBlanks with
  | none => failPeek .endInList
  | some ']' => return false
  | some c =>
    if isFirst then return true
    else if c = ',' then
      skip
      match ← skipBlanks with
      | some ']' => failPeek .trailingComma
      | some _ => return true
      | none => failPeek .endInValue
    else failPeek .expectedListCommaOrEnd

/-- Whether an object goes on, after its bracket or a member: stops at the quote of a name. -/
def hasMember (isFirst : Bool) : Reader Bool := do
  match ← skipBlanks with
  | none => failPeek .endInObject
  | some '\x7d' => return false
  | some c =>
    if isFirst then if c = '"' then return true else failPeek .keyMustBeString
    else if c = ',' then
      skip
      match ← skipBlanks with
      | some '"' => return true
      | some '\x7d' => failPeek .trailingComma
      | some _ => failPeek .keyMustBeString
      | none => failPeek .endInValue
    else failPeek .expectedObjectCommaOrEnd

/-- The name of the next member. -/
def member? (isFirst : Bool) : Reader (Option String) := do
  if ← hasMember isFirst then
    skip
    return some (← stringBody)
  else return none

/-- Passes the bracket that ends a list. -/
def endList : Reader Unit := do
  match ← skipBlanks with
  | some ']' => skip
  | some ',' => do
    skip
    match ← skipBlanks with
    | some ']' => failPeek .trailingComma
    | _ => failPeek .trailingCharacters
  | some _ => failPeek .trailingCharacters
  | none => failPeek .endInList

/-- Passes the bracket that ends an object. -/
def endObject : Reader Unit := do
  match ← skipBlanks with
  | some '\x7d' => skip
  | some ',' => failPeek .trailingComma
  | some _ => failPeek .trailingCharacters
  | none => failPeek .endInObject

/-- Reads between an opening bracket and its end. A fault of the inside wins, but the end is passed
first, as far as it is there. -/
def enclosed (close : Reader Unit) (inside : Reader α) : Reader α := fun c =>
  match (skip *> inside) c with
  | .ok a c =>
    match close c with
    | .ok _ c => .ok a c
    | .error fault c => .error fault c
  | .error fault c =>
    match close c with
    | .ok _ c => .error fault c
    | .error _ c => .error fault c

/-- The items of a list, each read by `item`, behind those already read, last one first. -/
def itemsFrom (item : Reader α) : Nat → Bool → List α → Reader (List α)
  | 0, _, _ => failPeek .endInList
  | fuel + 1, isFirst, read => do
    if ← hasItem isFirst then
      let a ← item
      itemsFrom item fuel false (a :: read)
    else return read.reverse

/-- The items of a list, after its opening bracket. -/
def items (item : Reader α) : Reader (List α) := fun c =>
  itemsFrom item (c.rest.length + 1) true [] c

/-- The members of an object, folded from the left: `step` reads the value of a member, after its
name and with the colon still to come. -/
def membersFrom (step : σ → String → Reader σ) : Nat → Bool → σ → Reader σ
  | 0, _, _ => failPeek .endInObject
  | fuel + 1, isFirst, state => do
    match ← member? isFirst with
    | some name =>
      let state ← step state name
      membersFrom step fuel false state
    | none => return state

/-- The members of an object, after its opening bracket. -/
def members (step : σ → String → Reader σ) (state : σ) : Reader σ := fun c =>
  membersFrom step (c.rest.length + 1) true state c

/-- Reads up to the end, where only blanks may be left. -/
def toEnd (read : Reader α) : Reader α := do
  let a ← read
  match ← skipBlanks with
  | some _ => failPeek .trailingCharacters
  | none => return a

/-- Reads the whole text. -/
def run (read : Reader α) (text : String) : Except Fault α :=
  match toEnd read (.start text) with
  | .ok a _ => .ok a
  | .error fault _ => .error fault

end Reader

end ModelShelf.Json
