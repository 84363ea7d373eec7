import ModelShelf.Json.Printer
import ModelShelf.Text.Mismatch

/-!
Why a text is not the JSON that a reader wants, and where reading stopped.
-/

namespace ModelShelf.Json

open Text

/-- A place in a text: lines count from one, columns are bytes since the line's start. -/
structure Position where
  line : Nat
  column : Nat
deriving DecidableEq, Repr

namespace Position

def start : Position := ⟨1, 0⟩

/-- The place after one more byte, the first of `c`. -/
def afterByte (p : Position) (c : Char) : Position :=
  if c = '\n' then ⟨p.line + 1, 0⟩ else ⟨p.line, p.column + 1⟩

/-- The place after the character `c`. -/
def after (p : Position) (c : Char) : Position :=
  if c = '\n' then ⟨p.line + 1, 0⟩ else ⟨p.line, p.column + c.utf8Size⟩

end Position

/-- What is wrong with a JSON text. -/
inductive Cause where
  | endInValue
  | endInList
  | endInObject
  | endInString
  | expectedColon
  | expectedListCommaOrEnd
  | expectedObjectCommaOrEnd
  | expectedIdent
  | expectedValue
  | invalidEscape
  | invalidNumber
  | numberOutOfRange
  | controlCharacter
  | keyMustBeString
  | loneSurrogate
  | unexpectedEndOfHexEscape
  | trailingComma
  | trailingCharacters
  | nestedTooDeep
  | mismatch (mismatch : Mismatch)
deriving DecidableEq, Repr

/-- An empty value is called null, and floating-point numbers are spelled as they are written. -/
def foundStyle : FoundStyle := ⟨"null", floatText⟩

def Cause.message : Cause → String
  | .endInValue => "EOF while parsing a value"
  | .endInList => "EOF while parsing a list"
  | .endInObject => "EOF while parsing an object"
  | .endInString => "EOF while parsing a string"
  | .expectedColon => "expected `:`"
  | .expectedListCommaOrEnd => "expected `,` or `]`"
  | .expectedObjectCommaOrEnd => "expected `,` or `\x7d`"
  | .expectedIdent => "expected ident"
  | .expectedValue => "expected value"
  | .invalidEscape => "invalid escape"
  | .invalidNumber => "invalid number"
  | .numberOutOfRange => "number out of range"
  | .controlCharacter => "control character (\\u0000-\\u001F) found while parsing a string"
  | .keyMustBeString => "key must be a string"
  | .loneSurrogate => "lone leading surrogate in hex escape"
  | .unexpectedEndOfHexEscape => "unexpected end of hex escape"
  | .trailingComma => "trailing comma"
  | .trailingCharacters => "trailing characters"
  | .nestedTooDeep => "recursion limit exceeded"
  | .mismatch m => m.message foundStyle

/-- A cause and the place where reading stopped, absent when the whole value is at fault. -/
structure Fault where
  cause : Cause
  position : Option Position
deriving DecidableEq, Repr

def Fault.message (fault : Fault) : String :=
  match fault.position with
  | none => fault.cause.message
  | some p =>
    fault.cause.message ++ " at line " ++ toString p.line ++ " column " ++ toString p.column

/-- A fault that the surrounding reader gives a place. -/
def Fault.ofMismatch (m : Mismatch) : Fault := ⟨.mismatch m, none⟩

end ModelShelf.Json
