import ModelShelf.Json.Cursor

/-!
Readers of whole values: any value, a value that is passed over, texts, integers, and values that
may be null. Values nest at most 127 levels deep; a value that is passed over may nest deeper.
-/

namespace ModelShelf.Json

open Number Text

namespace Reader

def Numeral.found : Numeral → Found
  | .integer n => .integer n
  | .float x => .float x

/-- Reads a number at its first character. -/
def numberAt (first : Char) : Reader Numeral :=
  if first = '-' then skip *> number true else number false

/-- Refuses the value that starts with `first`. A scalar is read, a list or an object is not. -/
def refuse (expected : String) (first : Char) : Reader α := do
  let refuseAs (found : Found) : Reader α := mismatch (.type found expected)
  if first = 'n' then
    skip *> letters (literalTail first)
    refuseAs .nothing
  else if first = 't' ∨ first = 'f' then
    skip *> letters (literalTail first)
    refuseAs (.boolean (first = 't'))
  else if first = '-' ∨ isDigit first then
    refuseAs (Numeral.found (← numberAt first))
  else if first = '"' then
    skip
    refuseAs (.string (← stringBody))
  else if first = '[' then refuseAs .sequence
  else if first = '\x7b' then refuseAs .map
  else failPeek .expectedValue

/-- Reads a value by its first character. -/
def byFirst (read : Char → Reader α) : Reader α := located do
  match ← skipBlanks with
  | none => failPeek .endInValue
  | some c => read c

/-- A value that has to be a text. -/
def text : Reader String := byFirst fun c =>
  if c = '"' then skip *> stringBody else refuse "a string" c

/-- A value that has to be an integer of 64 bits with a sign. -/
def integer64 : Reader Int := byFirst fun c => do
  if c = '-' ∨ isDigit c then
    match ← numberAt c with
    | .integer n =>
      if n ∈ IntegerRange.signed64 then return n else mismatch (.value (.integer n) "i64")
    | .float x => mismatch (.type (.float x) "i64")
  else refuse "i64" c

/-- A value that may be null. -/
def optional (read : Reader α) : Reader (Option α) := do
  match ← skipBlanks with
  | some 'n' => do
    skip *> letters (literalTail 'n')
    return none
  | _ => return some (← read)

/-- A value that has to be a list. -/
def list (item : Reader α) : Reader (List α) := byFirst fun c =>
  if c = '[' then enclosed endList (items item) else refuse "a sequence" c

/-- A value that has to be a record: an object, or the list of its fields in order. -/
def record (expected : String) (ofList ofObject : Reader α) : Reader α := byFirst fun c =>
  if c = '[' then enclosed endList ofList
  else if c = '\x7b' then enclosed endObject ofObject
  else refuse expected c

/-- The next item of a list whose items are read one by one. -/
def item? (isFirst : Bool) (read : Reader α) : Reader (Option α) := do
  if ← hasItem isFirst then return some (← read) else return none

/-- An open bracket of a value that is passed over. -/
inductive Frame where
  | list
  | object
deriving DecidableEq, Repr

def Frame.closing : Frame → Char
  | .list => ']'
  | .object => '\x7d'

/-- Passes the name of a member inside an object, and nothing inside a list. -/
def skipName : Frame → Reader Unit
  | .list => pure ()
  | .object => do
    match ← skipBlanks with
    | some '"' => skip
    | some _ => failPeek .keyMustBeString
    | none => failPeek .endInObject
    skipString
    colon

/-- Passes closing brackets, up to the next value inside the frames that stay open. A comma is
expected after a value, but not after an opening bracket. -/
def skipClosing (afterValue : Bool) : List Frame → Reader (List Frame)
  | [] => pure []
  | frame :: outer => do
    match ← skipBlanks with
    | none => failPeek (if frame = .list then .endInList else .endInObject)
    | some c =>
      if c = ',' ∧ afterValue then
        skip
        skipName frame
        return frame :: outer
      else if c = frame.closing then
        skip
        skipClosing true outer
      else if afterValue then
        failPeek
          (if frame = .list then .expectedListCommaOrEnd else .expectedObjectCommaOrEnd)
      else
        skipName frame
        return frame :: outer

/-- Passes a scalar or an opening bracket, which is the frame that it opens. -/
def skipHead : Reader (Option Frame) := do
  match ← skipBlanks with
  | none => failPeek .endInValue
  | some c =>
    if c = 'n' ∨ c = 't' ∨ c = 'f' then
      skip *> letters (literalTail c)
      return none
    else if c = '-' then
      skip *> skipNumber
      return none
    else if isDigit c then
      skipNumber
      return none
    else if c = '"' then
      skip *> skipString
      return none
    else if c = '[' then
      skip
      return some .list
    else if c = '\x7b' then
      skip
      return some .object
    else failPeek .expectedValue

def skipValueFrom : Nat → List Frame → Reader Unit
  | 0, _ => failPeek .endInValue
  | fuel + 1, frames => do
    let opened ← skipHead
    let frames ← skipClosing opened.isNone (opened.toList ++ frames)
    if frames.isEmpty then return () else skipValueFrom fuel frames

/-- Passes a value. -/
def skipValue : Reader Unit := fun c => skipValueFrom (c.rest.length + 1) [] c

/-- Any value whose lists and objects are read by `nested`, which is absent where they would nest
too deep. -/
def valueWith (nested : Option (Reader Json)) : Reader Json := byFirst fun c => do
  if c = 'n' then
    skip *> letters (literalTail c)
    return .null
  else if c = 't' ∨ c = 'f' then
    skip *> letters (literalTail c)
    return .bool (c = 't')
  else if c = '-' ∨ isDigit c then return .number (← numberAt c)
  else if c = '"' then
    skip
    return .string (← stringBody)
  else if c = '[' ∨ c = '\x7b' then
    match nested with
    | none => failPeek .nestedTooDeep
    | some value =>
      if c = '[' then return .array (← enclosed endList (items value))
      else
        let step (read : List (String × Json)) (name : String) := do
          colon
          return insertSorted name (← value) read
        return .object (← enclosed endObject (members step []))
  else failPeek .expectedValue

/-- Any value of at most `depth` levels. -/
def value : (depth : Nat) → Reader Json
  | 0 => valueWith none
  | depth + 1 => valueWith (some (value depth))

end Reader

/-- The levels that a value may nest. -/
def greatestDepth : Nat := 127

/-- The value that a text holds. The members of an object are sorted by name, and of two members of
one name the later one counts. -/
def parse (text : String) : Except Fault Json :=
  Reader.run (Reader.value greatestDepth) text

end ModelShelf.Json
