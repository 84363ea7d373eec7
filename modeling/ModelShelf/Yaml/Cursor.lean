import ModelShelf.Text.Utf8
import ModelShelf.Yaml.Fault

/-!
Stepping through a YAML text: the classes of characters that the grammar knows, and a cursor that
keeps the rest of the text and the place where it begins.
-/

namespace ModelShelf.Yaml

/-- The characters a text may hold. -/
def isAllowed (c : Char) : Bool :=
  let n := c.toNat
  c = '\t' || c = '\n' || c = '\r' || (0x20 ≤ n && n ≤ 0x7E) || n = 0x85 ||
    (0xA0 ≤ n && n ≤ 0xFFFD) || 0x10000 ≤ n

def isBlank (c : Char) : Bool := c = ' ' || c = '\t'

def isBreak (c : Char) : Bool :=
  c = '\n' || c = '\r' || c = '\u0085' || c = '\u2028' || c = '\u2029'

def isSpacing (c : Char) : Bool := isBlank c || isBreak c

/-- The characters of anchors and of directives' names. -/
def isWordChar (c : Char) : Bool := c.isAlphanum || c = '_' || c = '-'

def isFlowIndicator (c : Char) : Bool :=
  c = ',' || c = '[' || c = ']' || c = '\x7b' || c = '\x7d'

/-- The value of a hexadecimal digit. -/
def hexValue? (c : Char) : Option Nat :=
  if '0' ≤ c && c ≤ '9' then some (c.toNat - '0'.toNat)
  else if 'a' ≤ c && c ≤ 'f' then some (c.toNat - 'a'.toNat + 10)
  else if 'A' ≤ c && c ≤ 'F' then some (c.toNat - 'A'.toNat + 10)
  else none

/-- The rest of a text and the place of its first character. -/
structure Cursor where
  rest : List Char
  mark : Mark
deriving Repr

/-- A step through a text: it moves the cursor, or the text is malformed. -/
abbrev Scan := EStateM Fault Cursor

namespace Cursor

/-- The character some way ahead, absent past the end. -/
def peek (c : Cursor) (ahead : Nat) : Option Char := c.rest[ahead]?

/-- Whether the character some way ahead is a blank, a break or the end. -/
def spacedAt (c : Cursor) (ahead : Nat) : Bool := (c.peek ahead).all isSpacing

def isEnd (c : Cursor) : Bool := c.rest.isEmpty

/-- Whether a mark of three characters begins a line here. -/
def atLineMark (c : Cursor) (mark : Char) : Bool :=
  c.mark.column = 0 && c.rest.take 3 == [mark, mark, mark] && c.spacedAt 3

/-- Whether a line begins here that starts or ends a document. -/
def atDocumentMark (c : Cursor) : Bool := c.atLineMark '-' || c.atLineMark '.'

/-- The place after a run of characters on the same line. -/
def after (m : Mark) (run : List Char) : Mark :=
  { m with
    index := m.index + Text.byteCount run
    column := m.column + run.length }

/-- Takes as many characters of a line. -/
def drop (c : Cursor) (n : Nat) : Cursor :=
  { rest := c.rest.drop n, mark := after c.mark (c.rest.take n) }

/-- Steps over a line break: the text that it stands for, and the cursor after it. -/
def dropBreak (c : Cursor) : List Char × Cursor :=
  let next (size : Nat) : Mark := ⟨c.mark.index + size, c.mark.line + 1, 0⟩
  match c.rest with
  | '\r' :: '\n' :: rest => (['\n'], ⟨rest, next 2⟩)
  | b :: rest =>
    if b = '\u2028' || b = '\u2029' then ([b], ⟨rest, next b.utf8Size⟩)
    else if isBreak b then (['\n'], ⟨rest, next b.utf8Size⟩)
    else ([], c)
  | [] => ([], c)

end Cursor

namespace Scan

def peek (ahead : Nat) : Scan (Option Char) := return (← get).peek ahead

def mark : Scan Mark := return (← get).mark

/-- Whether the next character is the given one. -/
def sees (c : Char) : Scan Bool := return (← get).peek 0 == some c

def skip (n : Nat) : Scan Unit := modify (·.drop n)

/-- Takes a run of characters of a class. No class holds line breaks. -/
def run (p : Char → Bool) : Scan (List Char) := do
  let taken := (← get).rest.takeWhile p
  skip taken.length
  return taken

def skipBlanks : Scan Unit := discard (run isBlank)

/-- Steps over the rest of a line. -/
def skipLine : Scan Unit := discard (run fun c => !isBreak c)

/-- Steps over a comment, if one begins here. -/
def skipComment : Scan Unit := do
  if ← sees '#' then skipLine

/-- Steps over a line break, if one is here, and gives the text that it stands for. -/
def lineBreak : Scan (List Char) := modifyGet Cursor.dropBreak

/-- The text is malformed here, within something that began at `start`. -/
def malformed (context : String) (start : Mark) (problem : String) : Scan α := do
  throw (.malformed problem (← mark) (some (context, start)))

end Scan

end ModelShelf.Yaml
