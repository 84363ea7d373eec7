import ModelShelf.Yaml.Cursor
import ModelShelf.Yaml.Plain

/-!
How the text of a scalar may be written. A text that would read back as something else is quoted;
a text with line breaks is a literal block where it can be one, and one with special characters is
escaped inside double quotes.
-/

namespace ModelShelf.Yaml

/-- The ways to write a scalar. -/
inductive ScalarForm where
  | plain
  | single
  | double
  | literal
deriving DecidableEq, Repr

/-- The characters that are written as they are. -/
def isPrintable (c : Char) : Bool :=
  let n := c.toNat
  c = '\n' || (0x20 ≤ n && n ≤ 0x7E) || (0xA0 ≤ n && n ≤ 0xFFFD && n ≠ 0xFEFF) || 0x10000 ≤ n

/-- Whether a character, or the end of the text, separates words. -/
def separates (c : Option Char) : Bool := c.all fun c => isSpacing c || c = '\x00'

/-- Whether a character would be taken for an indicator: in front of a text, or inside it. -/
def isIndicator (previous : Option Char) (c : Char) (next : Option Char) : Bool :=
  match previous with
  | none => c ∈ "#,[]\x7b\x7d&*!|>'\"%@`".toList || (c ∈ "?:-".toList && separates next)
  | some p => (c = ':' && separates next) || (c = '#' && separates (some p))

/-- Whether any character satisfies a test that also looks at its neighbours. -/
def anyBetween (test : Option Char → Char → Option Char → Bool) (previous : Option Char) :
    List Char → Bool
  | [] => false
  | c :: rest => test previous c rest.head? || anyBetween test (some c) rest

/-- Whether two characters of given classes stand side by side. -/
def anyAdjacent (first second : Char → Bool) : List Char → Bool :=
  anyBetween (fun _ c next => first c && next.any second) none

namespace ScalarForm

def isSpace (c : Char) : Bool := c = ' '

def isMultiline (s : List Char) : Bool := s.any isBreak

def hasSpecial (s : List Char) : Bool := !s.all isPrintable

/-- A space before a line break would be lost in every form but one. -/
def hasTrailingBlank (s : List Char) : Bool := anyAdjacent isSpace isBreak s

def beginsDocumentMark (s : List Char) : Bool :=
  "---".toList.isPrefixOf s || "...".toList.isPrefixOf s

/-- Outside brackets only, which is where all scalars are written. -/
def plainAllowed (s : List Char) : Bool :=
  s.isEmpty ||
    !(s.head?.any isSpace || s.getLast?.any isSpace || isMultiline s || hasSpecial s ||
      beginsDocumentMark s || anyBetween isIndicator none s)

def singleAllowed (s : List Char) : Bool :=
  !(anyAdjacent isBreak isSpace s || hasTrailingBlank s || hasSpecial s)

def literalAllowed (s : List Char) : Bool :=
  !(s.isEmpty || s.getLast?.any isSpace || hasTrailingBlank s || hasSpecial s)

/-- The form in which a wanted form can be carried out. A key before its value on one line must not
be empty or a block. -/
def settle (wanted : ScalarForm) (isKey : Bool) (s : List Char) : ScalarForm :=
  let quoted := if singleAllowed s then single else double
  match wanted with
  | plain => if plainAllowed s && !(isKey && s.isEmpty) then plain else quoted
  | single => quoted
  | double => double
  | literal => if literalAllowed s && !isKey then literal else double

/-- The form that is wanted for a text: one that reads back as a text. -/
def ofText (s : String) : ScalarForm :=
  if s.toList.contains '\n' then literal
  else match Scalar.ofPlain s with
    | .string _ => if Plain.isZeroPadded s.toList then single else plain
    | _ => single

end ScalarForm

end ModelShelf.Yaml
