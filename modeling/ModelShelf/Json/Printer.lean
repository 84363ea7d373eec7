import ModelShelf.Json.Basic
import ModelShelf.Text.Quoted

/-!
JSON as text: on one line, compact or with blanks after the separators and every character beyond
ASCII escaped, or over several indented lines.
-/

namespace ModelShelf.Json

open Number Text

/-- Numbers are positional from `1e-5` up to `1e15` and have a signed exponent beyond. -/
def numberStyle : DecimalStyle := ⟨-5, 15, true⟩

def floatText (x : Binary64) : String :=
  if x.isFinite then numberStyle.spellNumber x else "null"

def numeralText : Numeral → String
  | .integer n => toString n
  | .float x => floatText x

/-- The four-digit escape of a UTF-16 unit. -/
def unitEscape (unit : Nat) : List Char := '\\' :: 'u' :: hexPadded 4 unit

/-- The form of a character that every writer escapes: quotes, backslashes and controls. -/
def requiredEscape? (c : Char) : Option (List Char) :=
  if c = '"' then some ['\\', '"']
  else if c = '\\' then some ['\\', '\\']
  else if c = '\x08' then some ['\\', 'b']
  else if c = '\t' then some ['\\', 't']
  else if c = '\n' then some ['\\', 'n']
  else if c = '\x0c' then some ['\\', 'f']
  else if c = '\r' then some ['\\', 'r']
  else if c < ' ' then some (unitEscape c.toNat)
  else none

/-- A character as one or two escaped UTF-16 units. -/
def utf16Escape (c : Char) : List Char :=
  let n := c.toNat
  if n < 0x10000 then unitEscape n
  else
    unitEscape (0xD800 + (n - 0x10000) / 0x400) ++ unitEscape (0xDC00 + (n - 0x10000) % 0x400)

/-- How JSON is laid out on one line. -/
structure Style where
  comma : String
  colon : String
  /-- Whether characters beyond ASCII are escaped. -/
  asciiOnly : Bool

/-- No blanks, and characters beyond ASCII as they are. -/
def compact : Style := ⟨",", ":", false⟩

/-- A blank after each separator, and ASCII characters only. -/
def spaced : Style := ⟨", ", ": ", true⟩

def Style.charForm (style : Style) (c : Char) : List Char :=
  match requiredEscape? c with
  | some escape => escape
  | none => if style.asciiOnly && '\x7f' < c then utf16Escape c else [c]

def Style.stringChars (style : Style) (s : List Char) : List Char :=
  '"' :: (s.flatMap style.charForm ++ ['"'])

def Style.stringText (style : Style) (s : String) : String :=
  String.ofList (style.stringChars s.toList)

mutual

/-- A value on one line. -/
def render (style : Style) : Json → String
  | .null => "null"
  | .bool b => if b then "true" else "false"
  | .number n => numeralText n
  | .string s => style.stringText s
  | .array items => "[" ++ style.comma.intercalate (renderItems style items) ++ "]"
  | .object members => "\x7b" ++ style.comma.intercalate (renderMembers style members) ++ "\x7d"

def renderItems (style : Style) : List Json → List String
  | [] => []
  | item :: rest => render style item :: renderItems style rest

def renderMembers (style : Style) : List (String × Json) → List String
  | [] => []
  | (name, value) :: rest =>
    (style.stringText name ++ style.colon ++ render style value) :: renderMembers style rest

end

def newline (depth : Nat) : String := "\n" ++ String.ofList (List.replicate (2 * depth) ' ')

/-- Items between brackets, each on a line of its own. -/
def block (depth : Nat) (opening closing : String) (items : List String) : String :=
  if items.isEmpty then opening ++ closing
  else
    opening ++ newline (depth + 1) ++ ("," ++ newline (depth + 1)).intercalate items ++
      newline depth ++ closing

mutual

/-- A value over several lines, each level indented by two blanks. -/
def renderIndented (depth : Nat) : Json → String
  | .array items => block depth "[" "]" (indentItems (depth + 1) items)
  | .object members => block depth "\x7b" "\x7d" (indentMembers (depth + 1) members)
  | .null => "null"
  | .bool b => if b then "true" else "false"
  | .number n => numeralText n
  | .string s => compact.stringText s

def indentItems (depth : Nat) : List Json → List String
  | [] => []
  | item :: rest => renderIndented depth item :: indentItems depth rest

def indentMembers (depth : Nat) : List (String × Json) → List String
  | [] => []
  | (name, value) :: rest =>
    (compact.stringText name ++ ": " ++ renderIndented depth value) :: indentMembers depth rest

end

end ModelShelf.Json
