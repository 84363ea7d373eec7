import ModelShelf.Text.Quoted
import ModelShelf.Text.Utf8
import ModelShelf.Yaml.ScalarForm

/-!
Writing values as YAML. Nested values are indented by two blanks, but a sequence below a key is not
indented; lines are not folded. A key that is short and of one line stands before its value on the
same line.
-/

namespace ModelShelf.Yaml

open Number Text

/-- Why a value cannot be written. -/
inductive PrintFault where
  /-- A tagged value carries a tag again. -/
  | nestedTags
  /-- The only key of a mapping is tagged, or a mapping that has itself only one key. -/
  | loneKey
deriving DecidableEq, Repr

def PrintFault.message : PrintFault → String
  | .nestedTags => "serializing nested enums in YAML is not supported yet"
  | .loneKey => "expected SCALAR, SEQUENCE-START, MAPPING-START, or ALIAS"

/-- A text that is being written. -/
structure Page where
  /-- The characters written, last first. -/
  written : List Char
  column : Nat
  /-- Whether the last thing written separates what follows. -/
  spaced : Bool
  /-- Whether the line holds nothing but indentation and indicators that belong to it. -/
  fresh : Bool

namespace Page

def blank : Page := ⟨[], 0, true, true⟩

def put (c : Char) (p : Page) : Page :=
  { p with written := c :: p.written, column := p.column + 1 }

def puts (s : List Char) (p : Page) : Page := s.foldl (fun p c => p.put c) p

/-- Ends the line with a break of the given kind. -/
def putBreak (c : Char) (p : Page) : Page := { p with written := c :: p.written, column := 0 }

/-- Goes to a column, on a new line unless this one is fresh. -/
def indentTo (column : Nat) (p : Page) : Page :=
  let p :=
    if !p.fresh || column < p.column || (p.column = column && !p.spaced) then p.putBreak '\n'
    else p
  { p.puts (List.replicate (column - p.column) ' ') with spaced := true, fresh := true }

def space (p : Page) : Page := if p.spaced then p else p.put ' '

/-- Writes an indicator. One that belongs to the indentation keeps a fresh line fresh. -/
def indicator (s : List Char) (separated separates indents : Bool) (p : Page) : Page :=
  let p := (if separated then p.space else p).puts s
  { p with spaced := separates, fresh := p.fresh && indents }

/-- The line goes on after a scalar. -/
def ended (p : Page) : Page := { p with spaced := false, fresh := false }

/-- Writes text in which line breaks may occur. After breaks the line is indented first. -/
def body (column : Nat) (doubled : Char → Bool) (extra : Bool) :
    Bool → List Char → Page → Bool × Page
  | broken, [], p => (broken, p)
  | broken, c :: rest, p =>
    if isBreak c then
      let p := if extra && !broken && c = '\n' then p.putBreak '\n' else p
      body column doubled extra true rest { p.putBreak c with fresh := true }
    else
      let p := if broken then p.indentTo column else p
      let p := if doubled c then p.put c else p
      body column doubled extra false rest { p.put c with fresh := false }

def plain (s : List Char) (p : Page) : Page :=
  ((if s.isEmpty then p else p.space).puts s).ended

def single (column : Nat) (s : List Char) (p : Page) : Page :=
  let p := p.indicator ['\''] true false false
  let (broken, p) := body column (· = '\'') true false s p
  let p := if broken then p.indentTo column else p
  (p.indicator ['\''] false false false).ended

/-- The letter of an escape, if a character has one. -/
def escapeLetter? : Char → Option Char
  | '\x00' => some '0'
  | '\x07' => some 'a'
  | '\x08' => some 'b'
  | '\t' => some 't'
  | '\n' => some 'n'
  | '\x0b' => some 'v'
  | '\x0c' => some 'f'
  | '\r' => some 'r'
  | '\x1b' => some 'e'
  | '"' => some '"'
  | '\\' => some '\\'
  | '\u0085' => some 'N'
  | '\u00a0' => some '_'
  | '\u2028' => some 'L'
  | '\u2029' => some 'P'
  | _ => none

def upperHex (width n : Nat) : List Char := (hexPadded width n).map Char.toUpper

def escaped (c : Char) : List Char :=
  match escapeLetter? c with
  | some letter => ['\\', letter]
  | none =>
    let n := c.toNat
    if n ≤ 0xFF then '\\' :: 'x' :: upperHex 2 n
    else if n ≤ 0xFFFF then '\\' :: 'u' :: upperHex 4 n
    else '\\' :: 'U' :: upperHex 8 n

def needsEscape (c : Char) : Bool := !isPrintable c || isBreak c || c = '"' || c = '\\'

def double (s : List Char) (p : Page) : Page :=
  let p := p.indicator ['"'] true false false
  let p := p.puts (s.flatMap fun c => if needsEscape c then escaped c else [c])
  (p.indicator ['"'] false false false).ended

/-- The marks of a literal block: its indentation, if the text begins with spacing, and what
becomes of the line breaks at its end. -/
def literalHints (s : List Char) : List Char :=
  let indentation := if s.head?.any fun c => c = ' ' || isBreak c then ['2'] else []
  let ending := match s.reverse with
    | [] => ['-']
    | last :: before =>
      if !isBreak last then ['-']
      else if before.head?.all isBreak then ['+']
      else []
  indentation ++ ending

def literal (column : Nat) (s : List Char) (p : Page) : Page :=
  let p := p.indicator ['|'] true false false
  let p := (literalHints s).foldl (fun p c => p.indicator [c] false false false) p
  let p := { p.putBreak '\n' with spaced := true, fresh := true }
  (body column (fun _ => false) false true s p).2

def scalar (form : ScalarForm) (column : Nat) (s : List Char) (p : Page) : Page :=
  match form with
  | .plain => p.plain s
  | .single => p.single column s
  | .double => p.double s
  | .literal => p.literal column s

end Page

namespace Value

/-- The numbers in the written text have a point or an exponent. -/
def numberStyle : DecimalStyle := ⟨-5, 15, false⟩

def floatText (x : Binary64) : String :=
  if x.isNan then ".nan"
  else if x.isInfinite then (if x.isNegative then "-.inf" else ".inf")
  else numberStyle.spellNumber x

/-- The text and the wanted form of a value that is a scalar. -/
def scalarText? : Value → Option (String × ScalarForm)
  | .null => some ("null", .plain)
  | .bool b => some (if b then "true" else "false", .plain)
  | .integer n => some (toString n, .plain)
  | .float x => some (floatText x, .plain)
  | .string s => some (s, .ofText s)
  | .sequence _ | .mapping _ | .tagged .. => none

/-- The characters of a tag that need no escape. -/
def isTagChar (c : Char) : Bool := isWordChar c || c ∈ ";/?:@&=+$,.~*'()[]".toList

def tagEscape (c : Char) : List Char :=
  if isTagChar c then [c]
  else (String.singleton c).toUTF8.toList.flatMap fun b => '%' :: Page.upperHex 2 b.toNat

/-- A tag as it is written, after the mark that begins it. -/
def tagText (tag : String) : List Char :=
  let full := if isLocalTag tag then tag.toList else '!' :: tag.toList
  match full.drop 1 with
  | [] => "!<".toList ++ tagEscape '!' ++ ['>']
  | rest => '!' :: rest.flatMap tagEscape

def writeTag (tag : Option String) (p : Page) : Page :=
  match tag with
  | none => p
  | some tag => p.indicator (tagText tag) true false false

/-- The greatest number of bytes in a key on the line of its value. -/
def greatestKey : Nat := 128

/-- Whether a key stands before its value on one line. -/
def isShortKey (key : Value) : Bool :=
  let (tag, key) := match key with
    | .tagged tag inner => (tag.toList ++ (if isLocalTag tag then [] else ['!']), inner)
    | key => ([], key)
  let short (s : List Char) : Bool := byteCount tag + byteCount s ≤ greatestKey
  match key with
  | .sequence items => items.isEmpty && short []
  | .mapping entries => entries.isEmpty && short []
  | .tagged .. => false
  | scalar =>
    match scalar.scalarText? with
    | some (s, _) => !ScalarForm.isMultiline s.toList && short s.toList
    | none => false

/-- The column below an indentation, where none stands for the outside of the document. -/
def deeper (indent : Option Nat) (outermost : Nat) : Nat :=
  match indent with
  | none => outermost
  | some n => n + 2

/-- Whether a value, as the only key of a mapping, would be taken for the mapping's tag. -/
def isLone : Value → Bool
  | .tagged .. => true
  | .mapping entries => entries.length = 1
  | _ => false

mutual

/-- Writes a value: with the tag in front of it, at the indentation of what is around it, knowing
whether it is part of a mapping and whether it is a key before its value. -/
def write (tag : Option String) (indent : Option Nat) (inMapping isKey : Bool) (value : Value)
    (p : Page) : Except PrintFault Page :=
  match value with
  | .sequence [] => .ok (((writeTag tag p).indicator ['['] true true false).indicator
      [']'] false false false)
  | .sequence items =>
    let p := writeTag tag p
    let column :=
      if inMapping && !p.fresh then indent.getD 0 else deeper indent 0
    writeItems column items p
  | .mapping [] => .ok (((writeTag tag p).indicator ['\x7b'] true true false).indicator
      ['\x7d'] false false false)
  | .mapping entries =>
    if tag.isNone && entries.length = 1 && entries.any (fun e => isLone e.1) then .error .loneKey
    else writeEntries (deeper indent 0) entries (writeTag tag p)
  | .tagged own inner => if tag.isSome then .error .nestedTags
    else write (some own) indent inMapping isKey inner p
  | .null => .ok (scalarOf "null" .plain)
  | .bool b => .ok (scalarOf (if b then "true" else "false") .plain)
  | .integer n => .ok (scalarOf (toString n) .plain)
  | .float x => .ok (scalarOf (floatText x) .plain)
  | .string s => .ok (scalarOf s (.ofText s))
where
  scalarOf (s : String) (wanted : ScalarForm) : Page :=
    (writeTag tag p).scalar (wanted.settle isKey s.toList) (deeper indent 2) s.toList

def writeItems (column : Nat) (items : List Value) (p : Page) : Except PrintFault Page :=
  match items with
  | [] => .ok p
  | item :: rest =>
    let p := (p.indentTo column).indicator ['-'] true false true
    match write none (some column) false false item p with
    | .ok p => writeItems column rest p
    | .error fault => .error fault

def writeEntries (column : Nat) (entries : List (Value × Value)) (p : Page) :
    Except PrintFault Page :=
  match entries with
  | [] => .ok p
  | (key, item) :: rest =>
    let short := isShortKey key
    let p := p.indentTo column
    let p := if short then p else p.indicator ['?'] true false true
    match write none (some column) true short key p with
    | .error fault => .error fault
    | .ok p =>
      let p :=
        if short then p.indicator [':'] false false false
        else (p.indentTo column).indicator [':'] true false true
      match write none (some column) true false item p with
      | .error fault => .error fault
      | .ok p => writeEntries column rest p

end

/-- The text of a document whose root is the given value. -/
def toText (value : Value) : Except PrintFault String :=
  (write none none false false value Page.blank).map fun p =>
    String.ofList (p.indentTo 0).written.reverse

end Value

end ModelShelf.Yaml
