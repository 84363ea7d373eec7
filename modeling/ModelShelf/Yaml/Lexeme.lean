import ModelShelf.Yaml.Cursor
import ModelShelf.Yaml.Token

/-!
The tokens with a text of their own: directives, anchors and aliases, tags, and scalars in plain,
quoted and block style. Each reader stands at the first character of its token and leaves the
cursor after the last one.
-/

namespace ModelShelf.Yaml

namespace Scan

/-! ### Directives -/

def directive : String := "while scanning a directive"
def versionDirective : String := "while scanning a %YAML directive"
def tagDirective : String := "while scanning a %TAG directive"

/-- A number of at most nine digits. -/
def versionNumber (start : Mark) : Scan Nat := do
  let digits ← run Char.isDigit
  if 9 < digits.length then
    malformed versionDirective start "found extremely long version number"
  if digits.isEmpty then
    malformed versionDirective start "did not find expected version number"
  return digits.foldl (fun n d => n * 10 + (d.toNat - '0'.toNat)) 0

/-! ### Tags -/

/-- What a tag is part of, for messages. -/
structure TagContext where
  /-- A directive that declares a handle. -/
  declares : Bool
  start : Mark

namespace TagContext

def handleContext (t : TagContext) : String :=
  if t.declares then "while scanning a tag directive" else "while scanning a tag"

def textContext (t : TagContext) : String :=
  if t.declares then "while parsing a %TAG directive" else "while parsing a tag"

end TagContext

/-- The handle of a tag: a mark, and a word that another mark ends. -/
def tagHandle (t : TagContext) : Scan (List Char) := do
  if !(← sees '!') then malformed t.handleContext t.start "did not find expected '!'"
  skip 1
  let word ← run isWordChar
  if ← sees '!' then
    skip 1
    return '!' :: word ++ ['!']
  if t.declares && !word.isEmpty then
    malformed "while parsing a tag directive" t.start "did not find expected '!'"
  return '!' :: word

/-- The characters of a tag besides escapes. Inside angle brackets it may hold flow indicators. -/
def isTagChar (bracketed : Bool) (c : Char) : Bool :=
  isWordChar c || c ∈ ";/?:@&=+$.!~*'()".toList || (bracketed && (c = ',' || c = '[' || c = ']'))

/-- The number of bytes of a character, by its first byte. -/
def byteCount? (first : Nat) : Option Nat :=
  if first < 0x80 then some 1
  else if first / 0x20 = 6 then some 2
  else if first / 0x10 = 14 then some 3
  else if first / 8 = 30 then some 4
  else none

/-- One escaped byte: a percent sign and two hexadecimal digits. -/
def escapedByte (t : TagContext) : Scan Nat := do
  match (← peek 1).bind hexValue?, (← peek 2).bind hexValue? with
  | some high, some low =>
    if ← sees '%' then
      return high * 16 + low
  | _, _ => pure ()
  malformed t.textContext t.start "did not find URI escaped octet"

/-- The bytes of a character after the first one. -/
def trailingBytes (t : TagContext) : Nat → Scan (List Nat)
  | 0 => return []
  | n + 1 => do
    let byte ← escapedByte t
    if byte / 0x40 ≠ 2 then
      malformed t.textContext t.start "found an incorrect trailing UTF-8 octet"
    skip 3
    return byte :: (← trailingBytes t n)

/-- A character whose bytes are all escaped. -/
def escapedChar (t : TagContext) : Scan (List Char) := do
  let first ← escapedByte t
  match byteCount? first with
  | none => malformed t.textContext t.start "found an incorrect leading UTF-8 octet"
  | some count =>
    skip 3
    let rest ← trailingBytes t (count - 1)
    let bytes := (first :: rest).map UInt8.ofNat
    return ((String.fromUTF8? ⟨bytes.toArray⟩).map String.toList).getD []

def tagCharsFrom (t : TagContext) (bracketed : Bool) : Nat → List Char → Scan (List Char)
  | 0, read => return read
  | fuel + 1, read => do
    let plain ← run (isTagChar bracketed)
    if ← sees '%' then
      let c ← escapedChar t
      tagCharsFrom t bracketed fuel (read ++ plain ++ c)
    else
      return read ++ plain

/-- The text of a tag after what was already read of it. -/
def tagText (t : TagContext) (bracketed : Bool) (head : List Char) : Scan (List Char) := do
  let read ← tagCharsFrom t bracketed ((← get).rest.length + 1) []
  if head.isEmpty && read.isEmpty then
    malformed t.textContext t.start "did not find expected tag URI"
  return head.drop 1 ++ read

/-- A directive that declares a tag's handle. -/
def tagDeclaration (start : Mark) : Scan Token := do
  let t : TagContext := ⟨true, start⟩
  skipBlanks
  let handle ← tagHandle t
  if !((← peek 0).any isBlank) then
    malformed tagDirective start "did not find expected whitespace"
  skipBlanks
  let leading ← tagText t true []
  if !(← get).spacedAt 0 then
    malformed tagDirective start "did not find expected whitespace or line break"
  return .tagDirective (String.ofList handle) (String.ofList leading)

/-- A directive, its comment and its line break. -/
def directiveLine : Scan Placed := do
  let start ← mark
  skip 1
  let name ← run isWordChar
  if name.isEmpty then malformed directive start "could not find expected directive name"
  if !(← get).spacedAt 0 then
    malformed directive start "found unexpected non-alphabetical character"
  let token ←
    if name = "YAML".toList then do
      skipBlanks
      let major ← versionNumber start
      if !(← sees '.') then
        malformed versionDirective start "did not find expected digit or '.' character"
      skip 1
      pure (Token.versionDirective major (← versionNumber start))
    else if name = "TAG".toList then tagDeclaration start
    else malformed directive start "found unknown directive name"
  let finish ← mark
  skipBlanks
  skipComment
  if (← peek 0).any fun c => !isBreak c then
    malformed directive start "did not find expected comment or line break"
  discard lineBreak
  return ⟨token, start, finish⟩

/-! ### Anchors, aliases and tags of nodes -/

/-- The characters besides spacing that may follow a name. -/
def mayFollowName (c : Char) : Bool := isSpacing c || c ∈ "?:,]\x7d%@`".toList

/-- The name of an anchor or an alias. -/
def name (context : String) : Scan (String × Mark) := do
  let start ← mark
  skip 1
  let word ← run isWordChar
  if word.isEmpty || !((← peek 0).all mayFollowName) then
    malformed context start "did not find expected alphabetic or numeric character"
  return (String.ofList word, start)

def anchor : Scan Placed := do
  let (text, start) ← name "while scanning an anchor"
  return ⟨.anchor text, start, ← mark⟩

def reference : Scan Placed := do
  let (text, start) ← name "while scanning an alias"
  return ⟨.reference text, start, ← mark⟩

/-- The handle and the rest of a tag. A lone mark is a tag without a handle. -/
def tagParts (t : TagContext) : Scan (List Char × List Char) := do
  if (← peek 1) == some '<' then
    skip 2
    let text ← tagText t true []
    if !(← sees '>') then malformed t.handleContext t.start "did not find the expected '>'"
    skip 1
    return ([], text)
  else
    let handle ← tagHandle t
    if 1 < handle.length && handle.getLast? = some '!' then
      return (handle, ← tagText t false [])
    else
      let text ← tagText t false handle
      return if text.isEmpty then ([], ['!']) else (['!'], text)

def tag (inFlow : Bool) : Scan Placed := do
  let start ← mark
  let (handle, text) ← tagParts ⟨false, start⟩
  if !(← get).spacedAt 0 && !(inFlow && (← sees ',')) then
    malformed "while scanning a tag" start "did not find expected whitespace or line break"
  return ⟨.tag (String.ofList handle) (String.ofList text), start, ← mark⟩

/-! ### Spacing inside scalars -/

/-- The spacing between two words of a scalar. -/
structure Gap where
  /-- The blanks, as long as no line has ended. -/
  blanks : List Char
  /-- Whether a line has ended. -/
  broken : Bool
  /-- The first line break, if it counts. -/
  first : List Char
  /-- The other line breaks. -/
  others : List Char

namespace Gap

def none : Gap := ⟨[], false, [], []⟩

def isEmpty (g : Gap) : Bool := !g.broken && g.blanks.isEmpty

/-- A single line break becomes a space, and is dropped in front of others. -/
def text (g : Gap) : List Char :=
  if g.broken then
    if g.first = ['\n'] then (if g.others.isEmpty then [' '] else g.others)
    else g.first ++ g.others
  else g.blanks

end Gap

/-- Steps over one blank or line break. -/
def gapStep (g : Gap) : Scan Gap := do
  match ← peek 0 with
  | some c =>
    if isBlank c then
      skip 1
      return if g.broken then g else { g with blanks := g.blanks ++ [c] }
    else
      let text ← lineBreak
      return if g.broken then { g with others := g.others ++ text } else ⟨[], true, text, []⟩
  | _ => return g

/-- Steps over spacing. `check` may refuse a character of it. -/
def gapFrom (check : Gap → Scan Unit) : Nat → Gap → Scan Gap
  | 0, g => return g
  | fuel + 1, g => do
    if (← peek 0).any isSpacing then
      check g
      gapFrom check fuel (← gapStep g)
    else
      return g

def gap (check : Gap → Scan Unit) (g : Gap) : Scan Gap := do
  gapFrom check ((← get).rest.length + 1) g

/-! ### Quoted scalars -/

/-- What a character after a backslash stands for. -/
def escapeChar? : Char → Option Char
  | '0' => some '\x00'
  | 'a' => some '\x07'
  | 'b' => some '\x08'
  | 't' | '\t' => some '\t'
  | 'n' => some '\n'
  | 'v' => some '\x0b'
  | 'f' => some '\x0c'
  | 'r' => some '\r'
  | 'e' => some '\x1b'
  | ' ' => some ' '
  | '"' => some '"'
  | '/' => some '/'
  | '\\' => some '\\'
  | 'N' => some '\u0085'
  | '_' => some '\u00a0'
  | 'L' => some '\u2028'
  | 'P' => some '\u2029'
  | _ => none

/-- The hexadecimal digits that some characters after a backslash announce. -/
def escapeLength? : Char → Option Nat
  | 'x' => some 2
  | 'u' => some 4
  | 'U' => some 8
  | _ => none

def quotedContext : String := "while scanning a quoted scalar"
def escapeContext : String := "while parsing a quoted scalar"

/-- The number that the next hexadecimal digits write. -/
def hexNumber (start : Mark) (length : Nat) : Scan Nat := do
  let digits := (← get).rest.take length
  match digits.mapM hexValue? with
  | some values =>
    if values.length = length then
      return values.foldl (fun n v => n * 16 + v) 0
  | none => pure ()
  malformed escapeContext start "did not find expected hexdecimal number"

/-- An escape inside double quotes. -/
def escape (start : Mark) : Scan Char := do
  let code := (← peek 1).getD '\x01'
  match escapeChar? code, escapeLength? code with
  | some c, _ =>
    skip 2
    return c
  | none, some length =>
    skip 2
    let n ← hexNumber start length
    if (0xD800 ≤ n && n ≤ 0xDFFF) || 0x10FFFF < n then
      malformed escapeContext start "found invalid Unicode character escape code"
    skip length
    return Char.ofNat n
  | none, none => malformed escapeContext start "found unknown escape character"

/-- A word of a quoted scalar, last character first, and whether an escaped line break ends it. -/
def quotedWordFrom (quote : Char) (start : Mark) : Nat → List Char → Scan (List Char × Bool)
  | 0, read => return (read, false)
  | fuel + 1, read => do
    let c ← get
    match c.peek 0 with
    | none => return (read, false)
    | some first =>
      if isSpacing first then return (read, false)
      else if quote = '\'' && first = quote && c.peek 1 = some quote then
        skip 2
        quotedWordFrom quote start fuel (quote :: read)
      else if first = quote then return (read, false)
      else if quote = '"' && first = '\\' then
        if (c.peek 1).any isBreak then
          skip 1
          discard lineBreak
          return (read, true)
        else
          let e ← escape start
          quotedWordFrom quote start fuel (e :: read)
      else
        skip 1
        quotedWordFrom quote start fuel (first :: read)

/-- The words of a quoted scalar and the spacing between them, last character first. -/
def quotedFrom (quote : Char) (start : Mark) : Nat → List Char → Scan (List Char)
  | 0, read => return read
  | fuel + 1, read => do
    let c ← get
    if c.atDocumentMark then
      malformed quotedContext start "found unexpected document indicator"
    if c.isEnd then malformed quotedContext start "found unexpected end of stream"
    let (read, continued) ← quotedWordFrom quote start (c.rest.length + 1) read
    if ← sees quote then
      return read
    else
      let g ← gap (fun _ => pure ()) ⟨[], continued, [], []⟩
      quotedFrom quote start fuel (g.text.reverse ++ read)

def quoted (quote : Char) : Scan Placed := do
  let start ← mark
  skip 1
  let read ← quotedFrom quote start ((← get).rest.length + 1) []
  skip 1
  return ⟨.scalar .quoted (String.ofList read.reverse), start, ← mark⟩

/-! ### Plain scalars -/

def plainContext : String := "while scanning a plain scalar"

/-- Whether a plain scalar's word ends here. -/
def plainWordEnds (inFlow : Bool) (c : Cursor) : Bool :=
  match c.peek 0 with
  | none => true
  | some first =>
    isSpacing first || (first = ':' && c.spacedAt 1) || (inFlow && isFlowIndicator first)

/-- A word of a plain scalar, last character first. -/
def plainWordFrom (inFlow : Bool) (start : Mark) : Nat → List Char → Scan (List Char)
  | 0, read => return read
  | fuel + 1, read => do
    let c ← get
    if inFlow && c.peek 0 = some ':' &&
        (c.peek 1).any (fun f => f = '?' || isFlowIndicator f) then
      malformed plainContext start "found unexpected ':'"
    if plainWordEnds inFlow c then return read
    else
      skip 1
      plainWordFrom inFlow start fuel ((c.peek 0).toList ++ read)

/-- A plain scalar as far as it is read: its text, last character first, the place after its last
word and the spacing after that. -/
structure PlainText where
  read : List Char
  finish : Mark
  gap : Gap

/-- A tab may not stand where the indentation of a line belongs. -/
def refuseTab (start : Mark) (indent : Int) (g : Gap) : Scan Unit := do
  let c ← get
  if g.broken && c.mark.column < indent && c.peek 0 = some '\t' then
    malformed plainContext start "found a tab character that violates indentation"

def plainFrom (inFlow : Bool) (indent : Int) (start : Mark) : Nat → PlainText → Scan PlainText
  | 0, p => return p
  | fuel + 1, p => do
    let c ← get
    if c.atDocumentMark || c.peek 0 = some '#' then return p
    let word ← plainWordFrom inFlow start (c.rest.length + 1) []
    let finish ← mark
    let p : PlainText :=
      if word.isEmpty then p
      else ⟨word ++ p.gap.text.reverse ++ p.read, finish, Gap.none⟩
    if !((← peek 0).any isSpacing) then return p
    let g ← gap (refuseTab start indent) p.gap
    let p := { p with gap := g }
    if !inFlow && (← mark).column < indent then return p
    plainFrom inFlow indent start fuel p

/-- A plain scalar, and whether a line has ended after it. -/
def plain (inFlow : Bool) (indent : Int) : Scan (Placed × Bool) := do
  let start ← mark
  let p ← plainFrom inFlow indent start ((← get).rest.length + 1) ⟨[], start, Gap.none⟩
  return (⟨.scalar .plain (String.ofList p.read.reverse), start, p.finish⟩, p.gap.broken)

/-! ### Block scalars -/

def blockContext : String := "while scanning a block scalar"

/-- What becomes of the line breaks at the end of a block. -/
inductive Chomping where
  | clip
  | strip
  | keep
deriving DecidableEq

def chomping? : Scan (Option Chomping) := do
  if ← sees '+' then
    skip 1
    return some .keep
  else if ← sees '-' then
    skip 1
    return some .strip
  else return none

def indentation? (start : Mark) : Scan (Option Nat) := do
  match ← peek 0 with
  | some c =>
    if c = '0' then
      malformed blockContext start "found an indentation indicator equal to 0"
    else if c.isDigit then
      skip 1
      return some (c.toNat - '0'.toNat)
    else return none
  | none => return none

/-- The marks after a block's indicator, in either order. -/
def blockHeader (start : Mark) : Scan (Chomping × Option Nat) := do
  match ← chomping? with
  | some chomping => return (chomping, ← indentation? start)
  | none =>
    match ← indentation? start with
    | some indent => return ((← chomping?).getD .clip, some indent)
    | none => return (.clip, none)

/-- The empty lines of a block: their breaks, the widest indentation and the place after them. -/
structure EmptyLines where
  breaks : List Char
  widest : Nat
  finish : Mark

def emptyLinesFrom (start : Mark) (indent : Option Nat) : Nat → EmptyLines → Scan EmptyLines
  | 0, e => return e
  | fuel + 1, e => do
    let column := (← mark).column
    let spaces := ((← get).rest.takeWhile (· = ' ')).length
    skip (match indent with
      | none => spaces
      | some n => min spaces (n - column))
    let column := (← mark).column
    let e := { e with widest := max e.widest column }
    if indent.all (column < ·) && (← sees '\t') then
      malformed blockContext start
        "found a tab character where an indentation space is expected"
    if (← peek 0).any isBreak then
      let text ← lineBreak
      emptyLinesFrom start indent fuel { e with breaks := e.breaks ++ text, finish := ← mark }
    else
      return e

def emptyLines (start : Mark) (indent : Option Nat) : Scan EmptyLines := do
  emptyLinesFrom start indent ((← get).rest.length + 1) ⟨[], 0, ← mark⟩

/-- A block as far as it is read. -/
structure BlockText where
  /-- The lines, last character first. -/
  read : List Char
  /-- The break after the last line. -/
  ending : List Char
  /-- The breaks of the empty lines after it. -/
  trailing : List Char
  /-- Whether the last line began with a blank. -/
  blankLead : Bool
  finish : Mark

def blockFrom (folds : Bool) (start : Mark) (indent : Nat) : Nat → BlockText → Scan BlockText
  | 0, b => return b
  | fuel + 1, b => do
    if (← mark).column ≠ indent || (← get).isEnd then return b
    let blankLead := (← peek 0).any isBlank
    let joins := folds && b.ending = ['\n'] && !b.blankLead && !blankLead
    let between :=
      if joins then (if b.trailing.isEmpty then [' '] else b.trailing)
      else b.ending ++ b.trailing
    let line ← run fun c => !isBreak c
    let ending ← lineBreak
    let e ← emptyLines start (some indent)
    blockFrom folds start indent fuel
      ⟨line.reverse ++ between.reverse ++ b.read, ending, e.breaks, blankLead, e.finish⟩

/-- A block scalar inside a block of the given indentation. -/
def block (style : ScalarStyle) (outer : Int) : Scan Placed := do
  let start ← mark
  skip 1
  let (chomping, increment) ← blockHeader start
  skipBlanks
  skipComment
  if (← peek 0).any fun c => !isBreak c then
    malformed blockContext start "did not find expected comment or line break"
  discard lineBreak
  let given := increment.map fun n => (max outer 0).toNat + n
  let e ← emptyLines start given
  let indent := given.getD (max (max e.widest (outer + 1).toNat) 1)
  let b ← blockFrom (style = .folded) start indent ((← get).rest.length + 1)
    ⟨[], [], e.breaks, false, e.finish⟩
  let tail := match chomping with
    | .strip => []
    | .clip => b.ending
    | .keep => b.ending ++ b.trailing
  return ⟨.scalar style (String.ofList (b.read.reverse ++ tail)), start, b.finish⟩

end Scan

end ModelShelf.Yaml
