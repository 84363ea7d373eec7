import ModelShelf.Yaml.Lexeme

/-!
The tokens of a text in order. A token waits in a queue as long as a later indicator may show that
it is a key, because the tokens of the key and of its block then go in front of it. What is
malformed ends the tokens; those before it are still given.
-/

namespace ModelShelf.Yaml

/-- A token that is a key if an indicator follows on its line. -/
structure PendingKey where
  /-- Whether the indentation allows nothing but a key. -/
  required : Bool
  /-- The number of the token, counted from the start of the stream. -/
  number : Nat
  place : Mark

/-- The greatest number of bytes in a key. -/
def keySize : Nat := 1024

/-- A key has to end on its line and must not be too long. -/
def PendingKey.isStale (key : PendingKey) (place : Mark) : Bool :=
  key.place.line < place.line || key.place.index + keySize < place.index

/-- The state of reading tokens. -/
structure Lexer where
  cursor : Cursor
  /-- The tokens already given, last first, and how many they are. -/
  given : List Placed
  count : Nat
  queue : List Placed
  /-- The token that may be a key in the innermost collection. -/
  key : Option PendingKey
  /-- The same for the collections around it that are written in brackets. -/
  outerKeys : List (Option PendingKey)
  /-- Whether a key may begin here. -/
  keyAllowed : Bool
  /-- The column of the innermost block, below zero outside blocks. -/
  indent : Int
  outerIndents : List Int
  finished : Bool

namespace Lexer

/-- A step of reading tokens. -/
abbrev Step := EStateM Fault Lexer

def ofText (text : String) : Lexer where
  cursor := ⟨text.toList, Mark.start⟩
  given := []
  count := 0
  queue := [⟨.streamStart, Mark.start, Mark.start⟩]
  key := none
  outerKeys := []
  keyAllowed := true
  indent := -1
  outerIndents := []
  finished := false

def inFlow (l : Lexer) : Bool := !l.outerKeys.isEmpty

/-- The number of the next token. -/
def nextNumber (l : Lexer) : Nat := l.count + l.queue.length

def place (l : Lexer) : Mark := l.cursor.mark

/-- Runs a reader on the text. -/
def scan (read : Scan α) : Step α := fun l =>
  match read l.cursor with
  | .ok a c => .ok a { l with cursor := c }
  | .error fault c => .error fault { l with cursor := c }

/-- The text is malformed here. -/
def refuse (problem : String) : Step α := do
  throw (.malformed problem (← get).place none)

def noKey (key : PendingKey) (place : Mark) : Fault :=
  .malformed "could not find expected ':'" place (some ("while scanning a simple key", key.place))

def push (t : Placed) : Step Unit := modify fun l => { l with queue := l.queue ++ [t] }

/-- Puts a token in front of the one with a number. -/
def pushAt (number : Nat) (t : Placed) : Step Unit := modify fun l =>
  { l with queue := l.queue.insertIdx (number - l.count) t }

/-- A token of so many characters. -/
def pushIndicator (token : Token) (size : Nat) : Step Unit := do
  let start := (← get).place
  scan (Scan.skip size)
  push ⟨token, start, (← get).place⟩

/-- The keys that are still possible at a place. -/
def stillPossible (place : Mark) : Option PendingKey → Except Fault (Option PendingKey)
  | none => .ok none
  | some key =>
    if key.isStale place then
      if key.required then .error (noKey key place) else .ok none
    else .ok (some key)

/-- Forgets the keys that are no longer possible, the outermost first. -/
def forgetStale : Step Unit := do
  let l ← get
  match l.outerKeys.reverse.mapM (stillPossible l.place), stillPossible l.place l.key with
  | .ok outer, .ok key => set { l with outerKeys := outer.reverse, key }
  | .error fault, _ | _, .error fault => throw fault

/-- The innermost collection has no key here. -/
def dropKey : Step Unit := do
  let l ← get
  match l.key with
  | some key => if key.required then throw (noKey key l.place)
  | none => pure ()
  set { l with key := none }

/-- The next token may be a key. -/
def markKey : Step Unit := do
  if (← get).keyAllowed then
    dropKey
    modify fun l => { l with
      key := some
        ⟨!l.inFlow && l.indent == l.place.column, l.nextNumber, l.place⟩ }

def allowKey (allowed : Bool) : Step Unit := modify fun l => { l with keyAllowed := allowed }

/-- Begins a block at a column, unless one of that column is open. -/
def openBlock (column : Nat) (number : Nat) (token : Token) (place : Mark) : Step Unit := do
  let l ← get
  if !l.inFlow && l.indent < column then
    set { l with indent := column, outerIndents := l.indent :: l.outerIndents }
    pushAt number ⟨token, place, place⟩

/-- The tokens that end blocks, and the indentation after them. -/
def closed (column : Int) (place : Mark) : Int → List Int → List Placed × Int × List Int
  | indent, [] => ([], indent, [])
  | indent, outer :: rest =>
    if column < indent then
      let (ends, indent, rest) := closed column place outer rest
      (⟨.blockEnd, place, place⟩ :: ends, indent, rest)
    else ([], indent, outer :: rest)

/-- Ends the blocks that lie to the right of a column. -/
def closeBlocks (column : Int) : Step Unit := modify fun l =>
  if l.inFlow then l
  else
    let (ends, indent, rest) := closed column l.place l.indent l.outerIndents
    { l with queue := l.queue ++ ends, indent, outerIndents := rest }

/-- Steps over spacing and comments before the next token. Tabs count as spacing only where no
block can begin. -/
def skipSpacingFrom : Nat → Step Unit
  | 0 => pure ()
  | fuel + 1 => do
    let l ← get
    if l.place.column = 0 && l.cursor.peek 0 = some '\ufeff' then scan (Scan.skip 1)
    let tabs := l.inFlow || !l.keyAllowed
    discard <| scan (Scan.run fun c => c = ' ' || (tabs && c = '\t'))
    scan Scan.skipComment
    if ((← get).cursor.peek 0).any isBreak then
      discard <| scan Scan.lineBreak
      modify fun l => if l.inFlow then l else { l with keyAllowed := true }
      skipSpacingFrom fuel

def endStream : Step Unit := do
  modify fun l =>
    let m := l.place
    if m.column = 0 then l
    else { l with cursor := { l.cursor with mark := { m with line := m.line + 1, column := 0 } } }
  closeBlocks (-1)
  dropKey
  allowKey false
  let place := (← get).place
  push ⟨.streamEnd, place, place⟩
  modify fun l => { l with finished := true }

/-- What stands between documents ends all blocks. -/
def leaveDocument : Step Unit := do
  closeBlocks (-1)
  dropKey
  allowKey false

def documentMark (token : Token) : Step Unit := do
  leaveDocument
  pushIndicator token 3

def directive : Step Unit := do
  leaveDocument
  push (← scan Scan.directiveLine)

def openFlow (token : Token) : Step Unit := do
  markKey
  modify fun l => { l with outerKeys := l.key :: l.outerKeys, key := none }
  allowKey true
  pushIndicator token 1

def closeFlow (token : Token) : Step Unit := do
  dropKey
  modify fun l =>
    match l.outerKeys with
    | [] => l
    | key :: outer => { l with key, outerKeys := outer }
  allowKey false
  pushIndicator token 1

def flowEntry : Step Unit := do
  dropKey
  allowKey true
  pushIndicator .flowEntry 1

/-- An indicator that begins a block needs a place where a key may begin. -/
def beginBlock (token : Token) (problem : String) : Step Unit := do
  let l ← get
  if !l.inFlow then
    if !l.keyAllowed then refuse problem
    openBlock l.place.column l.nextNumber token l.place

def blockEntry : Step Unit := do
  beginBlock .blockSequenceStart "block sequence entries are not allowed in this context"
  dropKey
  allowKey true
  pushIndicator .blockEntry 1

def explicitKey : Step Unit := do
  beginBlock .blockMappingStart "mapping keys are not allowed in this context"
  dropKey
  allowKey (!(← get).inFlow)
  pushIndicator .key 1

def value : Step Unit := do
  match (← get).key with
  | some key =>
    pushAt key.number ⟨.key, key.place, key.place⟩
    openBlock key.place.column key.number .blockMappingStart key.place
    modify fun l => { l with key := none }
    allowKey false
  | none =>
    beginBlock .blockMappingStart "mapping values are not allowed in this context"
    allowKey (!(← get).inFlow)
  pushIndicator .value 1

/-- A token with a text of its own, which may be a key. -/
def lexeme (read : Scan Placed) : Step Unit := do
  markKey
  allowKey false
  push (← scan read)

def block (style : ScalarStyle) : Step Unit := do
  dropKey
  allowKey true
  push (← scan (Scan.block style (← get).indent))

def plain : Step Unit := do
  markKey
  allowKey false
  let l ← get
  let (token, broken) ← scan (Scan.plain l.inFlow (l.indent + 1))
  push token
  if broken then allowKey true

/-- Whether a plain scalar may begin here. -/
def plainBegins (l : Lexer) (first : Char) : Bool :=
  !(isSpacing first || isFlowIndicator first || first ∈ "-?:#&*!|>'\"%@`".toList) ||
    (first = '-' && !(l.cursor.peek 1).any isBlank) ||
    (!l.inFlow && (first = '?' || first = ':') && !l.cursor.spacedAt 1)

/-- The tokens that the next character begins. -/
def tokenAt (l : Lexer) (first : Char) : Step Unit :=
  let c := l.cursor
  if c.mark.column = 0 && first = '%' then directive
  else if c.atLineMark '-' then documentMark .documentStart
  else if c.atLineMark '.' then documentMark .documentEnd
  else if first = '[' then openFlow .flowSequenceStart
  else if first = '\x7b' then openFlow .flowMappingStart
  else if first = ']' then closeFlow .flowSequenceEnd
  else if first = '\x7d' then closeFlow .flowMappingEnd
  else if first = ',' then flowEntry
  else if first = '-' && c.spacedAt 1 then blockEntry
  else if first = '?' && (l.inFlow || c.spacedAt 1) then explicitKey
  else if first = ':' && (l.inFlow || c.spacedAt 1) then value
  else if first = '*' then lexeme Scan.reference
  else if first = '&' then lexeme Scan.anchor
  else if first = '!' then lexeme (Scan.tag l.inFlow)
  else if first = '|' && !l.inFlow then block .literal
  else if first = '>' && !l.inFlow then block .folded
  else if first = '\'' || first = '"' then lexeme (Scan.quoted first)
  else if plainBegins l first then plain
  else
    throw (.malformed "found character that cannot start any token" c.mark
      (some ("while scanning for the next token", c.mark)))

/-- Reads on until there is another token. -/
def fetch : Step Unit := do
  skipSpacingFrom ((← get).cursor.rest.length + 1)
  forgetStale
  closeBlocks (← get).place.column
  let l ← get
  match l.cursor.peek 0 with
  | none => endStream
  | some first => tokenAt l first

/-- The least number of a token that may still become a key. -/
def leastPending (l : Lexer) : Option Nat :=
  ((l.key :: l.outerKeys).filterMap (Option.map PendingKey.number)).min?

/-- Gives the tokens that can no longer become keys. -/
def give : Step Unit := do
  if !(← get).queue.isEmpty then
    forgetStale
    modify fun l =>
      let ready := match l.leastPending with
        | none => l.queue.length
        | some number => number - l.count
      { l with
        given := (l.queue.take ready).reverse ++ l.given
        count := l.count + (l.queue.take ready).length
        queue := l.queue.drop ready }

def runFrom : Nat → Step Unit
  | 0 => pure ()
  | fuel + 1 => do
    give
    if !(← get).finished then
      fetch
      runFrom fuel

end Lexer

/-- The tokens of a text up to its end or up to a fault. -/
structure TokenStream where
  tokens : List Placed
  fault : Option Fault

namespace TokenStream

/-- The place of the first character that is not allowed, in bytes. -/
def findUnreadable (index : Nat) : List Char → Option Nat
  | [] => none
  | c :: rest => if isAllowed c then findUnreadable (index + c.utf8Size) rest else some index

def ofText (text : String) : TokenStream :=
  match findUnreadable 0 text.toList with
  | some index => ⟨[], some (.unreadable index)⟩
  | none =>
    match (Lexer.runFrom (text.length + 2) *> Lexer.give).run (Lexer.ofText text) with
    | .ok _ l => ⟨l.given.reverse, none⟩
    | .error fault l => ⟨l.given.reverse, some fault⟩

end TokenStream

end ModelShelf.Yaml
