import ModelShelf.Yaml.Node
import ModelShelf.Yaml.TokenStream

/-!
The document that a text's tokens form. The nodes read so far are kept when the tokens end in the
middle of one, with a broken node at that point.
-/

namespace ModelShelf.Yaml

/-- The state of reading nodes. -/
structure Grammar where
  tokens : List Placed
  /-- Why there are no more tokens. -/
  fault : Option Fault
  /-- What the handles of tags stand for. -/
  handles : List (String × String)
  /-- The names of anchors and their numbers, last first. -/
  anchors : List (String × Nat)

/-- A step through the tokens of a text. -/
abbrev Parse := EStateM Fault Grammar

namespace Parse

def peek : Parse Placed := do
  let g ← get
  match g.tokens with
  | t :: _ => return t
  | [] => throw (g.fault.getD .noDocument)

def skip : Parse Unit := modify fun g => { g with tokens := g.tokens.drop 1 }

def refuse (problem : String) (place : Mark) : Parse α := throw (.malformed problem place none)

def refuseWithin (context : String) (start : Mark) (problem : String) (place : Mark) :
    Parse α := throw (.malformed problem place (some (context, start)))

/-- Ends the tokens at a fault, with an answer for what was read before it. -/
def attempt (partly : Fault → α) (read : Parse α) : Parse α :=
  tryCatch read fun fault => do
    modify fun g => { g with tokens := [], fault := some fault }
    return partly fault

/-! ### Properties of nodes -/

/-- A new anchor takes as its number how many names there are. -/
def newAnchor (name : String) : Parse Nat := modifyGet fun g =>
  let number := g.anchors.length
  (number, { g with anchors := (name, number) :: g.anchors.filter fun a => a.1 ≠ name })

/-- The properties of a node as they are written. -/
structure Written where
  anchor : Option String
  tag : Option (String × String × Mark)

def writtenFrom : Nat → Written → Parse Written
  | 0, w => return w
  | more + 1, w => do
    let t ← peek
    match t.token, w with
    | .anchor name, ⟨none, tag⟩ =>
      skip
      writtenFrom more ⟨some name, tag⟩
    | .tag handle suffix, ⟨anchor, none⟩ =>
      skip
      writtenFrom more ⟨anchor, some (handle, suffix, t.start)⟩
    | _, _ => return w

/-- The full text of a tag. -/
def resolveTag (start : Mark) (tag : String × String × Mark) : Parse String := do
  let (handle, suffix, place) := tag
  if handle.isEmpty then return suffix
  match (← get).handles.lookup handle with
  | some leading => return leading ++ suffix
  | none => refuseWithin "while parsing a node" start "found undefined tag handle" place

/-- Gives a node its number as soon as it begins. -/
def properties (w : Written) (tag : Option String) : Parse Properties := do
  return ⟨← w.anchor.mapM newAnchor, tag⟩

/-! ### Nodes -/

/-- The tokens that end a member of a block mapping. -/
def endsBlockMember : Token → Bool
  | .key | .value | .blockEnd => true
  | _ => false

def endsFlowKey (closing : Token) : Token → Bool
  | .value | .flowEntry => true
  | t => t == closing

def endsFlowValue (closing : Token) : Token → Bool
  | .flowEntry => true
  | t => t == closing

mutual

/-- A node. Blocks may begin only where `inBlock` says so, and a sequence at the indentation of
the mapping around it only where `indentless` does. -/
def node : Nat → Bool → Bool → Parse Node
  | 0, _, _ => throw .noDocument
  | n + 1, inBlock, indentless => do
    let first ← peek
    let start := first.start
    match first.token with
    | .reference name =>
      match (← get).anchors.lookup name with
      | some number =>
        skip
        return .reference start number
      | none => throw (.unknownAnchor start)
    | _ =>
      let w ← writtenFrom 2 ⟨none, none⟩
      let tag ← w.tag.mapM (resolveTag start)
      let t ← peek
      match t.token with
      | .scalar style text =>
        skip
        let tag := if tag = some "!" then none else tag
        return .scalar start (← properties w tag) style text
      | .blockEntry =>
        if indentless then
          let p ← properties w tag
          return .sequence start p (← indentlessItems n [])
        else bare n inBlock start w tag t
      | .flowSequenceStart =>
        let p ← properties w tag
        skip
        return .sequence start p (← flowItems n t.start true [])
      | .flowMappingStart =>
        let p ← properties w tag
        skip
        return .mapping start p (← flowEntries n t.start true [])
      | _ => bare n inBlock start w tag t

/-- A node that is a block, or has nothing but properties. -/
def bare : Nat → Bool → Mark → Written → Option String → Placed → Parse Node
  | 0, _, _, _, _, _ => throw .noDocument
  | n + 1, inBlock, start, w, tag, t => do
    match inBlock, t.token with
    | true, .blockSequenceStart =>
      let p ← properties w tag
      skip
      return .sequence start p (← blockItems n t.start [])
    | true, .blockMappingStart =>
      let p ← properties w tag
      skip
      return .mapping start p (← blockEntries n t.start [])
    | _, _ =>
      if w.anchor.isSome || w.tag.isSome then
        return .scalar start (← properties w tag) .plain ""
      else
        let context :=
          if inBlock then "while parsing a block node" else "while parsing a flow node"
        refuseWithin context start "did not find expected node content" t.start

/-- The items of a block sequence, last first. -/
def blockItems : Nat → Mark → List Node → Parse (List Node)
  | 0, _, _ => throw .noDocument
  | n + 1, start, items => attempt (fun f => (.broken f :: items).reverse) do
    let t ← peek
    skip
    match t.token with
    | .blockEntry =>
      let item ← match (← peek).token with
        | .blockEntry | .blockEnd => pure (.empty t.finish)
        | _ => node n true false
      blockItems n start (item :: items)
    | .blockEnd => return items.reverse
    | _ =>
      refuseWithin "while parsing a block collection" start
        "did not find expected '-' indicator" t.start

def indentlessItems : Nat → List Node → Parse (List Node)
  | 0, _ => throw .noDocument
  | n + 1, items => attempt (fun f => (.broken f :: items).reverse) do
    let t ← peek
    match t.token with
    | .blockEntry =>
      skip
      let next := (← peek).token
      let item ←
        if next = .blockEntry || endsBlockMember next then pure (.empty t.finish)
        else node n true false
      indentlessItems n (item :: items)
    | _ => return items.reverse

/-- The entries of a block mapping, last first. -/
def blockEntries : Nat → Mark → List (Node × Node) → Parse (List (Node × Node))
  | 0, _, _ => throw .noDocument
  | n + 1, start, entries =>
    attempt (fun f => ((.broken f, .broken f) :: entries).reverse) do
    let t ← peek
    match t.token with
    | .key =>
      skip
      let key ←
        if endsBlockMember (← peek).token then pure (.empty t.finish) else node n true true
      blockEntries n start ((key, ← blockValue n) :: entries)
    | .blockEnd =>
      skip
      return entries.reverse
    | _ =>
      refuseWithin "while parsing a block mapping" start "did not find expected key" t.start

def blockValue : Nat → Parse Node
  | 0 => throw .noDocument
  | n + 1 => attempt .broken do
    let t ← peek
    match t.token with
    | .value =>
      skip
      if endsBlockMember (← peek).token then return .empty t.finish else node n true true
    | _ => return .empty t.start

/-- The items of a sequence in brackets, last first. -/
def flowItems : Nat → Mark → Bool → List Node → Parse (List Node)
  | 0, _, _, _ => throw .noDocument
  | n + 1, start, isFirst, items => attempt (fun f => (.broken f :: items).reverse) do
    let t ← peek
    if t.token = .flowSequenceEnd then
      skip
      return items.reverse
    else
      let t ←
        if isFirst then pure t
        else if t.token = .flowEntry then skip *> peek
        else
          refuseWithin "while parsing a flow sequence" start
            "did not find expected ',' or ']'" t.start
      match t.token with
      | .flowSequenceEnd =>
        skip
        return items.reverse
      | .key =>
        skip
        let pair ← flowPair n t.start
        flowItems n start false (pair :: items)
      | _ =>
        let item ← node n false false
        flowItems n start false (item :: items)

/-- A mapping of one entry inside a sequence. A key that is left out takes the next indicator
with it, so that no value follows. -/
def flowPair : Nat → Mark → Parse Node
  | 0, _ => throw .noDocument
  | n + 1, start =>
    attempt (fun f => .mapping start Properties.none [(.broken f, .broken f)]) do
    let t ← peek
    let key ←
      if endsFlowKey .flowSequenceEnd t.token then do
        skip
        pure (.empty t.finish)
      else node n false false
    return .mapping start Properties.none [(key, ← flowValue n .flowSequenceEnd)]

/-- The value of an entry in brackets. -/
def flowValue : Nat → Token → Parse Node
  | 0, _ => throw .noDocument
  | n + 1, closing => attempt .broken do
    let t ← peek
    match t.token with
    | .value =>
      skip
      let t ← peek
      if endsFlowValue closing t.token then return .empty t.start else node n false false
    | _ => return .empty t.start

/-- The entries of a mapping in braces, last first. -/
def flowEntries : Nat → Mark → Bool → List (Node × Node) → Parse (List (Node × Node))
  | 0, _, _, _ => throw .noDocument
  | n + 1, start, isFirst, entries =>
    attempt (fun f => ((.broken f, .broken f) :: entries).reverse) do
    let t ← peek
    if t.token = .flowMappingEnd then
      skip
      return entries.reverse
    else
      let t ←
        if isFirst then pure t
        else if t.token = .flowEntry then skip *> peek
        else
          refuseWithin "while parsing a flow mapping" start
            "did not find expected ',' or '\x7d'" t.start
      match t.token with
      | .flowMappingEnd =>
        skip
        return entries.reverse
      | .key =>
        skip
        let t ← peek
        let key ←
          if endsFlowKey .flowMappingEnd t.token then pure (.empty t.start)
          else node n false false
        flowEntries n start false ((key, ← flowValue n .flowMappingEnd) :: entries)
      | _ =>
        let key ← node n false false
        let value := .empty (← peek).start
        flowEntries n start false ((key, value) :: entries)

end

/-! ### Documents -/

def standardHandles : List (String × String) := [("!", "!"), ("!!", "tag:yaml.org,2002:")]

/-- The directives in front of a document. -/
def directivesFrom : Nat → Bool → List (String × String) → Parse (List (String × String))
  | 0, _, handles => return handles
  | n + 1, versioned, handles => do
    let t ← peek
    match t.token with
    | .versionDirective major minor =>
      if versioned then refuse "found duplicate %YAML directive" t.start
      if major ≠ 1 || (minor ≠ 1 && minor ≠ 2) then
        refuse "found incompatible YAML document" t.start
      skip
      directivesFrom n true handles
    | .tagDirective handle leading =>
      if (handles.lookup handle).isSome then refuse "found duplicate %TAG directive" t.start
      skip
      directivesFrom n versioned (handles ++ [(handle, leading)])
    | _ => return handles

def endsContent : Token → Bool
  | .versionDirective .. | .tagDirective .. | .documentStart | .documentEnd | .streamEnd => true
  | _ => false

/-- The root of the first document. -/
def root (fuel : Nat) : Parse Node := do
  skip
  let t ← peek
  match t.token with
  | .streamEnd => return .absent t.start
  | .versionDirective .. | .tagDirective .. | .documentStart =>
    let handles ← directivesFrom fuel false []
    let t ← peek
    if t.token ≠ .documentStart then refuse "did not find expected <document start>" t.start
    modify fun g => { g with handles := handles ++ standardHandles }
    skip
    let t ← peek
    if endsContent t.token then return .empty t.start else node fuel true false
  | _ =>
    modify fun g => { g with handles := standardHandles }
    node fuel true false

/-- The first token after a document and the marks of its end. -/
def following (tokens : List Placed) : Option Token :=
  (tokens.dropWhile fun t => t.token = .documentEnd).head?.map Placed.token

def document (fuel : Nat) : Parse Document := do
  let root ← attempt .broken (root fuel)
  let g ← get
  return {
    root
    ending := if g.tokens.isEmpty then g.fault else none
    isFollowed := following g.tokens != some .streamEnd }

end Parse

/-- The first document of a text. -/
def Document.ofText (text : String) : Document :=
  let stream := TokenStream.ofText text
  let fuel := 4 * stream.tokens.length + 8
  match (Parse.document fuel).run ⟨stream.tokens, stream.fault, [], []⟩ with
  | .ok d _ => d
  | .error fault _ => ⟨.broken fault, none, false⟩

end ModelShelf.Yaml
