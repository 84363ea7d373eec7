import ModelShelf.Text.Split

/-!
Paths as texts: names separated by slashes, where a leading slash makes a path absolute. A path
keeps the text it was written with; its components leave out empty parts and dots that mean
nothing.
-/

namespace ModelShelf

open Text

/-- The text of a path. -/
structure Path where
  text : String
deriving DecidableEq, Repr

/-- A meaningful part of a path. -/
inductive Component where
  | root
  /-- A dot at the start of a relative path. -/
  | current
  | parent
  | name (text : String)
deriving DecidableEq, Repr

namespace Path

def isAbsolute (p : Path) : Bool := p.text.toList.head? == some '/'

/-- The parts between the slashes, without the slash that makes a path absolute. -/
def parts (p : Path) : List String :=
  let body := if p.isAbsolute then p.text.toList.drop 1 else p.text.toList
  (splitAll '/' body).map String.ofList

/-- Whether a part stands for nothing inside a path. -/
def isIdle (part : String) : Bool := part = "" || part = "."

/-- A name that stands for an entry of a directory, and not for a directory near by. -/
structure Plain (name : String) : Prop where
  solid : isIdle name = false
  notParent : name ≠ ".."
  oneName : '/' ∉ name.toList

instance (name : String) : Decidable (Plain name) :=
  decidable_of_iff (isIdle name = false ∧ name ≠ ".." ∧ '/' ∉ name.toList)
    ⟨fun h => ⟨h.1, h.2.1, h.2.2⟩, fun h => ⟨h.solid, h.notParent, h.oneName⟩⟩

def componentOf (part : String) : Component := if part = ".." then .parent else .name part

/-- The component of a dot at the start of a relative path. -/
def lead (p : Path) : List Component :=
  if p.isAbsolute then [.root] else if p.parts.head? = some "." then [.current] else []

def components (p : Path) : List Component :=
  p.lead ++ (p.parts.filter fun part => !isIdle part).map componentOf

/-- A path below another one. An absolute path stands for itself. -/
def join (p : Path) (below : String) : Path :=
  if (Path.mk below).isAbsolute || p.text.isEmpty then ⟨below⟩
  else if p.text.toList.getLast? = some '/' then ⟨p.text ++ below⟩
  else ⟨p.text ++ "/" ++ below⟩

/-- Parts without the idle ones at their end. -/
def dropIdle (parts : List String) : List String := (parts.reverse.dropWhile isIdle).reverse

def ofParts (parts : List String) : String := "/".intercalate parts

/-- The path without its last component, absent if there is nothing below the root. -/
def parent? (p : Path) : Option Path :=
  if p.isAbsolute then
    match dropIdle p.parts with
    | [] => none
    | parts => some ⟨"/" ++ ofParts (dropIdle parts.dropLast)⟩
  else
    match p.parts with
    | "." :: rest =>
      match dropIdle rest with
      | [] => some ⟨""⟩
      | parts => some ⟨ofParts ("." :: dropIdle parts.dropLast)⟩
    | parts =>
      match dropIdle parts with
      | [] => none
      | parts => some ⟨ofParts (dropIdle parts.dropLast)⟩

/-- The name that a path ends with. -/
def fileName? (p : Path) : Option String :=
  match p.components.getLast? with
  | some (.name text) => some text
  | _ => none

/-- A name without what follows its last dot. A dot at the start of a name counts as part of
it. -/
def stem (name : String) : String :=
  match splitLast? '.' name.toList with
  | some (before, _) => if before.isEmpty then name else String.ofList before
  | none => name

end Path

end ModelShelf
