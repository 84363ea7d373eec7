import ModelShelf.Error
import ModelShelf.Files.Node
import ModelShelf.Text.Utf8

/-!
A tree of files and directories, and the directory from which relative paths lead, which is always
there. A path is followed part by part; every part but the last has to lead into a directory. There
are no links.
-/

namespace ModelShelf

open Text

/-- All files, seen from a directory. No name leads elsewhere than to its entry. -/
structure FileTree where
  root : FileNode
  current : Location
  names : root.hasPlainNames = true
  here : (root.get? current).any FileNode.isDirectory = true

namespace FileTree

/-- No files, seen from the root. -/
def empty : FileTree := ⟨.directory [], [], rfl, rfl⟩

def get? (t : FileTree) (l : Location) : Option FileNode := t.root.get? l

/-- The contents of the file at a place. -/
def file? (t : FileTree) (l : Location) : Option ByteArray :=
  match t.get? l with
  | some (.file contents) => some contents
  | _ => none

/-! ### Following paths -/

/-- The greatest number of bytes in a name. -/
def greatestName : Nat := 255

/-- The greatest number of bytes in a path. -/
def greatestPath : Nat := 4095

/-- The place that a path leads to by its text alone. -/
def placeOf (t : FileTree) (p : Path) : Location :=
  p.components.foldl (fun l c =>
    match c with
    | .root => []
    | .current => l
    | .parent => l.dropLast
    | .name text => l ++ [text]) t.current

/-- One part of a path, seen from a directory: the place it leads to. -/
def step (l : Location) (part : String) : Except FileFault Location :=
  if Path.isIdle part then .ok l
  else if part = ".." then .ok l.dropLast
  else if greatestName < part.utf8ByteSize then .error .nameTooLong
  else .ok (l ++ [part])

/-- Follows parts that all lead into directories. -/
def walk (t : FileTree) (start : Location) (parts : List String) : Except FileFault Location :=
  parts.foldlM (fun l part => do
    let next ← step l part
    match t.get? next with
    | some (.directory _) => return next
    | some (.file _) => .error .notDirectory
    | none => .error .noEntry) start

/-- What a path names, whether or not it is there. -/
structure Target where
  place : Location
  /-- Whether the path ends in a slash, and so names a directory. -/
  wantsDirectory : Bool
  /-- Whether the path ends in a name, and not in dots. -/
  isNamed : Bool

/-- Where a path leads; its last part need not be there. -/
def target (t : FileTree) (p : Path) : Except FileFault Target := do
  if p.text.isEmpty then .error .noEntry
  else if p.text.toList.contains '\x00' then .error .invalidInput
  else if greatestPath < p.text.utf8ByteSize then .error .nameTooLong
  else
    let start := if p.isAbsolute then [] else t.current
    let parts := p.parts.filter fun part => part ≠ ""
    let wantsDirectory := p.text.toList.getLast? = some '/'
    match parts.getLast? with
    | none => return ⟨start, wantsDirectory, false⟩
    | some last =>
      if last = "." || last = ".." then
        return ⟨← t.walk start parts, wantsDirectory, false⟩
      else
        let directory ← t.walk start parts.dropLast
        return ⟨← step directory last, wantsDirectory, true⟩

/-- What a path names, if it is there. -/
def find (t : FileTree) (p : Path) : Except FileFault (Location × FileNode) := do
  let target ← t.target p
  match t.get? target.place with
  | none => .error .noEntry
  | some node =>
    if target.wantsDirectory && !node.isDirectory then .error .notDirectory
    else return (target.place, node)

/-- Whether a path names anything. -/
def exists? (t : FileTree) (p : Path) : Bool := (t.find p).toBool

/-- Whether a path names a directory. -/
def isDirectory (t : FileTree) (p : Path) : Bool :=
  match t.find p with
  | .ok (_, .directory _) => true
  | _ => false

/-- Whether a path names a file. -/
def isFile (t : FileTree) (p : Path) : Bool :=
  match t.find p with
  | .ok (_, .file _) => true
  | _ => false

/-- What is found has a place to which names of entries lead. -/
theorem plainNames_of_find {t : FileTree} {p : Path} {found : Location × FileNode}
    (h : t.find p = .ok found) : found.1.HasPlainNames := by
  rw [find] at h
  cases htarget : t.target p with
  | error fault =>
    rw [htarget] at h
    cases h
  | ok g =>
    rw [htarget] at h
    simp only [bind, Except.bind] at h
    split at h
    · cases h
    · rename_i node there
      split at h
      · cases h
      · obtain rfl := Except.ok.inj h
        exact FileNode.plainNames_of_get? t.names there

/-- The place that a path names, which has to be there. -/
def locate (t : FileTree) (p : Path) : Except FileFault Place :=
  match h : t.find p with
  | .error fault => .error fault
  | .ok found => .ok ⟨found.1, plainNames_of_find h⟩

/-! ### Reading -/

/-- The names in a directory. -/
def list (t : FileTree) (p : Path) : Except FileFault (List String) := do
  match ← t.find p with
  | (_, .directory entries) => return entries.map Prod.fst
  | (_, .file _) => .error .notDirectory

/-- The contents of the file that a path names. -/
def read (t : FileTree) (p : Path) : Except FileFault ByteArray := do
  match ← t.find p with
  | (_, .file contents) => return contents
  | (_, .directory _) => .error .isDirectory

/-- The text in a file. -/
def readText (t : FileTree) (p : Path) : Except FileFault String := do
  (decodeUtf8 (← t.read p)).mapError fun _ => .notText

/-! ### Writing -/

/-- What a tree takes at a place: a node of plain names, under a plain name, where it leaves the
current directory a directory. -/
structure Admits (t : FileTree) (l : Location) (node : FileNode) : Prop where
  names : node.hasPlainNames = true
  last : ∀ name, l.getLast? = some name → Path.Plain name
  here : ((t.root.put l node).get? t.current).any FileNode.isDirectory = true

instance (t : FileTree) (l : Location) (node : FileNode) : Decidable (t.Admits l node) :=
  decidable_of_iff (node.hasPlainNames = true ∧
      l.getLast?.all (fun name => decide (Path.Plain name)) = true ∧
      ((t.root.put l node).get? t.current).any FileNode.isDirectory = true)
    ⟨fun h => ⟨h.1, fun name hname =>
        of_decide_eq_true ((Option.all_eq_true _ _).1 h.2.1 name hname), h.2.2⟩,
      fun h => ⟨h.names, (Option.all_eq_true _ _).2 fun name hname =>
        decide_eq_true (h.last name hname), h.here⟩⟩

/-- The tree with a node at a place, if the tree takes it there. Where a path leads, a file or a new
directory is always taken unless a directory is there already. -/
def put (t : FileTree) (l : Location) (node : FileNode) : FileTree :=
  if h : t.Admits l node then
    { t with
      root := t.root.put l node
      names := FileNode.hasPlainNames_put t.names h.names h.last
      here := h.here }
  else t

/-- Creates a file or replaces its contents. -/
def write (t : FileTree) (p : Path) (contents : ByteArray) : Except FileFault FileTree := do
  let target ← t.target p
  match t.get? target.place with
  | some (.directory _) => .error .isDirectory
  | some (.file _) =>
    if target.wantsDirectory then .error .notDirectory
    else return t.put target.place (.file contents)
  | none =>
    if target.wantsDirectory then .error .isDirectory
    else return t.put target.place (.file contents)

/-- Creates an empty directory. -/
def makeDirectory (t : FileTree) (p : Path) : Except FileFault FileTree := do
  let target ← t.target p
  match t.get? target.place with
  | some _ => .error .alreadyThere
  | none => return t.put target.place (.directory [])

end FileTree

end ModelShelf
