import ModelShelf.Files.Tree

/-!
The search path of modules: directories in which modules are looked up, the first one first. A
directory is on the path once at most, under its absolute path.
-/

namespace ModelShelf

open Text

/-- Directories in which modules are looked up. -/
structure SearchPath where
  entries : List Place
  unique : entries.Nodup
deriving DecidableEq, Repr

namespace SearchPath

def empty : SearchPath := ⟨[], .nil⟩

/-- Puts a place in front, unless it is there already. -/
def add (path : SearchPath) (place : Place) : SearchPath :=
  if h : place ∈ path.entries then path
  else ⟨place :: path.entries, List.nodup_cons.2 ⟨h, path.unique⟩⟩

/-- An operation that may change the search path, also when it fails. -/
abbrev Update := EStateM Error SearchPath

/-- Puts a directory in front, and tells whether it was missing. -/
def prepend (t : FileTree) (directory : Path) : Update Bool := do
  match t.locate directory with
  | .error fault => throw (.file fault)
  | .ok place =>
    if (← get).entries.contains place then return false
    modify fun path => path.add place
    return true

/-- Whether a directory is on the path. -/
def contains (path : SearchPath) (t : FileTree) (directory : Path) : Bool :=
  match t.locate directory with
  | .ok place => path.entries.contains place
  | .error _ => false

/-- The module of a name in a directory: the package of that name, or else the first file whose
name without its ending is the name. -/
def moduleIn (t : FileTree) (directory : Path) (name : String) : Option Path :=
  let package := directory.join name
  if t.isDirectory package then some package
  else
    let names := (t.list directory).toOption.getD []
    let files := names.filter fun file => Path.stem file = name && t.isFile (directory.join file)
    (files.mergeSort fun a b => a ≤ b).head?.map directory.join

/-- Goes down through packages from a directory. -/
def packageIn (t : FileTree) (directory : Path) (packages : List String) : Option Path :=
  packages.foldlM (fun d package =>
    let below := d.join package
    if t.isDirectory below then some below else none) directory

/-- The module of a dotted name, in the first directory that has it. -/
def resolve (path : SearchPath) (t : FileTree) (module : String) : Option Path :=
  let parts := (splitAll '.' module.toList).map String.ofList
  if parts.any String.isEmpty then none
  else
    match parts.getLast? with
    | none => none
    | some last =>
      path.entries.findSome? fun place => do
        let directory ← packageIn t place.val.path parts.dropLast
        moduleIn t directory last

end SearchPath

end ModelShelf
