import ModelShelf.Files.Tree

/-!
Operations that change a file tree. One that fails may have changed the tree before.
-/

namespace ModelShelf

/-- An operation that may change the file tree, also when it fails. -/
abbrev Change := EStateM Error FileTree

namespace Change

/-- Looks at the tree without a change. -/
def look (f : FileTree → Except FileFault α) : Change α := do
  match f (← get) with
  | .ok a => return a
  | .error fault => throw (.file fault)

/-- Changes the tree, or fails and leaves it as it is. -/
def alter (f : FileTree → Except FileFault FileTree) : Change Unit := do set (← look f)

/-- Goes on with the answer of a computation. -/
def ofResult (r : Result α) : Change α :=
  match r with
  | .ok a => return a
  | .error e => throw e

/-- Creates a file or replaces its contents. A write that was started is taken to complete: one that
fails has failed before it touched the file. -/
def write (p : Path) (contents : ByteArray) : Change Unit := alter fun t => t.write p contents

/-- Creates a directory, or finds it there. -/
def ensureDirectory (p : Path) : Change Unit := do
  let t ← get
  match t.makeDirectory p with
  | .ok t => set t
  | .error fault => if !t.isDirectory p then throw (.file fault)

def makeDirectoriesFrom : Nat → Path → Change Unit
  | 0, _ => throw (.file .noEntry)
  | fuel + 1, p => do
    if !p.text.isEmpty then
      match (← get).makeDirectory p with
      | .error .noEntry =>
        match p.parent? with
        | none => throw (.file .noEntry)
        | some above =>
          makeDirectoriesFrom fuel above
          ensureDirectory p
      | _ => ensureDirectory p

/-- Creates a directory and those above it that are missing. -/
def makeDirectories (p : Path) : Change Unit := makeDirectoriesFrom (p.text.length + 1) p

/-- Writes a file after creating the directories above it. -/
def writeBelow (p : Path) (contents : ByteArray) : Change Unit := do
  if let some above := p.parent? then makeDirectories above
  write p contents

end Change

end ModelShelf
