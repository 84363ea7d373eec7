import ModelShelf.Config.Basic
import ModelShelf.Files.Change

/-!
Repositories of artifacts: files below a root directory, addressed by relative paths that cannot
leave it.
-/

namespace ModelShelf

/-- The files below a directory. -/
structure Repository where
  root : Path
deriving DecidableEq, Repr

namespace Repository

/-- The repository of a directory, which may be written with the scheme of files. -/
def ofUri (uri : String) : Repository := ⟨⟨Config.withoutFileScheme uri⟩⟩

def rootUri (r : Repository) : String := r.root.text

/-- Whether a component keeps a path inside a directory. -/
def staysInside : Component → Bool
  | .current | .name _ => true
  | .root | .parent => false

/-- The path of an artifact. -/
def path (r : Repository) (relative : String) : Result Path :=
  if (Path.mk relative).components.all staysInside then .ok (r.root.join relative)
  else
    .error (.invalidParameter
      ("Artifact path must be relative and stay inside the repository: '" ++ relative ++ "'"))

/-- The contents of an artifact. -/
def read (r : Repository) (t : FileTree) (relative : String) : Result ByteArray := do
  let path ← r.path relative
  if t.isFile path then (t.read path).mapError .file
  else
    .error (.notFound
      ("Artifact '" ++ relative ++ "' not found under '" ++ r.root.text ++ "'"))

/-- Whether something lies at the path of an artifact. -/
def holds (r : Repository) (t : FileTree) (relative : String) : Result Bool := do
  return t.exists? (← r.path relative)

/-- Writes an artifact and creates the directories above it. -/
def write (r : Repository) (relative : String) (contents : ByteArray) : Change Unit := do
  Change.writeBelow (← Change.ofResult (r.path relative)) contents

end Repository

end ModelShelf
