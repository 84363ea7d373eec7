import ModelShelf.Code.SearchPath
import ModelShelf.Config.Basic
import ModelShelf.Files.Change
import ModelShelf.Manifest.Basic
import ModelShelf.Yaml.Inspect

/-!
The code that is bundled with a model: files and directories are copied below the model, the name
of the directory is recorded in a flavor's configuration, and from there the directory is put on
the search path.
-/

namespace ModelShelf

/-- The member of a flavor's configuration that names the code directory. -/
def codeKey : String := "code"

/-- The recorded code directory: none if nothing is recorded, or if it is missing and need not be
there. -/
def codeDirectory? (t : FileTree) (config : Config) (model : Path) (flavor : FlavorConfig)
    (key : String) : Result (Option Path) :=
  match flavor.get? key with
  | none | some .null => .ok none
  | some (.string name) =>
    let directory := model.join name
    if name.isEmpty then .ok none
    else if t.isDirectory directory then .ok (some directory)
    else if config.validatesCode then
      .error (.notFound ("Code directory \"" ++ directory.text ++ "\" does not exist"))
    else .ok none
  | some other =>
    .error (.invalidParameter
      ("Flavor key '" ++ key ++ "' must name a directory, got " ++ other.inspect))

/-- Puts the recorded code directory of a flavor on the search path. -/
def SearchPath.addCode (t : FileTree) (config : Config) (model : Path) (flavor : FlavorConfig)
    (key : String) : SearchPath.Update (Option Path) := do
  match codeDirectory? t config model flavor key with
  | .error e => throw e
  | .ok none => return none
  | .ok (some directory) =>
    discard <| prepend t directory
    return some directory

/-- Copies a file. The target is emptied before the source is read. -/
def copyFile (source target : Path) : Change Unit := do
  discard <| Change.look fun t => t.read source
  Change.write target ByteArray.empty
  Change.write target (← Change.look fun t => t.read source)

/-- Copies a file or a directory with all that is in it. Paths that grow without end become too
long. -/
def copyFrom : Nat → Path → Path → Change Unit
  | 0, _, _ => throw (.file .nameTooLong)
  | fuel + 1, source, target => do
    if (← get).isDirectory source then
      Change.makeDirectories target
      let names ← Change.look fun t => t.list source
      names.forM fun name => copyFrom fuel (source.join name) (target.join name)
    else
      copyFile source target

/-- Copies a file or a directory to a path. -/
def copyBelow (source target : Path) : Change Unit :=
  copyFrom (FileTree.greatestPath + 1) source target

/-- Copies code into a directory below a model, each path under its own last name, and gives the
name of the directory. All paths have to be there before anything is copied. -/
def copyCode (sources : List Path) (model : Path) (name : String) : Change (Option String) := do
  if sources.isEmpty then return none
  let t ← get
  if let some missing := sources.find? fun source => !t.exists? source then
    throw (.invalidParameter ("Code path \"" ++ missing.text ++ "\" does not exist"))
  let target := model.join name
  Change.makeDirectories target
  sources.forM fun source =>
    match source.fileName? with
    | some file => copyBelow source (target.join file)
    | none =>
      throw (.invalidParameter ("Code path \"" ++ source.text ++ "\" has no file name"))
  return some name

end ModelShelf
