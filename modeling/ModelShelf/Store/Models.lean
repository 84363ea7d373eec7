import ModelShelf.Manifest.Printer
import ModelShelf.Manifest.Reader
import ModelShelf.Store.Resolver

/-!
Models in a file tree: a model is a directory with a manifest of a fixed name. Its manifest can be
saved, loaded, logged under a run, and given another signature.
-/

namespace ModelShelf

open Text

def manifestName : String := "MLmodel"

def missingManifest (place : String) : Error :=
  .notFound ("Could not find an \"" ++ manifestName ++ "\" configuration file at \"" ++ place ++
    "\"")

namespace Manifest

/-- Loads a manifest from its file, or from the directory of its model. -/
def load (t : FileTree) (path : Path) : Result Manifest := do
  let file := if t.isDirectory path then path.join manifestName else path
  if !t.isFile file then .error (missingManifest path.text)
  else Manifest.ofText (← (t.readText file).mapError .file)

/-- Saves a manifest to a file and creates the directories above it. -/
def save (m : Manifest) (path : Path) : Change Unit := do
  if let some above := path.parent? then Change.makeDirectories above
  let text ← Change.ofResult m.toText
  Change.write path text.toUTF8

/-- Reads the manifest of the model that a repository is. -/
def ofRepository (r : Repository) (t : FileTree) : Result Manifest := do
  if !(← r.holds t manifestName) then .error (missingManifest r.rootUri)
  else
    let bytes ← r.read t manifestName
    let text ← (decodeUtf8 bytes).mapError fun fault =>
      .serialization ("MLmodel is not valid UTF-8: " ++ fault.message)
    Manifest.ofText text

end Manifest

/-- The configuration of a flavor of the model in a directory. -/
def flavorConfig (t : FileTree) (directory : Path) (flavor : String) : Result FlavorConfig := do
  let file := directory.join manifestName
  if !t.isFile file then .error (missingManifest directory.text)
  else
    let m ← Manifest.load t file
    match m.flavors.get? flavor with
    | some config => return config
    | none => .error (.notFound ("Model does not have the \"" ++ flavor ++ "\" flavor"))

/-- Whether a path names an empty directory. -/
def FileTree.isEmptyDirectory (t : FileTree) (path : Path) : Bool :=
  match t.find path with
  | .ok (_, .directory []) => true
  | _ => false

/-- Saves a model's manifest into a directory that is missing or empty. -/
def saveModel (path : Path) (m : Manifest) : Change Unit := do
  let t ← get
  if t.exists? path && !t.isEmptyDirectory path then
    throw (.alreadyExists ("Path '" ++ path.text ++ "' already exists and is not empty"))
  Change.makeDirectories path
  m.save (path.join manifestName)

namespace Resolver

/-- The URI of a model below the artifacts of a run. -/
def runUri (runId path : String) : String := (ModelUri.run runId path).display

/-- Stores a manifest among the artifacts of a run and records in it where it is. -/
def logModel (r : Resolver) (runId artifactPath : String) (m : Manifest) : Change ModelInfo := do
  let path := String.ofList (trim ModelUri.isSlash artifactPath.toList)
  if path.isEmpty then throw (.invalidParameter "artifact_path must not be empty")
  let m := { m with runId := some runId, artifactPath := some path }
  let repository ← Change.ofResult (r.ofRun (← get) runId)
  let text ← Change.ofResult m.toText
  repository.write (path ++ "/" ++ manifestName) text.toUTF8
  return m.info (runUri runId path)

/-- What is recorded of the model at a URI. -/
def modelInfo (r : Resolver) (t : FileTree) (uri : String) : Result ModelInfo := do
  let repository ← r.resolve t (← ModelUri.parse uri)
  return (← Manifest.ofRepository repository t).info uri

/-- Records a signature for the model at a URI. Registered models cannot be changed. -/
def setSignature (r : Resolver) (uri : String) (signature : Signature) : Change Unit := do
  if (ModelUri.stripScheme? ModelUri.registryScheme uri.toList).isSome then
    throw (.unsupportedUri "Model URIs with the `models:/` scheme are not supported.")
  let parsed ← Change.ofResult (ModelUri.parse uri)
  let repository ← Change.ofResult (r.resolve (← get) parsed)
  let m ← Change.ofResult (Manifest.ofRepository repository (← get))
  let text ← Change.ofResult (m.setSignature (some signature)).toText
  repository.write manifestName text.toUTF8

end Resolver

end ModelShelf
