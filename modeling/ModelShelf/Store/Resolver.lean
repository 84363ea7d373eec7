import ModelShelf.Store.Repository
import ModelShelf.Store.RunStore
import ModelShelf.Uri

/-!
Finding the repository of a model. Directories and the artifacts of runs have repositories of
their own; a scheme of URIs has one once it is registered.
-/

namespace ModelShelf

open Text

/-- Makes a repository for a URI of a scheme. -/
abbrev RepositoryFactory := String → Result Repository

/-- What is needed to find the repository of a model. -/
structure Resolver where
  runs : RunStore
  /-- The registered schemes in lower case, the last ones first. -/
  schemes : List (String × RepositoryFactory)

namespace Resolver

/-- A resolver with no scheme registered. -/
def ofRuns (runs : RunStore) : Resolver := ⟨runs, []⟩

def ofConfig (config : Config) : Resolver := .ofRuns ⟨config.trackingRoot⟩

/-- Registers a scheme. A scheme that was registered before is replaced. -/
def register (r : Resolver) (scheme : String) (factory : RepositoryFactory) : Resolver :=
  { r with schemes := (scheme.map Char.toLower, factory) :: r.schemes }

/-- The repository of a root that may be a path or a URI. -/
def ofRoot (r : Resolver) (root : String) : Result Repository :=
  match ModelUri.splitScheme? root.toList with
  | none => .ok (.ofUri root)
  | some (scheme, _) =>
    if scheme = "file".toList then .ok (.ofUri root)
    else
      match r.schemes.lookup (String.ofList (ModelUri.lowered scheme)) with
      | some factory => factory root
      | none =>
        .error (.unsupportedUri ("No artifact repository registered for scheme '" ++
          String.ofList scheme ++ "' (URI '" ++ root ++ "')"))

/-- The repository of a run's artifacts. -/
def ofRun (r : Resolver) (t : FileTree) (runId : String) : Result Repository := do
  r.ofRoot (← r.runs.artifactUri t runId)

/-- A path below a root, with one slash between them. -/
def below (root path : String) : String :=
  let front := (root.toList.reverse.dropWhile ModelUri.isSlash).reverse
  String.ofList (front ++ '/' :: path.toList.dropWhile ModelUri.isSlash)

/-- The repository of a model. -/
def resolve (r : Resolver) (t : FileTree) (uri : ModelUri) : Result Repository := do
  match uri with
  | .directory path => return ⟨path⟩
  | .run runId path => r.ofRoot (below (← r.runs.artifactUri t runId) path)
  | .remote _ text => r.ofRoot text
  | .registered .. =>
    .error (.unsupportedUri
      ("Cannot resolve '" ++ uri.display ++ "': no model registry is configured"))

end Resolver

end ModelShelf
