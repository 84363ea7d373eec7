import ModelShelf.Error
import ModelShelf.Files.Path

/-!
Where models are: below the artifacts of a run, in a registry, in a directory, or at a place that
only the scheme of a URI knows. The case of a scheme does not count.
-/

namespace ModelShelf

open Text

/-- What selects one of the models that are registered under a name. -/
inductive RegisteredReference where
  | version (text : String)
  | pointer (text : String)
deriving DecidableEq, Repr

/-- Where a model is. -/
inductive ModelUri where
  /-- Below the artifacts of a run. -/
  | run (runId path : String)
  /-- In a registry of models. -/
  | registered (name : String) (reference : RegisteredReference)
  /-- In a directory. -/
  | directory (path : Path)
  /-- At a place that the scheme knows; the URI is kept as it was written. -/
  | remote (scheme uri : String)
deriving DecidableEq, Repr

namespace ModelUri

def runScheme : String := "runs:/"
def registryScheme : String := "models:/"
def fileScheme : String := "file://"
def schemeMark : String := "://"

/-- The text with the letters of ASCII in lower case. -/
def lowered (s : List Char) : List Char := s.map Char.toLower

/-- What follows a scheme, written in any case. -/
def stripScheme? (scheme : String) (uri : List Char) : Option (List Char) :=
  let size := scheme.toList.length
  if lowered (uri.take size) = scheme.toList then some (uri.drop size) else none

def isSlash (c : Char) : Bool := c = '/'

/-- Whether a text may be a scheme. -/
def isScheme : List Char → Bool
  | [] => false
  | first :: rest =>
    first.isAlpha && rest.all fun c => c.isAlphanum || c = '+' || c = '-' || c = '.'

/-- The parts before and after the first mark of a scheme. -/
def splitScheme? (uri : List Char) : Option (List Char × List Char) :=
  splitFirst? schemeMark.toList uri

/-- A run and a path below its artifacts, without slashes around it. -/
def run? (rest : List Char) : Option ModelUri :=
  match splitFirst? ['/'] (rest.dropWhile isSlash) with
  | none => none
  | some (runId, path) =>
    let path := trim isSlash path
    if runId.isEmpty || path.isEmpty then none
    else some (.run (String.ofList runId) (String.ofList path))

/-- A name with a version after a slash, or with an alias after the last at sign. -/
def registered? (rest : List Char) : Option ModelUri :=
  let rest := trim isSlash rest
  match splitFirst? ['/'] rest with
  | some (name, version) =>
    if name.isEmpty || version.isEmpty || version.contains '/' then none
    else some (.registered (String.ofList name) (.version (String.ofList version)))
  | none =>
    match splitLast? '@' rest with
    | some (name, pointer) =>
      if name.isEmpty || pointer.isEmpty then none
      else some (.registered (String.ofList name) (.pointer (String.ofList pointer)))
    | none => none

def improperRun (uri : String) : Error :=
  .invalidParameter ("Not a proper runs:/ URI: " ++ uri ++ ". Runs URIs must be of the form " ++
    "'runs:/<run_id>/run-relative/path/to/artifact'")

def improperRegistered (uri : String) : Error :=
  .invalidParameter ("Not a proper models:/ URI: " ++ uri ++ ". Models URIs must be of the " ++
    "form 'models:/<name>/<version>' or 'models:/<name>@<alias>'")

/-- The scheme of a URI that is none of the library's own. -/
def remoteScheme? (uri : List Char) : Option (List Char) :=
  match splitScheme? uri with
  | some (scheme, _) => if isScheme scheme then some scheme else none
  | none => none

/-- The place that a URI names. The library's own schemes come first; a text without a scheme is a
path. -/
def parse (uri : String) : Result ModelUri :=
  let s := uri.toList
  match stripScheme? runScheme s with
  | some rest => (run? rest).elim (.error (improperRun uri)) .ok
  | none =>
    match stripScheme? registryScheme s with
    | some rest => (registered? rest).elim (.error (improperRegistered uri)) .ok
    | none =>
      match stripScheme? fileScheme s with
      | some path => .ok (.directory ⟨String.ofList path⟩)
      | none =>
        match remoteScheme? s with
        | some scheme => .ok (.remote (String.ofList (lowered scheme)) uri)
        | none =>
          if uri.isEmpty then .error (.invalidParameter "Model URI must not be empty")
          else .ok (.directory ⟨uri⟩)

def isRegistered : ModelUri → Bool
  | .registered .. => true
  | _ => false

/-- The text of a place. -/
def display : ModelUri → String
  | .run runId path => runScheme ++ runId ++ "/" ++ path
  | .registered name (.version version) => registryScheme ++ name ++ "/" ++ version
  | .registered name (.pointer pointer) => registryScheme ++ name ++ "@" ++ pointer
  | .directory path => path.text
  | .remote _ uri => uri

end ModelUri

end ModelShelf
