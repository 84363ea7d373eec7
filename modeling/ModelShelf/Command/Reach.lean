import ModelShelf.Command.Run

/-!
The paths that a command looks at, as far as the files known so far tell. With the files at these
paths known, more paths may come into reach; once none do, the command sees all it needs.
-/

namespace ModelShelf

namespace Session

/-- The paths of a model in a directory. -/
def reachDirectory (directory : Path) : List Path := [directory, directory.join manifestName]

/-- The records that a run may have. -/
def reachRun (s : Session) (runId : String) : List Path :=
  let root := s.config.trackingRoot
  let experiments := (s.files.list root).toOption.getD []
  root :: experiments.map fun experiment =>
    ((root.join experiment).join runId).join RunStore.recordName

/-- The paths of the model at a URI. -/
def reachModel (s : Session) (uri : String) : List Path :=
  match ModelUri.parse uri with
  | .error _ => []
  | .ok parsed =>
    let records := match parsed with
      | .run runId _ => s.reachRun runId
      | _ => []
    match s.resolver.resolve s.files parsed with
    | .ok repository => records ++ reachDirectory repository.root
    | .error _ => records

/-- The recorded code directory of a flavor. -/
def reachCode (s : Session) (model : Path) (flavor : String) : List Path :=
  match flavorConfig s.files model flavor with
  | .error _ => []
  | .ok config =>
    match config.get? codeKey with
    | some (.string name) => [model.join name]
    | _ => []

/-- The paths that a command looks at. -/
def reach (s : Session) : Command → List Path
  | .flavor model _ => reachDirectory model
  | .info uri | .showSignature uri _ => s.reachModel uri
  | .setSignature uri file => file :: s.reachModel uri
  | .codePath model flavor => reachDirectory model ++ s.reachCode model flavor

end Session

namespace FileNode

/-- The entries of two directories, where the first one's count more. -/
def merge (known new : FileNode) : FileNode :=
  match known, new with
  | .directory entries, .directory more =>
    .directory (entries ++ more.filter fun e => (entries.lookup e.1).isNone)
  | _, _ => known

end FileNode

namespace FileTree

/-- Makes a node known at a place, and the directories above it. -/
def addKnown (t : FileTree) (place : Location) (node : FileNode) : FileTree :=
  let above := (List.range place.length).map fun n => (place.take n, FileNode.directory [])
  (above ++ [(place, node)]).foldl (fun t (l, new) =>
    match t.get? l with
    | some known => t.put l (known.merge new)
    | none => t.put l new) t

/-- The tree seen from another directory, if that is there. -/
def enter (t : FileTree) (l : Location) : FileTree :=
  if h : (t.root.get? l).any FileNode.isDirectory = true then { t with current := l, here := h }
  else t

end FileTree

end ModelShelf
