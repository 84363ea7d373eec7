import ModelShelf.Files.Change
import ModelShelf.Time.Instant
import ModelShelf.Yaml.Printer
import ModelShelf.Yaml.Reader

/-!
Runs: each has a directory of its own below its experiment, with a record of the run and a
directory for its artifacts. A run is found by its identifier in whatever experiment it is.
-/

namespace ModelShelf

open Yaml (Node Route Read Value)
open Yaml.Read (text once required ignore recordThen greatestDepth mismatch atNode refuse)

/-- The record of a run. -/
structure RunInfo where
  runId : String
  experimentId : String
  /-- Where the artifacts of the run are. -/
  artifactUri : String
  startTime : Time.Instant
deriving DecidableEq, Repr

namespace RunInfo

def toValue (run : RunInfo) : Value :=
  .mapping [(.string "run_id", .string run.runId),
    (.string "experiment_id", .string run.experimentId),
    (.string "artifact_uri", .string run.artifactUri),
    (.string "start_time", .string run.startTime.toText)]

/-- The text of a record. -/
def toText (run : RunInfo) : Result String :=
  run.toValue.toText.mapError fun fault => .serialization fault.message

/-- The members read so far. -/
structure Fields where
  runId : Option String
  experimentId : Option String
  artifactUri : Option String
  startTime : Option Time.Instant

/-- A point in time, written as a scalar. -/
def instant (route : Route) (node : Node) : Read Time.Instant :=
  atNode route node fun
    | .scalar _ _ _ text =>
      match Time.Instant.parse text with
      | .ok t => return t
      | .error fault => mismatch (.other fault.message)
    | other => refuse "an RFC 3339 formatted date and time string" other

def member (fields : Fields) (name : String) (route : Route) (node : Node) : Read Fields := do
  match name with
  | "run_id" => return { fields with runId := ← once name fields.runId (text route node) }
  | "experiment_id" =>
    return { fields with experimentId := ← once name fields.experimentId (text route node) }
  | "artifact_uri" =>
    return { fields with artifactUri := ← once name fields.artifactUri (text route node) }
  | "start_time" =>
    return { fields with startTime := ← once name fields.startTime (instant route node) }
  | _ =>
    ignore node
    return fields

def ofFields (fields : Fields) : Read RunInfo := do
  return {
    runId := ← required "run_id" fields.runId
    experimentId := ← required "experiment_id" fields.experimentId
    artifactUri := ← required "artifact_uri" fields.artifactUri
    startTime := ← required "start_time" fields.startTime }

def ofNode (node : Node) : Read RunInfo :=
  recordThen "struct RunInfo" greatestDepth .top node (⟨none, none, none, none⟩ : Fields)
    (fun _ => member) ofFields

/-- Reads a record from its text. -/
def ofText (text : String) : Result RunInfo :=
  (Yaml.read ofNode text).mapError fun fault => .serialization fault.message

end RunInfo

/-- The runs below a directory. -/
structure RunStore where
  root : Path
deriving DecidableEq, Repr

namespace RunStore

def recordName : String := "meta.yaml"
def artifactsName : String := "artifacts"

/-- Creates a run under an identifier that is not in use. -/
def create (store : RunStore) (experimentId runId : String) (now : Time.Instant) :
    Change RunInfo := do
  let directory := (store.root.join experimentId).join runId
  let artifacts := directory.join artifactsName
  Change.makeDirectories artifacts
  let run : RunInfo := ⟨runId, experimentId, artifacts.text, now⟩
  let record ← Change.ofResult run.toText
  Change.write (directory.join recordName) record.toUTF8
  return run

/-- An identifier is a name that does not lead out of its experiment. -/
def isRunId (runId : String) : Bool :=
  !(runId.isEmpty || runId.toList.contains '/' || runId.toList.contains '\\' || runId = "..")

/-- The record of a run in the first experiment that has one. -/
def find (store : RunStore) (t : FileTree) (runId : String) : Result (Option Path) := do
  if !isRunId runId then .error (.invalidParameter ("Invalid run id '" ++ runId ++ "'"))
  else if !t.isDirectory store.root then return none
  else
    let experiments ← (t.list store.root).mapError .file
    return (experiments.map fun experiment =>
      ((store.root.join experiment).join runId).join recordName).find? t.isFile

/-- The record of a run. -/
def get (store : RunStore) (t : FileTree) (runId : String) : Result RunInfo := do
  match ← store.find t runId with
  | none => .error (.notFound ("Run '" ++ runId ++ "' not found"))
  | some path => RunInfo.ofText (← (t.readText path).mapError .file)

/-- Where the artifacts of a run are. -/
def artifactUri (store : RunStore) (t : FileTree) (runId : String) : Result String := do
  return (← store.get t runId).artifactUri

end RunStore

end ModelShelf
