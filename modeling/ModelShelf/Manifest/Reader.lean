import ModelShelf.Manifest.Basic
import ModelShelf.Yaml.Reader

/-!
Reading manifests from YAML. Members may be missing. Members that are not known are read where
they stand, and become values once the whole manifest is read.
-/

namespace ModelShelf

open Yaml (Node Route Read)
open Yaml.Read

/-- Values by name, where a repeated name keeps its last value. -/
def dictionary (value : Depth → Route → Node → Read α) (depth : Depth) (route : Route)
    (node : Node) : Read (Dictionary α) :=
  entries "a map" depth route node fun depth list =>
    list.foldlM (fun d (key, item) => do
      let name ← text route key
      return d.insert name (← value depth (routeOf route key) item)) .empty

namespace SignatureTexts

/-- The members read so far. -/
structure Fields where
  inputs : Option String
  outputs : Option (Option String)

def member (fields : Fields) (name : String) (route : Route) (node : Node) : Read Fields := do
  if name = "inputs" then
    return { fields with inputs := ← once name fields.inputs (text route node) }
  else if name = "outputs" then
    return { fields with outputs := ← once name fields.outputs (optional text route node) }
  else
    ignore node
    return fields

def ofNode (depth : Depth) (route : Route) (node : Node) : Read SignatureTexts :=
  recordThen "struct SignatureDict" depth route node (⟨none, none⟩ : Fields)
    (fun _ => member) fun fields => do
      return ⟨← required "inputs" fields.inputs, fields.outputs.getD none⟩

end SignatureTexts

namespace Manifest

/-- The members read so far. -/
structure Fields where
  artifactPath : Option (Option String)
  flavors : Option (Dictionary FlavorConfig)
  modelId : Option (Option String)
  runId : Option (Option String)
  signature : Option (Option SignatureTexts)
  created : Option (Option String)
  metadata : Option (Option Metadata)
  /-- The unknown members, last first. -/
  unknown : List (String × Yaml.Value)

/-- Unknown members may not have tags of their own; repeated keys are found out later. -/
def unknownReading : Reading := ⟨"any value", false, true⟩

def member (depth : Depth) (fields : Fields) (name : String) (route : Route) (node : Node) :
    Read Fields := do
  match name with
  | "artifact_path" =>
    return { fields with
      artifactPath := ← once name fields.artifactPath (optional text route node) }
  | "flavors" =>
    let config := dictionary value
    return { fields with
      flavors := ← once name fields.flavors (dictionary config depth route node) }
  | "model_uuid" =>
    return { fields with modelId := ← once name fields.modelId (optional text route node) }
  | "run_id" =>
    return { fields with runId := ← once name fields.runId (optional text route node) }
  | "signature" =>
    return { fields with
      signature :=
        ← once name fields.signature (optional (SignatureTexts.ofNode depth) route node) }
  | "utc_time_created" =>
    return { fields with created := ← once name fields.created (optional text route node) }
  | "metadata" =>
    return { fields with
      metadata := ← once name fields.metadata (optional (dictionary value depth) route node) }
  | _ =>
    let v ← valueAs unknownReading depth route node
    return { fields with unknown := (name, v) :: fields.unknown }

/-- The manifest of all members. -/
def ofFields (fields : Fields) : Read Manifest := do
  let extra ← fields.unknown.reverse.mapM fun (name, v) => do
    match v.repetition? with
    | some key => mismatch (repetition key)
    | none => return (name, v)
  return {
    artifactPath := fields.artifactPath.getD none
    flavors := fields.flavors.getD .empty
    modelId := fields.modelId.getD none
    runId := fields.runId.getD none
    signature := fields.signature.getD none
    created := fields.created.getD none
    metadata := fields.metadata.getD none
    extra := .ofList extra }

def ofNode (node : Node) : Read Manifest :=
  recordThen "struct Model" greatestDepth .top node
    ⟨none, none, none, none, none, none, none, []⟩ member ofFields

/-- Reads a manifest from its text. -/
def ofText (text : String) : Result Manifest :=
  (Yaml.read ofNode text).mapError fun fault => .serialization fault.message

end Manifest

end ModelShelf
