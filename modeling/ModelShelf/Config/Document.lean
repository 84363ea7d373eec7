import ModelShelf.Config.Basic
import ModelShelf.Yaml.Printer
import ModelShelf.Yaml.Reader

/-!
Configurations as YAML. Members may be missing, and members that are not known are passed over.
-/

namespace ModelShelf.Config

open Yaml (Node Route Read Value)
open Yaml.Read

/-- The members read so far. -/
structure Fields where
  trackingUri : Option String
  codeDirectory : Option String
  validatesCode : Option Bool

def member (fields : Fields) (name : String) (route : Route) (node : Node) : Read Fields := do
  match name with
  | "tracking_uri" =>
    return { fields with trackingUri := ← once name fields.trackingUri (text route node) }
  | "code_dir" =>
    return { fields with codeDirectory := ← once name fields.codeDirectory (text route node) }
  | "validate_code_paths" =>
    return { fields with validatesCode := ← once name fields.validatesCode (boolean route node) }
  | _ =>
    ignore node
    return fields

def ofFields (fields : Fields) : Config where
  trackingUri := fields.trackingUri.getD builtin.trackingUri
  codeDirectory := fields.codeDirectory.getD builtin.codeDirectory
  validatesCode := fields.validatesCode.getD builtin.validatesCode

def ofNode (node : Node) : Read Config :=
  recordThen "struct ModelkitConfig" greatestDepth .top node (⟨none, none, none⟩ : Fields)
    (fun _ => member) fun fields => return ofFields fields

/-- Reads a configuration from its text. -/
def ofText (text : String) : Result Config :=
  (Yaml.read ofNode text).mapError fun fault => .serialization fault.message

def toValue (config : Config) : Value :=
  .mapping [(.string "tracking_uri", .string config.trackingUri),
    (.string "code_dir", .string config.codeDirectory),
    (.string "validate_code_paths", .bool config.validatesCode)]

/-- The text of a configuration. -/
def toText (config : Config) : Result String :=
  config.toValue.toText.mapError fun fault => .serialization fault.message

end ModelShelf.Config
