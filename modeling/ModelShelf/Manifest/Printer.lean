import ModelShelf.Manifest.Basic
import ModelShelf.Yaml.Printer

/-!
Writing manifests as YAML. Members stand in a fixed order and are left out when absent, except for
the flavors; the unknown members follow, sorted by name.
-/

namespace ModelShelf

open Yaml (Value)

def Dictionary.toValue (encode : α → Value) (d : Dictionary α) : Value :=
  .mapping (d.entries.map fun (name, a) => (.string name, encode a))

/-- A member that is left out when it is absent. -/
def optionalMember (name : String) (encode : α → Value) (a : Option α) : List (Value × Value) :=
  (a.map fun a => (Value.string name, encode a)).toList

def SignatureTexts.toValue (texts : SignatureTexts) : Value :=
  .mapping ((.string "inputs", .string texts.inputs) ::
    optionalMember "outputs" .string texts.outputs)

namespace Manifest

def toValue (m : Manifest) : Value :=
  .mapping (
    optionalMember "artifact_path" .string m.artifactPath ++
    [(.string "flavors", m.flavors.toValue (Dictionary.toValue id))] ++
    optionalMember "model_uuid" .string m.modelId ++
    optionalMember "run_id" .string m.runId ++
    optionalMember "signature" SignatureTexts.toValue m.signature ++
    optionalMember "utc_time_created" .string m.created ++
    optionalMember "metadata" (Dictionary.toValue id) m.metadata ++
    m.extra.entries.map fun (name, v) => (.string name, v))

/-- The text of a manifest. -/
def toText (m : Manifest) : Result String :=
  m.toValue.toText.mapError fun fault => .serialization fault.message

end Manifest

end ModelShelf
