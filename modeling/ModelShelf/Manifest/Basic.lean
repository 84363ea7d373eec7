import ModelShelf.Dictionary
import ModelShelf.Signature.Basic
import ModelShelf.Time.Instant
import ModelShelf.Yaml.Value

/-!
Manifests: what is recorded of a stored model. Each flavor is a way to load the model and has a
configuration of its own; members that the library does not know are kept as they are.
-/

namespace ModelShelf

/-- The configuration of a flavor. -/
abbrev FlavorConfig := Dictionary Yaml.Value

/-- Free-form notes on a model. -/
abbrev Metadata := Dictionary Yaml.Value

/-- What is recorded of a stored model. -/
structure Manifest where
  /-- Where the model lies below the artifacts of its run. -/
  artifactPath : Option String
  flavors : Dictionary FlavorConfig
  modelId : Option String
  runId : Option String
  /-- The signature in its stored form, which need not be well-formed. -/
  signature : Option SignatureTexts
  /-- When the model was made, in universal time. -/
  created : Option String
  metadata : Option Metadata
  /-- All other members. -/
  extra : Dictionary Yaml.Value
deriving DecidableEq, Repr

/-- What is reported of a model: its manifest without the unknown members, and where it was
found. -/
structure ModelInfo where
  artifactPath : Option String
  flavors : Dictionary FlavorConfig
  uri : String
  modelId : Option String
  runId : Option String
  signature : Option SignatureTexts
  created : Option String
  metadata : Option Metadata
deriving Repr

/-- The signature behind a stored form, if there is one. -/
def SignatureTexts.decode? (texts : Option SignatureTexts) : Result (Option Signature) :=
  texts.mapM Signature.ofTexts

namespace Manifest

def empty : Manifest := ⟨none, .empty, none, none, none, none, none, .empty⟩

/-- The text of the time at which a model was made: date and time of day with microseconds. -/
def createdText (now : Time.Instant) : String :=
  let date := Time.Date.ofDays (now.seconds.fdiv 86400)
  let second := (now.seconds.fmod 86400).toNat
  let two := Time.Instant.padded 2
  Time.Instant.yearText date.year ++ "-" ++ two date.month ++ "-" ++ two date.day ++ " " ++
    two (second / 3600) ++ ":" ++ two (second / 60 % 60) ++ ":" ++ two (second % 60) ++ "." ++
    Time.Instant.padded 6 (now.nanoseconds / 1000)

/-- The manifest of a new model. -/
def new (modelId : String) (now : Time.Instant) : Manifest :=
  { empty with modelId := some modelId, created := some (createdText now) }

/-- Records a flavor; one of the same name is replaced. -/
def addFlavor (m : Manifest) (name : String) (config : FlavorConfig) : Manifest :=
  { m with flavors := m.flavors.insert name config }

def setSignature (m : Manifest) (signature : Option Signature) : Manifest :=
  { m with signature := signature.map Signature.toTexts }

def addMetadata (m : Manifest) (key : String) (value : Yaml.Value) : Manifest :=
  { m with metadata := some ((m.metadata.getD .empty).insert key value) }

def extra? (m : Manifest) (key : String) : Option Yaml.Value := m.extra.get? key

def setExtra (m : Manifest) (key : String) (value : Yaml.Value) : Manifest :=
  { m with extra := m.extra.insert key value }

/-- The recorded signature. -/
def signature? (m : Manifest) : Result (Option Signature) := SignatureTexts.decode? m.signature

/-- What is reported of a model found at a place. -/
def info (m : Manifest) (uri : String) : ModelInfo where
  artifactPath := m.artifactPath
  flavors := m.flavors
  uri := uri
  modelId := m.modelId
  runId := m.runId
  signature := m.signature
  created := m.created
  metadata := m.metadata

end Manifest

def ModelInfo.signature? (info : ModelInfo) : Result (Option Signature) :=
  SignatureTexts.decode? info.signature

namespace Dictionary

/-- Whether two dictionaries have the same names and equal values. -/
def same (equal : α → α → Bool) (a b : Dictionary α) : Bool :=
  a.names = b.names && (a.entries.zip b.entries).all fun (x, y) => equal x.2 y.2

end Dictionary

/-- Equality of dictionaries of YAML values. -/
def FlavorConfig.same : FlavorConfig → FlavorConfig → Bool := Dictionary.same Yaml.Value.same

/-- Equality of manifests, up to the equality of YAML values. -/
def Manifest.same (a b : Manifest) : Bool :=
  let metadata := match a.metadata, b.metadata with
    | none, none => true
    | some x, some y => FlavorConfig.same x y
    | _, _ => false
  a.artifactPath = b.artifactPath && Dictionary.same FlavorConfig.same a.flavors b.flavors &&
    a.modelId = b.modelId && a.runId = b.runId && a.signature = b.signature &&
    a.created = b.created && metadata && FlavorConfig.same a.extra b.extra

end ModelShelf
