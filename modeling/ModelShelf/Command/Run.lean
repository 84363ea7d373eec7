import ModelShelf.Code.Bundle
import ModelShelf.Command.Arguments
import ModelShelf.Command.Report
import ModelShelf.Json.Printer
import ModelShelf.Store.Models
import ModelShelf.Yaml.Json

/-!
Running a command on a file tree in an environment: what it prints, and the file tree after it.
-/

namespace ModelShelf

open Yaml (Value)

/-- The environment and the files that a command sees. -/
structure Session where
  palette : Palette
  config : Config
  files : FileTree

namespace Session

def resolver (s : Session) : Resolver := .ofConfig s.config

def within (context : String) (r : Result α) : Except Failure α :=
  r.mapError (Failure.within context)

def pretty (value : Json) : String := Json.renderIndented 0 value

/-- A dictionary as JSON. -/
def dictionaryText (d : Dictionary Value) : Except Failure String := do
  let members ← (d.entries.mapM fun (e : String × Value) => do return (e.1, ← e.2.toJson)).mapError
    fun fault => ⟨Yaml.KeyFault.message fault, []⟩
  return pretty (.object members)

def showFlavor (s : Session) (model : Path) (flavor : String) : Except Failure Report := do
  let config ← within ("Failed to read flavor '" ++ flavor ++ "' from " ++ model.text)
    (flavorConfig s.files model flavor)
  return .ofLines [← dictionaryText config]

/-- The lines of a text, without what ends them. -/
def linesOf (text : String) : List String :=
  let lines := text.splitOn "\n"
  if lines.getLast? = some "" then lines.dropLast else lines

def signatureLines (s : Session) (info : ModelInfo) : Except Failure (List String) := do
  match ← info.signature?.mapError Failure.ofError with
  | some signature =>
    return s.palette.faint "signature:" :: (linesOf signature.display).map ("  " ++ ·)
  | none => return [s.palette.field "signature" none]

def infoLines (s : Session) (info : ModelInfo) : Except Failure (List String) := do
  let p := s.palette
  let signature ← s.signatureLines info
  let metadata ← info.metadata.mapM dictionaryText
  return [p.field "model_uri" (some info.uri), p.field "model_uuid" info.modelId,
      p.field "run_id" info.runId, p.field "artifact_path" info.artifactPath,
      p.field "utc_time_created" info.created,
      p.field "flavors" (some (", ".intercalate info.flavors.names))] ++ signature ++
    (metadata.map fun text => p.field "metadata" (some text)).toList

def showInfo (s : Session) (r : Resolver) (uri : String) : Except Failure Report := do
  let info ← within ("Failed to load model info for " ++ uri) (r.modelInfo s.files uri)
  return Report.after (s.palette.header "Model Info")
    (.ofExcept (Report.ofLines <$> s.infoLines info))

def textsJson : Option SignatureTexts → Json
  | none => .null
  | some texts => texts.toJson

def showSignature (s : Session) (r : Resolver) (uri : String) (asJson : Bool) :
    Except Failure Report := do
  let info ← within ("Failed to load model " ++ uri) (r.modelInfo s.files uri)
  if asJson then return .ofLines [pretty (textsJson info.signature)]
  else
    match ← within "Stored signature is malformed" info.signature? with
    | some signature => return ⟨signature.display, none⟩
    | none => return .ofLines [s.palette.warning "Model has no signature"]

/-- Reads a signature from a file. -/
def signatureFile (s : Session) (file : Path) : Except Failure Signature := do
  let text ← (s.files.readText file).mapError fun fault =>
    ⟨"Failed to read " ++ file.text, [fault.message]⟩
  within ("Invalid signature in " ++ file.text) (Signature.ofJsonText text)

def setSignature (s : Session) (r : Resolver) (uri : String) (file : Path) : Report × FileTree :=
  match s.signatureFile file with
  | .error failure => (.failed failure, s.files)
  | .ok signature =>
    match (r.setSignature uri signature).run s.files with
    | .ok _ files =>
      (.ofLines [s.palette.done "Updated" ++ " signature of " ++ uri], files)
    | .error e files => (.failed (.within ("Failed to set signature on " ++ uri) e), files)

def showCodePath (s : Session) (model : Path) (flavor : String) : Except Failure Report := do
  let config ← within ("Failed to read flavor '" ++ flavor ++ "'")
    (flavorConfig s.files model flavor)
  match (SearchPath.addCode s.files s.config model config codeKey).run .empty with
  | .error e _ => .error (.within "Failed to add model code to the search path" e)
  | .ok added path =>
    let first := match added with
      | some directory => s.palette.done "Added" ++ " " ++ directory.text
      | none => s.palette.warning "Flavor has no bundled code"
    return .ofLines (first :: s.palette.header "Search Path" ++
      path.entries.map fun place => place.val.path.text)

/-- Runs a command: what it reports, and the files after it. -/
def run (s : Session) : Command → Report × FileTree
  | .flavor model flavor => (.ofExcept (s.showFlavor model flavor), s.files)
  | .info uri => (.ofExcept (s.showInfo s.resolver uri), s.files)
  | .showSignature uri asJson => (.ofExcept (s.showSignature s.resolver uri asJson), s.files)
  | .setSignature uri file => s.setSignature s.resolver uri file
  | .codePath model flavor => (.ofExcept (s.showCodePath model flavor), s.files)

end Session

/-- How a program ends: its exit code and what it printed. -/
structure Outcome where
  exit : Nat
  output : String
  errors : List String
deriving DecidableEq, Repr

namespace Outcome

def usageText : String :=
  "Usage: modelkit [--tracking-uri <URI>] [-v] <COMMAND>\n\n" ++
  "Commands:\n" ++
  "  flavor <MODEL_PATH> <FLAVOR>\n" ++
  "  info <MODEL_URI>\n" ++
  "  signature show [--json] <MODEL_URI>\n" ++
  "  signature set <MODEL_URI> <SIGNATURE_JSON_FILE>\n" ++
  "  code-path <MODEL_PATH> <FLAVOR>\n"

def ofUsage : Usage → Outcome
  | .help => ⟨0, usageText, []⟩
  | .wrong => ⟨2, "", ["error: the arguments are wrong", "", usageText]⟩

def ofReport (r : Report) : Outcome :=
  match r.failure with
  | none => ⟨0, r.output, []⟩
  | some failure => ⟨1, r.output, failure.lines⟩

/-- Colours are written only where they are forced. -/
def paletteOf (env : Environment) : Palette :=
  ⟨(env "CLICOLOR_FORCE").any (· ≠ "0")⟩

/-- The configuration of an environment, with the place of runs that the arguments or the
environment give. -/
def configOf (env : Environment) (trackingUri : Option String) : Config :=
  let config := Config.ofEnvironmentOrBuiltin env
  match trackingUri.or (env Config.trackingVariable.name) with
  | some uri => { config with trackingUri := uri }
  | none => config

/-- Runs the program with its arguments: how it ends, and the files after it. -/
def ofArguments (env : Environment) (files : FileTree) (arguments : List String) :
    Outcome × FileTree :=
  match Invocation.ofArguments arguments with
  | .error usage => (.ofUsage usage, files)
  | .ok invocation =>
    let session : Session := ⟨paletteOf env, configOf env invocation.trackingUri, files⟩
    let (report, files) := session.run invocation.command
    (.ofReport report, files)

end Outcome

end ModelShelf
