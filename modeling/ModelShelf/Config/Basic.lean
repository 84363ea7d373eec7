import ModelShelf.Config.Variable
import ModelShelf.Files.Path

/-!
The configuration of the library: where runs are tracked, how the directory of a model's code is
called, and whether code that is recorded has to be there.
-/

namespace ModelShelf

open Text

/-- The settings of the library. -/
structure Config where
  trackingUri : String
  codeDirectory : String
  /-- Whether a recorded code directory has to be there. -/
  validatesCode : Bool
deriving DecidableEq, Repr

namespace Config

def trackingVariable : Variable String := .ofText "MODELKIT_TRACKING_URI" "./mlruns"
def codeVariable : Variable String := .ofText "MODELKIT_CODE_DIR" "code"
def validationSwitch : Switch := ⟨"MODELKIT_VALIDATE_CODE_PATHS", true⟩

/-- The configuration of an environment that sets nothing. -/
def builtin : Config :=
  ⟨trackingVariable.default, codeVariable.default, validationSwitch.default⟩

/-- The configuration of an environment, in which all variables have to be well-formed. -/
def ofEnvironment (env : Environment) : Result Config := do
  let trackingUri ← trackingVariable.get env
  let codeDirectory ← codeVariable.get env
  let validatesCode ← validationSwitch.get env
  return ⟨trackingUri, codeDirectory, validatesCode⟩

/-- The configuration of an environment, or the built-in one if it is malformed. -/
def ofEnvironmentOrBuiltin (env : Environment) : Config := (ofEnvironment env).toOption.getD builtin

/-- The text without the scheme of files, if it begins with it. -/
def withoutFileScheme (uri : String) : String :=
  match stripPrefix? "file://".toList uri.toList with
  | some rest => String.ofList rest
  | none => uri

/-- The directory in which runs are tracked. -/
def trackingRoot (config : Config) : Path := ⟨withoutFileScheme config.trackingUri⟩

end Config

end ModelShelf
