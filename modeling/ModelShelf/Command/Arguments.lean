import ModelShelf.Files.Path

/-!
The arguments of the command line: a command with its own arguments, and options that may stand
before or after the command's name. Two dashes end the options.
-/

namespace ModelShelf

/-- What is asked for on the command line. -/
inductive Command where
  /-- The configuration of a flavor. -/
  | flavor (model : Path) (flavor : String)
  /-- What is recorded of a model. -/
  | info (uri : String)
  | showSignature (uri : String) (asJson : Bool)
  | setSignature (uri : String) (file : Path)
  /-- The search path with a flavor's code on it. -/
  | codePath (model : Path) (flavor : String)
deriving DecidableEq, Repr

/-- A command and the options that hold for all commands. -/
structure Invocation where
  /-- Where runs are tracked, if it is given. -/
  trackingUri : Option String
  command : Command
deriving DecidableEq, Repr

/-- Why the arguments ask for no command. -/
inductive Usage where
  /-- Help was asked for. -/
  | help
  /-- The arguments are wrong. -/
  | wrong
deriving DecidableEq, Repr

namespace Arguments

/-- The words that name a command, as far as they are read. -/
inductive Level where
  | top
  | signature
  | flavor
  | info
  | showSignature
  | setSignature
  | codePath
deriving DecidableEq

namespace Level

def named? : Level → String → Option Level
  | .top, "flavor" => some .flavor
  | .top, "info" => some .info
  | .top, "signature" => some .signature
  | .top, "code-path" => some .codePath
  | .signature, "show" => some .showSignature
  | .signature, "set" => some .setSignature
  | _, _ => none

/-- Whether another word has to follow. -/
def isGroup : Level → Bool
  | .top | .signature => true
  | _ => false

/-- For each argument of a command, whether it is a path, and must not be empty. -/
def arguments : Level → List Bool
  | .flavor | .codePath => [true, false]
  | .info | .showSignature => [false]
  | .setSignature => [false, true]
  | .top | .signature => []

end Level

/-- The arguments as far as they are read. -/
structure State where
  level : Level
  trackingUri : Option String
  /-- Whether the tracking option was given since the last word of the command. -/
  isTracked : Bool
  asJson : Bool
  values : List String
  /-- Whether the options have ended. -/
  onlyValues : Bool

def State.start : State := ⟨.top, none, false, false, [], false⟩

/-- Whether the words after the help command name a command. -/
def helpFor : Level → List String → Usage
  | _, [] => .help
  | level, word :: rest =>
    match level.named? word with
    | some next => helpFor next rest
    | none => if level.isGroup && word = "help" && rest.isEmpty then .help else .wrong

def addValue (s : State) (value : String) : Except Usage State :=
  match s.level.arguments[s.values.length]? with
  | none => .error .wrong
  | some isPath =>
    if isPath && value.isEmpty then .error .wrong
    else .ok { s with values := s.values ++ [value] }

def track (s : State) (uri : String) : Except Usage State :=
  if s.isTracked then .error .wrong
  else .ok { s with trackingUri := some uri, isTracked := true }

/-- A run of options of one letter. -/
def letters (s : State) : List Char → Except Usage State
  | [] => .ok s
  | 'v' :: rest => letters s rest
  | 'h' :: _ => .error .help
  | _ => .error .wrong

/-- An option without a value. -/
def flag (s : State) (name : String) : Except Usage State :=
  match name with
  | "--help" => .error .help
  | "--verbose" => .ok s
  | "--json" =>
    if s.level = .showSignature && !s.asJson then .ok { s with asJson := true }
    else .error .wrong
  | _ => .error .wrong

def looksLikeOption (argument : String) : Bool := argument.startsWith "-" && argument ≠ "-"

def trackingOption : String := "--tracking-uri"

def readFrom (s : State) : List String → Except Usage State
  | [] => .ok s
  | argument :: rest =>
    if s.onlyValues then do readFrom (← addValue s argument) rest
    else if argument = "--" then readFrom { s with onlyValues := true } rest
    else if argument = trackingOption then
      match rest with
      | [] => .error .wrong
      | uri :: rest =>
        if looksLikeOption uri then .error .wrong else do readFrom (← track s uri) rest
    else if argument.startsWith (trackingOption ++ "=") then do
      let uri := String.ofList (argument.toList.drop (trackingOption.length + 1))
      readFrom (← track s uri) rest
    else if argument.startsWith "--" then do readFrom (← flag s argument) rest
    else if looksLikeOption argument then do
      readFrom (← letters s (argument.toList.drop 1)) rest
    else if s.level.isGroup then
      match s.level.named? argument with
      | some level => readFrom { s with level, isTracked := false } rest
      | none => if argument = "help" then .error (helpFor s.level rest) else .error .wrong
    else do readFrom (← addValue s argument) rest

def command? (s : State) : Option Command :=
  match s.level, s.values with
  | .flavor, [model, flavor] => some (.flavor ⟨model⟩ flavor)
  | .info, [uri] => some (.info uri)
  | .showSignature, [uri] => some (.showSignature uri s.asJson)
  | .setSignature, [uri, file] => some (.setSignature uri ⟨file⟩)
  | .codePath, [model, flavor] => some (.codePath ⟨model⟩ flavor)
  | _, _ => none

end Arguments

/-- The invocation that the arguments write. -/
def Invocation.ofArguments (arguments : List String) : Except Usage Invocation := do
  let s ← Arguments.readFrom .start arguments
  match Arguments.command? s with
  | some command => return ⟨s.trackingUri, command⟩
  | none => .error .wrong

end ModelShelf
