import ModelShelf.Command.Reach

/-!
The command line program. It reads the files that a command looks at, runs the command on them,
prints what it reports, and writes the files that have changed.
-/

namespace ModelShelf

/-- What a path names: a file with its contents, or a directory with the names in it. -/
def readNode (path : String) : IO (Option FileNode) := do
  let full := (← IO.currentDir) / path
  try
    if ← full.isDir then
      let entries ← (← full.readDir).mapM fun entry => do
        let node :=
          if ← entry.path.isDir then FileNode.directory [] else .file ByteArray.empty
        return (entry.fileName, node)
      return some (.directory entries.toList)
    else
      return some (.file (← IO.FS.readBinFile full))
  catch _ => return none

/-- Reads the files that come into reach, a few times over. -/
def readFiles (command : Command) : Nat → Session → List Path → IO Session
  | 0, s, _ => return s
  | rounds + 1, s, known => do
    let new := (s.reach command).filter fun p => !known.contains p
    let mut files := s.files
    for p in new do
      let place := files.placeOf p
      if let some node ← readNode place.path.text then
        let node := match files.get? place, node with
          | some (.file _), .file contents => .file contents
          | some old, node => old.merge node
          | none, node => node
        files := (files.addKnown place node).put place node
    readFiles command rounds { s with files } (known ++ new)

/-- Writes the files that have changed. -/
def writeFiles (before after : FileTree) (paths : List Path) : IO Unit :=
  paths.forM fun p => do
    match before.read p, after.read p with
    | .ok old, .ok new =>
      if old.data ≠ new.data then
        IO.FS.writeBinFile ((← IO.currentDir) / p.text) new
    | _, _ => pure ()

/-- The variables that the program reads. -/
def readEnvironment : IO Environment := do
  let names := [Config.trackingVariable.name, Config.codeVariable.name,
    Config.validationSwitch.name, "CLICOLOR_FORCE"]
  let values ← names.mapM fun name => do return (name, ← IO.getEnv name)
  return fun name => (values.lookup name).getD none

/-- The place of the working directory. -/
def currentPlace : IO Location := do
  let path : Path := ⟨(← IO.currentDir).toString⟩
  return path.parts.filter fun part => !Path.isIdle part

end ModelShelf

open ModelShelf

def main (arguments : List String) : IO UInt32 := do
  let env ← readEnvironment
  let place ← currentPlace
  let files := (FileTree.empty.addKnown place (.directory [])).enter place
  let files ← match Invocation.ofArguments arguments with
    | .error _ => pure files
    | .ok invocation => do
      let config := Outcome.configOf env invocation.trackingUri
      let session : Session := ⟨⟨false⟩, config, files⟩
      let session ← readFiles invocation.command 6 session []
      let (_, after) := session.run invocation.command
      writeFiles session.files after (session.reach invocation.command)
      pure session.files
  let (outcome, _) := Outcome.ofArguments env files arguments
  IO.print outcome.output
  outcome.errors.forM IO.eprintln
  return UInt32.ofNat outcome.exit
