import ModelShelf.Proofs.Files.Growth
import ModelShelf.Proofs.Store.Manifests
import ModelShelf.Proofs.Uri.Parsing

/-!
The readers of a manifest: a manifest is loaded from the directory of its model, its flavors are
looked up there, and it is found by the URI of the model. They look at one file and agree on it as
long as its bytes are a text.
-/

namespace ModelShelf

open ModelShelf.Path (Plain)
open Text

variable {t : FileTree}

namespace FileTree

/-- Where something lies below a path, the path names a directory. -/
theorem isDirectory_of_join {name : String} (plain : Plain name) {p : Path} {g : Target}
    {node : FileNode} (hne : p.text ≠ "") (hg : t.target (p.join name) = .ok g)
    (there : t.get? g.place = some node) : t.isDirectory p = true := by
  obtain ⟨dir, hdir, -, rfl⟩ := (aim_eq_ok plain (Path.join_of_plain plain p).1).1
    (aim_of_target hg)
  rw [start_join plain.isRelative] at hdir
  obtain ⟨entries, hentries⟩ := FileNode.directory_of_get?_append there
  obtain ⟨g', haim, rfl⟩ := place_of_walk hdir
  have htarget := target_of_aim hg hne (Path.isPrefix_join plain.isRelative).sublist haim
  rw [isDirectory, find_of_directory htarget hentries]

theorem isDirectory_of_isFile_join {name : String} (plain : Plain name) {p : Path}
    (hne : p.text ≠ "") (h : t.isFile (p.join name) = true) : t.isDirectory p = true := by
  obtain ⟨g, bytes, hg, hfile⟩ := (isFile_join plain).1 h
  exact isDirectory_of_join plain hne hg (file?_eq_some.1 hfile)

theorem isDirectory_of_isFile {p : Path} (h : t.isFile p = true) : t.isDirectory p = false := by
  rw [isFile] at h
  split at h
  · rename_i hfind
    rw [isDirectory, hfind]
  · cases h

/-- A path names a file if and only if there are bytes to be read. -/
theorem isFile_iff_read {p : Path} : t.isFile p = true ↔ ∃ bytes, t.read p = .ok bytes := by
  rw [isFile, read]
  cases t.find p with
  | error fault => simp [bind, Except.bind]
  | ok found =>
    obtain ⟨l, node⟩ := found
    cases node <;> simp [bind, Except.bind, pure, Except.pure]

theorem readText_of_read {p : Path} {bytes : ByteArray} (h : t.read p = .ok bytes) :
    t.readText p = (decodeUtf8 bytes).mapError fun _ => .notText := by
  rw [readText, h]
  rfl

end FileTree

/-! ### One reader at a time -/

namespace Manifest

/-- Reads a manifest from bytes, which may not be a text. -/
def ofBytes (undecodable : Utf8Fault → Error) (bytes : ByteArray) : Result Manifest := do
  Manifest.ofText (← (decodeUtf8 bytes).mapError undecodable)

/-- The error of a reader of files. -/
def notText (_ : Utf8Fault) : Error := .file .notText

/-- The error of a reader of repositories. -/
def notUtf8 (fault : Utf8Fault) : Error :=
  .serialization ("MLmodel is not valid UTF-8: " ++ fault.message)

variable {undecodable : Utf8Fault → Error} {bytes : ByteArray}

theorem ofBytes_of_text {text : String} (h : decodeUtf8 bytes = .ok text) :
    ofBytes undecodable bytes = ofText text := by
  rw [ofBytes, h]
  rfl

theorem ofBytes_of_fault {fault : Utf8Fault} (h : decodeUtf8 bytes = .error fault) :
    ofBytes undecodable bytes = .error (undecodable fault) := by
  rw [ofBytes, h]
  rfl

/-- A reader of files reads the manifest that a file holds. -/
theorem load_of_read {p file : Path}
    (chosen : (if t.isDirectory p then p.join manifestName else p) = file)
    (h : t.read file = .ok bytes) : load t p = ofBytes notText bytes := by
  have hfile := FileTree.isFile_iff_read.2 ⟨bytes, h⟩
  rw [load]
  simp only [chosen, hfile, FileTree.readText_of_read h]
  rw [ofBytes]
  cases decodeUtf8 bytes <;> rfl

theorem load_file {file : Path} (h : t.read file = .ok bytes) :
    load t file = ofBytes notText bytes := by
  have notDirectory := FileTree.isDirectory_of_isFile (FileTree.isFile_iff_read.2 ⟨bytes, h⟩)
  exact load_of_read (if_neg (Bool.eq_false_iff.1 notDirectory)) h

theorem load_directory {p : Path} (hne : p.text ≠ "")
    (h : t.read (p.join manifestName) = .ok bytes) : load t p = ofBytes notText bytes := by
  have hfile := FileTree.isFile_iff_read.2 ⟨bytes, h⟩
  exact load_of_read (if_pos (FileTree.isDirectory_of_isFile_join plain_manifestName hne hfile)) h

theorem load_missing {p : Path} (hfile : t.isFile p = false)
    (h : t.isFile (p.join manifestName) = false) : load t p = .error (missingManifest p.text) := by
  rw [load]
  split <;> simp only [hfile, h, Bool.not_false, ↓reduceIte]

/-- A reader of repositories reads the manifest that is below the root. -/
theorem ofRepository_of_read {repository : Repository}
    (h : t.read (repository.root.join manifestName) = .ok bytes) :
    ofRepository repository t = ofBytes notUtf8 bytes := by
  obtain ⟨g, htarget, hfile⟩ := FileTree.read_eq_ok h
  rw [ofRepository, Repository.holds_of_file htarget hfile,
    Repository.read_eq_ok.2 ⟨g, htarget, hfile⟩]
  rfl

theorem ofRepository_missing {repository : Repository}
    (h : t.isFile (repository.root.join manifestName) = false) :
    ∃ text, ofRepository repository t = .error (.notFound text) := by
  rw [ofRepository, Repository.holds, Repository.read, Resolver.path_manifestName]
  simp only [bind, Except.bind, h, Bool.false_eq_true, ↓reduceIte]
  cases t.exists? (repository.root.join manifestName)
  · exact ⟨_, rfl⟩
  · exact ⟨_, rfl⟩

/-- What a manifest says of a flavor. -/
def flavor (m : Manifest) (name : String) : Result FlavorConfig :=
  match m.flavors.get? name with
  | some config => .ok config
  | none => .error (.notFound ("Model does not have the \"" ++ name ++ "\" flavor"))

end Manifest

theorem flavorConfig_of_read {p : Path} {bytes : ByteArray} (name : String)
    (h : t.read (p.join manifestName) = .ok bytes) :
    flavorConfig t p name =
      Manifest.ofBytes Manifest.notText bytes >>= (Manifest.flavor · name) := by
  have hfile := FileTree.isFile_iff_read.2 ⟨bytes, h⟩
  rw [flavorConfig]
  simp only [hfile]
  rw [Manifest.load_file h]
  rfl

theorem flavorConfig_missing {p : Path} (name : String)
    (h : t.isFile (p.join manifestName) = false) :
    flavorConfig t p name = .error (missingManifest p.text) := by
  rw [flavorConfig]
  simp only [h, Bool.not_false, ↓reduceIte]

/-- A path that is its own URI leads to the repository of its directory. -/
theorem Resolver.modelInfo_of_path (r : Resolver) (t : FileTree) {path : String}
    (kept : ModelUri.parse path = .ok (.directory ⟨path⟩)) :
    r.modelInfo t path = do return (← Manifest.ofRepository ⟨⟨path⟩⟩ t).info path := by
  rw [modelInfo, kept]
  rfl

/-! ### All readers -/

/-- All readers of the manifest at a path read `m`, and its flavors are looked up in it. -/
structure ReadersFind (r : Resolver) (t : FileTree) (path : String) (m : Manifest) : Prop where
  load : Manifest.load t ⟨path⟩ = .ok m
  info : r.modelInfo t path = .ok (m.info path)
  found : ∀ name config, m.flavors.get? name = some config →
    flavorConfig t ⟨path⟩ name = .ok config
  missing : ∀ name, m.flavors.get? name = none →
    ∃ e, flavorConfig t ⟨path⟩ name = .error e ∧ e.code = .doesNotExist

/-- All readers of the manifest at a path fail with errors of one class. -/
structure ReadersFail (r : Resolver) (t : FileTree) (path : String) (code : ErrorCode) : Prop where
  load : ∃ e, Manifest.load t ⟨path⟩ = .error e ∧ e.code = code
  info : ∃ e, r.modelInfo t path = .error e ∧ e.code = code
  flavor : ∀ name, ∃ e, flavorConfig t ⟨path⟩ name = .error e ∧ e.code = code

def ReadersAgree (r : Resolver) (t : FileTree) (path : String) : Prop :=
  (∃ m, ReadersFind r t path m) ∨ ∃ code, ReadersFail r t path code

section Agreement

variable (r : Resolver) {path : String} (kept : ModelUri.parse path = .ok (.directory ⟨path⟩))

include kept

theorem ne_empty_of_kept : path ≠ "" := by
  rintro rfl
  cases kept

/-- Without a file to read from, nothing is found. -/
theorem readersFail_of_missing (notFile : t.isFile ⟨path⟩ = false)
    (h : t.isFile (Path.join ⟨path⟩ manifestName) = false) :
    ReadersFail r t path .doesNotExist where
  load := ⟨_, Manifest.load_missing notFile h, rfl⟩
  info := by
    have missing : ∃ text, Manifest.ofRepository ⟨⟨path⟩⟩ t = .error (.notFound text) :=
      Manifest.ofRepository_missing h
    obtain ⟨text, htext⟩ := missing
    rw [r.modelInfo_of_path t kept, htext]
    exact ⟨_, rfl, rfl⟩
  flavor name := ⟨_, flavorConfig_missing name h, rfl⟩

variable {bytes : ByteArray} (h : t.read (Path.join ⟨path⟩ manifestName) = .ok bytes)

include h

theorem load_of_kept : Manifest.load t ⟨path⟩ = Manifest.ofBytes Manifest.notText bytes :=
  Manifest.load_directory (ne_empty_of_kept kept) h

theorem modelInfo_of_kept : r.modelInfo t path = do
    return (← Manifest.ofBytes Manifest.notUtf8 bytes).info path := by
  rw [r.modelInfo_of_path t kept, Manifest.ofRepository_of_read h]

/-- A text is read in the same way by all readers, whether or not it is a manifest. -/
theorem readersAgree_of_text {text : String} (decoded : decodeUtf8 bytes = .ok text) :
    ReadersAgree r t path := by
  have load := load_of_kept kept h
  have info := modelInfo_of_kept r kept h
  have flavor (name : String) := flavorConfig_of_read name h
  simp only [Manifest.ofBytes_of_text decoded] at load info flavor
  cases hm : Manifest.ofText text with
  | ok m =>
    simp only [hm] at load info flavor
    refine .inl ⟨m, load, info, fun name config hconfig => ?_, fun name hnone => ?_⟩
    · rw [flavor name]
      simp only [bind, Except.bind, Manifest.flavor, hconfig]
    · refine ⟨.notFound ("Model does not have the \"" ++ name ++ "\" flavor"), ?_, rfl⟩
      rw [flavor name]
      simp only [bind, Except.bind, Manifest.flavor, hnone]
  | error e =>
    simp only [hm] at load info flavor
    exact .inr ⟨e.code, ⟨e, load, rfl⟩, ⟨e, info, rfl⟩, fun name => ⟨e, flavor name, rfl⟩⟩

/-- Bytes that are no text are an input error for the readers of files, and a malformed document
for the reader of repositories. -/
theorem readers_of_fault {fault : Utf8Fault} (bad : decodeUtf8 bytes = .error fault) :
    Manifest.load t ⟨path⟩ = .error (.file .notText) ∧
    (∀ name, flavorConfig t ⟨path⟩ name = .error (.file .notText)) ∧
    r.modelInfo t path =
      .error (.serialization ("MLmodel is not valid UTF-8: " ++ fault.message)) := by
  have load := load_of_kept kept h
  have info := modelInfo_of_kept r kept h
  have flavor (name : String) := flavorConfig_of_read name h
  simp only [Manifest.ofBytes_of_fault bad] at load info flavor
  exact ⟨load, flavor, info⟩

theorem not_readersAgree_of_fault {fault : Utf8Fault} (bad : decodeUtf8 bytes = .error fault) :
    ¬ ReadersAgree r t path := by
  obtain ⟨load, -, info⟩ := readers_of_fault r kept h bad
  rintro (⟨m, find⟩ | ⟨code, fail⟩)
  · cases load.symm.trans find.load
  · obtain ⟨e, he, hcode⟩ := fail.load
    obtain ⟨e', he', hcode'⟩ := fail.info
    obtain rfl := Except.error.inj (load.symm.trans he)
    obtain rfl := Except.error.inj (info.symm.trans he')
    cases hcode.trans hcode'.symm

end Agreement

/-- The readers of the manifest at a path that is its own URI agree, in what they read and in how
they fail, unless the bytes of the file are no text. Then the readers of files report an internal
error, and the reader of repositories an invalid value. -/
theorem readersAgree_iff (r : Resolver) (t : FileTree) {path : String}
    (kept : ModelUri.parse path = .ok (.directory ⟨path⟩)) (notFile : t.isFile ⟨path⟩ = false) :
    (ReadersAgree r t path ↔ ∀ bytes fault,
      t.read (Path.join ⟨path⟩ manifestName) = .ok bytes → decodeUtf8 bytes ≠ .error fault) ∧
    ∀ bytes fault, t.read (Path.join ⟨path⟩ manifestName) = .ok bytes →
      decodeUtf8 bytes = .error fault →
        Manifest.load t ⟨path⟩ = .error (.file .notText) ∧
        (∀ name, flavorConfig t ⟨path⟩ name = .error (.file .notText)) ∧
        r.modelInfo t path =
          .error (.serialization ("MLmodel is not valid UTF-8: " ++ fault.message)) := by
  refine ⟨⟨fun agree bytes fault h bad => ?_, fun texts => ?_⟩,
    fun bytes fault h bad => readers_of_fault r kept h bad⟩
  · exact not_readersAgree_of_fault r kept h bad agree
  · cases hread : t.read (Path.join ⟨path⟩ manifestName) with
    | ok bytes =>
      cases hdecode : decodeUtf8 bytes with
      | ok text => exact readersAgree_of_text r kept hread hdecode
      | error fault => exact absurd hdecode (texts bytes fault hread)
    | error fault =>
      refine .inr ⟨_, readersFail_of_missing r kept notFile ?_⟩
      rw [Bool.eq_false_iff]
      intro hfile
      obtain ⟨bytes, hbytes⟩ := FileTree.isFile_iff_read.1 hfile
      cases hread.symm.trans hbytes

/-- A model in a directory of its own whose manifest is no text. -/
def undecodableTree : FileTree :=
  ⟨.directory [("model", .directory [(manifestName, .file ⟨#[0xff]⟩)])], [], rfl, rfl⟩

theorem undecodableTree_runs :
    (ModelUri.parse "model").toOption = some (.directory ⟨"model"⟩) ∧
    undecodableTree.isFile ⟨"model"⟩ = false ∧
    decodeUtf8 ⟨#[0xff]⟩ = .error ⟨0, some 1⟩ := by
  decide +kernel

theorem undecodableTree_read :
    undecodableTree.read (Path.join ⟨"model"⟩ manifestName) = .ok ⟨#[0xff]⟩ := rfl

theorem readersAgree_iff_undecodable :
    ModelUri.parse "model" = .ok (.directory ⟨"model"⟩) ∧
    undecodableTree.isFile ⟨"model"⟩ = false ∧
    Manifest.load undecodableTree ⟨"model"⟩ = .error (.file .notText) ∧
    (Resolver.ofRuns ⟨⟨"runs"⟩⟩).modelInfo undecodableTree "model" = .error (.serialization
      "MLmodel is not valid UTF-8: invalid utf-8 sequence of 1 bytes from index 0") := by
  obtain ⟨hparse, notFile, bad⟩ := undecodableTree_runs
  have kept := eq_ok_of_toOption hparse
  obtain ⟨-, faults⟩ := readersAgree_iff (.ofRuns ⟨⟨"runs"⟩⟩) undecodableTree kept notFile
  obtain ⟨load, -, info⟩ := faults _ _ undecodableTree_read bad
  exact ⟨kept, notFile, load, info⟩

theorem readers_disagree : ¬ ∀ (r : Resolver) (t : FileTree) (path : String),
    ModelUri.parse path = .ok (.directory ⟨path⟩) → t.isFile ⟨path⟩ = false →
      ReadersAgree r t path := by
  intro always
  obtain ⟨hparse, notFile, bad⟩ := undecodableTree_runs
  have kept := eq_ok_of_toOption hparse
  exact not_readersAgree_of_fault (.ofRuns ⟨⟨"runs"⟩⟩) kept undecodableTree_read bad
    (always _ _ _ kept notFile)

end ModelShelf
