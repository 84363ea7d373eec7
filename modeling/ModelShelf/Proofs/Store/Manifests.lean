import ModelShelf.Proofs.Files.Change
import ModelShelf.Proofs.Manifest.RoundTrip
import ModelShelf.Store.Models

/-!
Where the manifests of models are. A manifest has a place of its own in the tree; which place a URI
leads to does not depend on the contents of any manifest, because runs are found by other files.
-/

namespace ModelShelf

open ModelShelf.Path (Plain)

theorem plain_manifestName : Plain manifestName := ⟨by decide, by decide, by decide⟩

theorem plain_recordName : Plain RunStore.recordName := ⟨by decide, by decide, by decide⟩

/-- A place where a manifest may be. -/
def Location.IsManifest (l : Location) : Prop := l.getLast? = some manifestName

namespace FileTree

variable {t t' : FileTree}

/-- Trees that differ in the contents of manifests only. -/
abbrev SameButManifests (t t' : FileTree) : Prop := SameBut Location.IsManifest t t'

theorem getLast?_of_target {name : String} (plain : Plain name) {p : Path} {g : Target}
    (h : t.target (p.join name) = .ok g) : g.place.getLast? = some name := by
  obtain ⟨before, hparts⟩ := Path.parts_join plain p
  obtain ⟨dir, -, hplace⟩ := place_of_plain plain hparts h
  rw [hplace, List.getLast?_concat]

end FileTree

open FileTree (SameButManifests getLast?_of_target)

variable {t t' : FileTree}

/-! ### Runs -/

namespace RunStore

theorem exists_of_find {store : RunStore} {runId : String} {path : Path}
    (h : store.find t runId = .ok (some path)) :
    ∃ directory : Path, path = directory.join recordName := by
  rw [find] at h
  split at h
  · cases h
  · split at h
    · cases h
    · obtain ⟨experiments, -, h⟩ := bind_eq_ok.1 h
      have hmem := List.mem_of_find?_eq_some (Except.ok.inj h)
      obtain ⟨experiment, -, rfl⟩ := List.mem_map.1 hmem
      exact ⟨_, rfl⟩

theorem find_eq (h : SameButManifests t t') (store : RunStore) (runId : String) :
    store.find t' runId = store.find t runId := by
  have files : t'.isFile = t.isFile := funext h.isFile_eq
  rw [find, find, h.isDirectory_eq, h.list_eq, files]

theorem get_eq (h : SameButManifests t t') (store : RunStore) (runId : String) :
    store.get t' runId = store.get t runId := by
  rw [get, get, find_eq h]
  cases hfind : store.find t runId with
  | error e => rfl
  | ok found =>
    cases found with
    | none => rfl
    | some path =>
      obtain ⟨directory, rfl⟩ := exists_of_find hfind
      simp only [bind, Except.bind]
      rw [h.readText_eq fun g hg hmanifest => ?_]
      rw [Location.IsManifest, getLast?_of_target plain_recordName hg] at hmanifest
      exact absurd hmanifest (by decide)

theorem artifactUri_eq (h : SameButManifests t t') (store : RunStore) (runId : String) :
    store.artifactUri t' runId = store.artifactUri t runId := by
  rw [artifactUri, artifactUri, get_eq h]

end RunStore

/-! ### Places of manifests -/

namespace Resolver

theorem resolve_eq (h : SameButManifests t t') (r : Resolver) (uri : ModelUri) :
    r.resolve t' uri = r.resolve t uri := by
  cases uri with
  | run runId path => rw [resolve, resolve, RunStore.artifactUri_eq h]
  | _ => rfl

/-- Where the manifest of the model at a URI is. -/
def manifestPlace (r : Resolver) (t : FileTree) (uri : String) : Result Location := do
  let repository ← r.resolve t (← ModelUri.parse uri)
  let target ← (t.target (← repository.path manifestName)).mapError .file
  return target.place

theorem manifestPlace_eq (h : SameButManifests t t') (r : Resolver) (uri : String) :
    r.manifestPlace t' uri = r.manifestPlace t uri := by
  simp only [manifestPlace, resolve_eq h, h.target_eq]

theorem path_manifestName (repository : Repository) :
    repository.path manifestName = .ok (repository.root.join manifestName) := by
  rw [Repository.path, if_pos (by decide)]

end Resolver

/-- The manifest at a place, if a well-formed one is there. -/
def FileTree.manifest? (t : FileTree) (l : Location) : Option Manifest := do
  let text ← (Text.decodeUtf8 (← t.file? l)).toOption
  (Manifest.ofText text).toOption

theorem FileTree.manifest?_eq_some {l : Location} {m : Manifest} :
    t.manifest? l = some m ↔ ∃ bytes text, t.file? l = some bytes ∧
      Text.decodeUtf8 bytes = .ok text ∧ Manifest.ofText text = .ok m := by
  rw [manifest?]
  cases t.file? l with
  | none => simp
  | some bytes =>
    cases hdecode : Text.decodeUtf8 bytes with
    | error fault => simp [hdecode, Except.toOption]
    | ok text =>
      cases hm : Manifest.ofText text with
      | error e => simp [hdecode, hm, Except.toOption]
      | ok m' => simp [hdecode, hm, Except.toOption]

theorem FileTree.wantsDirectory_join {name : String} (plain : Plain name) {p : Path} {g : Target}
    (h : t.target (p.join name) = .ok g) : g.wantsDirectory = false := by
  rw [wantsDirectory_of_target h]
  exact decide_eq_false (Path.getLast?_join plain p)

theorem FileTree.isFile_join {name : String} (plain : Plain name) {p : Path} :
    t.isFile (p.join name) = true ↔
      ∃ g bytes, t.target (p.join name) = .ok g ∧ t.file? g.place = some bytes := by
  constructor
  · intro h
    rw [isFile] at h
    split at h
    · rename_i l bytes hfind
      obtain ⟨g, htarget, rfl, hfile⟩ := find_eq_ok hfind
      exact ⟨g, bytes, htarget, file?_eq_some.2 hfile⟩
    · cases h
  · rintro ⟨g, bytes, htarget, hfile⟩
    rw [isFile, find_of_target htarget (wantsDirectory_join plain htarget) (file?_eq_some.1 hfile)]

theorem FileTree.read_join {name : String} (plain : Plain name) {p : Path} {g : Target}
    {bytes : ByteArray} (hg : t.target (p.join name) = .ok g)
    (hfile : t.file? g.place = some bytes) :
    t.read (p.join name) = .ok bytes := by
  rw [read, find_of_target hg (wantsDirectory_join plain hg) (file?_eq_some.1 hfile)]
  rfl

theorem Repository.read_eq_ok {repository : Repository} {bytes : ByteArray} :
    repository.read t manifestName = .ok bytes ↔
      ∃ g, t.target (repository.root.join manifestName) = .ok g ∧
        t.file? g.place = some bytes := by
  rw [Repository.read, Resolver.path_manifestName]
  simp only [bind, Except.bind]
  constructor
  · intro h
    split at h
    · exact FileTree.read_eq_ok (eq_ok_of_mapError h)
    · cases h
  · rintro ⟨g, htarget, hfile⟩
    rw [(FileTree.isFile_join plain_manifestName).2 ⟨g, bytes, htarget, hfile⟩,
      FileTree.read_join plain_manifestName htarget hfile]
    rfl

theorem Repository.holds_of_file {repository : Repository} {g : FileTree.Target}
    {bytes : ByteArray} (hg : t.target (repository.root.join manifestName) = .ok g)
    (hfile : t.file? g.place = some bytes) : repository.holds t manifestName = .ok true := by
  have hfind := FileTree.find_of_target hg (FileTree.wantsDirectory_join plain_manifestName hg)
    (FileTree.file?_eq_some.1 hfile)
  rw [holds, Resolver.path_manifestName]
  simp only [bind, Except.bind, FileTree.exists?, hfind]
  rfl

/-- The manifest of a repository is the one at the place of its file. -/
theorem Manifest.ofRepository_eq_ok {repository : Repository} {m : Manifest} :
    Manifest.ofRepository repository t = .ok m ↔
      ∃ g, t.target (repository.root.join manifestName) = .ok g ∧ t.manifest? g.place = some m := by
  constructor
  · intro h
    obtain ⟨there, hholds, h⟩ := bind_eq_ok.1 h
    split at h
    · cases h
    · obtain ⟨bytes, hread, h⟩ := bind_eq_ok.1 h
      obtain ⟨text, hdecode, h⟩ := bind_eq_ok.1 h
      obtain ⟨g, htarget, hfile⟩ := Repository.read_eq_ok.1 hread
      exact ⟨g, htarget, FileTree.manifest?_eq_some.2
        ⟨bytes, text, hfile, eq_ok_of_mapError hdecode, h⟩⟩
  · rintro ⟨g, htarget, hmanifest⟩
    obtain ⟨bytes, text, hfile, hdecode, hm⟩ := FileTree.manifest?_eq_some.1 hmanifest
    rw [ofRepository, Repository.holds_of_file htarget hfile]
    simp only [bind, Except.bind, Bool.not_true, Bool.false_eq_true, ↓reduceIte,
      Repository.read_eq_ok.2 ⟨g, htarget, hfile⟩, hdecode]
    exact hm

namespace Resolver

theorem manifestPlace_eq_ok {r : Resolver} {uri : String} {l : Location} :
    r.manifestPlace t uri = .ok l ↔ ∃ parsed repository g, ModelUri.parse uri = .ok parsed ∧
      r.resolve t parsed = .ok repository ∧
      t.target (repository.root.join manifestName) = .ok g ∧ g.place = l := by
  constructor
  · intro h
    obtain ⟨parsed, hparsed, h⟩ := bind_eq_ok.1 h
    obtain ⟨repository, hrepository, h⟩ := bind_eq_ok.1 h
    obtain ⟨path, hpath, h⟩ := bind_eq_ok.1 h
    obtain rfl := Except.ok.inj ((path_manifestName repository).symm.trans hpath)
    obtain ⟨g, htarget, h⟩ := bind_eq_ok.1 h
    exact ⟨parsed, repository, g, hparsed, hrepository, eq_ok_of_mapError htarget, Except.ok.inj h⟩
  · rintro ⟨parsed, repository, g, hparsed, hrepository, htarget, rfl⟩
    simp only [manifestPlace, hparsed, bind, Except.bind, hrepository, path_manifestName, htarget]
    rfl

theorem isManifest_of_manifestPlace {r : Resolver} {uri : String} {l : Location}
    (h : r.manifestPlace t uri = .ok l) : l.IsManifest := by
  obtain ⟨parsed, repository, g, -, -, htarget, rfl⟩ := manifestPlace_eq_ok.1 h
  exact getLast?_of_target plain_manifestName htarget

theorem manifest?_of_modelInfo {r : Resolver} {uri : String} {info : ModelInfo}
    (h : r.modelInfo t uri = .ok info) :
    ∃ l m, r.manifestPlace t uri = .ok l ∧ t.manifest? l = some m ∧ info = m.info uri := by
  obtain ⟨parsed, hparsed, h⟩ := bind_eq_ok.1 h
  obtain ⟨repository, hrepository, h⟩ := bind_eq_ok.1 h
  obtain ⟨m, hm, h⟩ := bind_eq_ok.1 h
  obtain ⟨g, htarget, hmanifest⟩ := Manifest.ofRepository_eq_ok.1 hm
  have hplace := manifestPlace_eq_ok.2 ⟨parsed, repository, g, hparsed, hrepository, htarget, rfl⟩
  exact ⟨g.place, m, hplace, hmanifest, (Except.ok.inj h).symm⟩

/-- What is reported of a model is what its manifest says. -/
theorem modelInfo_of_manifest? {r : Resolver} {uri : String} {l : Location} {m : Manifest}
    (hplace : r.manifestPlace t uri = .ok l) (hm : t.manifest? l = some m) :
    r.modelInfo t uri = .ok (m.info uri) := by
  obtain ⟨parsed, repository, g, hparsed, hrepository, htarget, rfl⟩ := manifestPlace_eq_ok.1 hplace
  have hmanifest := Manifest.ofRepository_eq_ok.2 ⟨g, htarget, hm⟩
  simp only [modelInfo, hparsed, bind, Except.bind, hrepository, hmanifest]
  rfl

end Resolver

end ModelShelf
