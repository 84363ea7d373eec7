import ModelShelf.Proofs.Store.Records
import ModelShelf.Proofs.Uri.Marks

/-!
Logging models under a run. The manifest is written below the artifacts of the run, and read through
the URI that is returned: the URI leads to the file that was written, because putting paths together
and taking URIs apart agree. A log that fails adds directories at most.
-/

namespace ModelShelf

open Text
open Yaml (Value)
open ModelUri (Unmarked frontOf isSlash)
open ModelShelf.Path (Plain)
open FileTree (OnlyDirectories Grows)

variable {t t' : FileTree}

/-- The path below the artifacts of a run that is meant by a text. -/
def loggedPath (artifactPath : String) : String := String.ofList (trim isSlash artifactPath.toList)

/-- The manifest that is stored for a model of a run. -/
def Manifest.stamped (m : Manifest) (runId path : String) : Manifest :=
  { m with runId := some runId, artifactPath := some path }

theorem trimmed_loggedPath (artifactPath : String) :
    Trimmed isSlash (loggedPath artifactPath).toList := by
  rw [loggedPath, String.toList_ofList]
  exact trimmed_trim isSlash artifactPath.toList

/-- A path that can stand below the artifacts of a run: it neither begins nor ends with a slash. -/
structure ArtifactPath (path : String) : Prop where
  solid : path ≠ ""
  trimmed : Trimmed isSlash path.toList

namespace ArtifactPath

variable {path : String} (h : ArtifactPath path)

include h

theorem head_ne : path.toList.head? ≠ some '/' := by
  intro heq
  exact nomatch h.trimmed.head '/' heq

theorem last_ne : path.toList.getLast? ≠ some '/' := by
  intro heq
  exact nomatch h.trimmed.last '/' heq

theorem isRelative : (Path.mk path).isAbsolute = false := by
  simpa [Path.isAbsolute] using h.head_ne

theorem words_ne_nil : (Path.mk path).words ≠ [] := Path.words_ne_nil h.solid h.isRelative

theorem join_name {name : String} (plain : Plain name) :
    (Path.mk path).join name = ⟨path ++ "/" ++ name⟩ := by
  rw [Path.join, plain.isRelative, if_neg (by simpa using h.solid), if_neg h.last_ne]

theorem words_name {name : String} (plain : Plain name) :
    (Path.mk (path ++ "/" ++ name)).words = (Path.mk path).words ++ [name] ∧
      (Path.mk (path ++ "/" ++ name)).isAbsolute = false := by
  rw [← h.join_name plain, ← h.isRelative]
  exact Path.join_of_plain plain _

theorem join_below {name : String} (plain : Plain name) (root : Path) :
    root.join (path ++ "/" ++ name) = (root.join path).join name :=
  Path.join_append plain h.solid h.head_ne h.last_ne

theorem toList_below (root : String) :
    (Resolver.below root path).toList = frontOf root.toList ++ '/' :: path.toList := by
  rw [ModelUri.toList_below, dropWhile_of_head? h.trimmed.head]

end ArtifactPath

/-! ### Logging -/

namespace Repository

theorem words_of_staysInside {p : Path} (h : p.components.all staysInside = true) :
    ∀ word ∈ p.words, word ≠ ".." := by
  intro word hword hparent
  subst hparent
  have hpart : ".." ∈ p.parts.filter fun part => !Path.isIdle part := by
    obtain ⟨hmem, -⟩ := List.mem_filter.1 hword
    exact List.mem_filter.2 ⟨hmem, rfl⟩
  have hcomponent : Component.parent ∈ p.components := by
    rw [Path.components]
    apply List.mem_append_right
    exact List.mem_map.2 ⟨"..", hpart, rfl⟩
  have hstays := List.all_eq_true.1 h _ hcomponent
  cases hstays

theorem staysInside_of_words {p : Path} (relative : p.isAbsolute = false)
    (h : ∀ word ∈ p.words, word ≠ "..") : p.components.all staysInside = true := by
  rw [Path.components, List.all_append, Bool.and_eq_true]
  constructor
  · rw [Path.lead, relative]
    split
    · contradiction
    · split <;> rfl
  · rw [List.all_eq_true]
    intro component hcomponent
    obtain ⟨part, hpart, rfl⟩ := List.mem_map.1 hcomponent
    obtain ⟨hmem, hidle⟩ := List.mem_filter.1 hpart
    have hword : part ∈ p.words := by
      refine List.mem_filter.2 ⟨hmem, ?_⟩
      simp only [Path.isIdle, Bool.not_eq_true', Bool.or_eq_false_iff] at hidle
      simpa using hidle.1
    rw [Path.componentOf, if_neg (h part hword)]
    rfl

theorem path_of_words (repository : Repository) {relative : String}
    (hrelative : (Path.mk relative).isAbsolute = false)
    (h : ∀ word ∈ (Path.mk relative).words, word ≠ "..") :
    repository.path relative = .ok (repository.root.join relative) := by
  rw [path, if_pos (staysInside_of_words hrelative h)]

/-- Writing a manifest below a repository fails and adds directories at most, or the file is there
afterwards and all others are as they were. -/
theorem write_manifest (repository : Repository) {path : String} (h : ArtifactPath path)
    (contents : ByteArray) (t : FileTree) :
    (∃ e t', repository.write (path ++ "/" ++ manifestName) contents t = .error e t' ∧
      OnlyDirectories t t') ∨
    ∃ g t', repository.write (path ++ "/" ++ manifestName) contents t = .ok () t' ∧
      (∀ word ∈ (Path.mk path).words, word ≠ "..") ∧ Grows (· = g.place) t t' ∧
      t'.target ((repository.root.join path).join manifestName) = .ok g ∧
      t'.file? g.place = some contents := by
  have run : repository.write (path ++ "/" ++ manifestName) =
      fun contents => Change.ofResult (repository.path (path ++ "/" ++ manifestName)) >>=
        fun p => Change.writeBelow p contents := rfl
  rw [run]
  simp only [Change.ofResult_bind, Repository.path, h.join_below plain_manifestName]
  by_cases hinside : (Path.mk (path ++ "/" ++ manifestName)).components.all staysInside = true
  · rw [if_pos hinside]
    have hwords := words_of_staysInside hinside
    rw [(h.words_name plain_manifestName).1] at hwords
    obtain ⟨e, t', herror, grown⟩ | ⟨between, g, grown, htarget, notDirectory, hok⟩ :=
      Change.writeBelow_adds ((repository.root.join path).join manifestName) contents t
    · exact .inl ⟨e, t', herror, grown⟩
    · have put := FileTree.grows_put_file contents notDirectory
      refine .inr ⟨g, _, hok, fun word hword => ?_, (grown.mono fun _ => False.elim).trans put,
        put.target htarget, FileTree.file?_put_place htarget notDirectory contents⟩
      exact hwords word (List.mem_append_left _ hword)
  · rw [if_neg hinside]
    exact .inl ⟨_, t, rfl, .refl _ t⟩

end Repository

namespace Resolver

/-- A log fails and adds directories at most, or it writes the stamped manifest where its path leads
below the root of the run's repository. -/
theorem logModel_cases (r : Resolver) (runId artifactPath : String) (m : Manifest)
    (t : FileTree) :
    (∃ e t', r.logModel runId artifactPath m t = .error e t' ∧ OnlyDirectories t t') ∨
    ∃ repository text g t',
      r.logModel runId artifactPath m t =
        .ok ((m.stamped runId (loggedPath artifactPath)).info
          (runUri runId (loggedPath artifactPath))) t' ∧
      ArtifactPath (loggedPath artifactPath) ∧
      r.ofRun t runId = .ok repository ∧
      (m.stamped runId (loggedPath artifactPath)).toText = .ok text ∧
      (∀ word ∈ (Path.mk (loggedPath artifactPath)).words, word ≠ "..") ∧
      Grows (· = g.place) t t' ∧
      t'.target ((repository.root.join (loggedPath artifactPath)).join manifestName) = .ok g ∧
      t'.file? g.place = some text.toUTF8 := by
  rw [logModel]
  split
  · exact .inl ⟨_, t, rfl, .refl _ t⟩
  · rename_i hsolid
    have path : ArtifactPath (loggedPath artifactPath) :=
      ⟨by simpa [loggedPath] using hsolid, trimmed_loggedPath artifactPath⟩
    dsimp only
    rw [Change.get_bind, Change.ofResult_bind]
    split
    · rename_i repository hrepository
      rw [Change.ofResult_bind]
      split
      · rename_i text htext
        obtain ⟨e, t', herror, grown⟩ | ⟨g, t', hok, hwords, grown, htarget, hfile⟩ :=
          repository.write_manifest path text.toUTF8 t
        · exact .inl ⟨e, t', Change.bind_of_error herror _, grown⟩
        · exact .inr ⟨repository, text, g, t', Change.bind_of_ok hok _, path, hrepository, htext,
            hwords, grown, htarget, hfile⟩
      · exact .inl ⟨_, t, rfl, .refl _ t⟩
    · exact .inl ⟨_, t, rfl, .refl _ t⟩

end Resolver

/-! ### Runs that were created -/

theorem Resolver.withoutFileScheme_of_unmarked {root : String} (h : Unmarked root) :
    Config.withoutFileScheme root = root := by
  rw [Config.withoutFileScheme]
  cases hstrip : stripPrefix? "file://".toList root.toList with
  | none => rfl
  | some rest =>
    have hroot := stripPrefix?_eq_some.1 hstrip
    exact absurd ⟨"file".toList, rest, by rw [hroot]; rfl⟩ h

theorem Resolver.ofRoot_of_unmarked {root : String} (h : Unmarked root) (r : Resolver) :
    r.ofRoot root = .ok ⟨⟨root⟩⟩ := by
  rw [ofRoot, ModelUri.splitScheme?_eq_none.2 h]
  simp only [Repository.ofUri, withoutFileScheme_of_unmarked h]

theorem Resolver.ofRun_eq_ok {r : Resolver} {runId : String} {repository : Repository} :
    r.ofRun t runId = .ok repository ↔
      ∃ uri, r.runs.artifactUri t runId = .ok uri ∧ r.ofRoot uri = .ok repository := by
  rw [ofRun]
  exact bind_eq_ok

theorem Resolver.resolve_run {r : Resolver} {runId uri : String}
    (h : r.runs.artifactUri t runId = .ok uri) (path : String) :
    r.resolve t (.run runId path) = r.ofRoot (below uri path) := by
  rw [resolve, h]
  simp only [bind, Except.bind]

namespace Resolver

/-- A store without runs, seen from the root of an empty tree. -/
def sampleResolver : Resolver := .ofRuns ⟨⟨"runs"⟩⟩

def sampleCreated : EStateM.Result Error FileTree RunInfo :=
  sampleResolver.runs.create "0" (Identifier.ofRandom 0) ⟨0, 0⟩ .empty

def sampleRun : RunInfo :=
  ⟨"00000000000040008000000000000000", "0", "runs/0/00000000000040008000000000000000/artifacts",
    ⟨0, 0⟩⟩

def sampleRecord : String :=
  "run_id: '00000000000040008000000000000000'\nexperiment_id: '0'\n" ++
    "artifact_uri: runs/0/00000000000040008000000000000000/artifacts\n" ++
    "start_time: 1970-01-01T00:00:00Z\n"

/-- A model that belonged to another run, with an unknown member. -/
def sampleModel : Manifest :=
  { Manifest.empty with runId := some "other", extra := .ofList [("owner", .null)] }

def sampleStored : String :=
  "artifact_path: m//./x\nflavors: \x7b\x7d\nrun_id: '00000000000040008000000000000000'\n" ++
    "owner: null\n"

/-- Whether a change succeeds, with an answer and a tree that pass a check. -/
def succeeds (result : EStateM.Result Error FileTree α) (check : α → FileTree → Bool) : Bool :=
  match result with
  | .ok a t => check a t
  | .error .. => false

theorem eq_ok_of_succeeds {result : EStateM.Result Error FileTree α}
    {check : α → FileTree → Bool} (h : succeeds result check = true) :
    ∃ a t, result = .ok a t ∧ check a t = true := by
  cases result with
  | ok a t => exact ⟨a, t, rfl, h⟩
  | error => cases h

theorem sample_runs :
    (succeeds sampleCreated fun run t => run = sampleRun &&
      succeeds (sampleResolver.logModel run.runId "//m//./x/" sampleModel t)
        fun _ _ => true) = true ∧
    sampleRun.toValue.toText.toOption = some sampleRecord ∧
    (Value.ofText sampleRecord).toOption = some sampleRun.toValue ∧
    (sampleModel.stamped sampleRun.runId (loggedPath "//m//./x/")).toValue.toText.toOption =
      some sampleStored ∧
    (Value.ofText sampleStored).toOption =
      some (sampleModel.stamped sampleRun.runId (loggedPath "//m//./x/")).toValue := by
  decide +kernel

end Resolver

end ModelShelf
