import ModelShelf.Proofs.Store.RunPaths
import ModelShelf.Proofs.Uri.Parsing

/-!
What the URI of a run can reach. As long as the path in it does not lead above its start, the
manifest that it leads to lies in the directory of the run's artifacts: nothing else is read as a
manifest, and nothing else is written.
-/

namespace ModelShelf

open Text
open ModelUri (Unmarked frontOf isSlash splitScheme?)
open ModelShelf.Path (Plain)
open FileTree (SameBut)

variable {t t' : FileTree}

/-- The path in the URI of a run has no slashes around it. -/
theorem artifactPath_of_parse {uri runId path : String}
    (h : ModelUri.parse uri = .ok (.run runId path)) : ArtifactPath path := by
  rcases ModelUri.parse_cases h with
    ⟨_, hrun⟩ | ⟨_, hregistered⟩ | ⟨_, -, heq⟩ | ⟨_, heq⟩ | ⟨-, heq⟩
  · obtain ⟨_, _, heq, -, -, solid, trimmed⟩ := ModelUri.run_of_run? hrun
    obtain ⟨-, rfl⟩ := ModelUri.run.inj heq
    exact ⟨solid, trimmed⟩
  · exact absurd (ModelUri.display_of_registered? hregistered).1 Bool.false_ne_true
  · cases heq
  · cases heq
  · cases heq

/-- A mark that begins in front of a slash ends there in a slash, or stands in front of it. -/
theorem mark_across {more rest path : List Char} (hpath : path.head? ≠ some '/')
    (h : [':', '/', '/'] ++ rest = more ++ '/' :: path) :
    more.getLast? = some '/' ∨ [':', '/', '/'] <:+: more := by
  rcases more with _ | ⟨x, _ | ⟨y, _ | ⟨z, more⟩⟩⟩
  · simp at h
  · simp only [List.cons_append, List.nil_append, List.cons.injEq, true_and] at h
    rw [← h.2] at hpath
    exact absurd rfl hpath
  · simp only [List.cons_append, List.nil_append, List.cons.injEq] at h
    rw [← h.2.1]
    exact .inl rfl
  · simp only [List.cons_append, List.nil_append, List.cons.injEq] at h
    obtain ⟨rfl, rfl, rfl, -⟩ := h
    exact .inr ⟨[], more, rfl⟩

/-! ### Places below a root -/

namespace ArtifactPath

variable {path : String} (h : ArtifactPath path)

include h

theorem placeOf_below {root : String} (hroot : root ≠ "")
    (keeps : Location.keepsBelow 0 (Path.mk path).words = true) (t : FileTree) :
    t.placeOf ⟨root⟩ <+: t.placeOf ((Path.mk (Resolver.below root path)).join manifestName) := by
  have htight := h.tightens_below hroot
  have hinside : t.placeOf ⟨root⟩ <+:
      (t.placeOf ⟨root⟩ ++ []).follow ((Path.mk path).words ++ [manifestName]) :=
    Location.prefix_follow (Location.keepsBelow_append_plain plain_manifestName keeps)
  have hplace : t.placeOf ⟨Resolver.below root path⟩ = t.placeOf ((Path.mk root).join path) := by
    rw [FileTree.placeOf_eq, FileTree.placeOf_eq, FileTree.start, FileTree.start, htight.words,
      htight.isAbsolute]
  rw [FileTree.placeOf_join plain_manifestName.isRelative, hplace,
    FileTree.placeOf_join h.isRelative, Path.words_of_name plain_manifestName,
    ← Location.follow_append]
  rwa [List.append_nil] at hinside

/-- The first mark of a text stands behind a slash if a path without marks begins the text. -/
theorem mem_scheme_of_below {root : String} {scheme rest : List Char} (hroot : Unmarked root)
    (hsplit : splitScheme? (Resolver.below root path).toList = some (scheme, rest)) :
    '/' ∈ scheme := by
  have htext := eq_of_splitFirst? hsplit
  have hfront : ¬ ModelUri.schemeMark.toList <:+: frontOf root.toList :=
    fun hmark => hroot (hmark.trans (ModelUri.frontOf_isPrefix root.toList).isInfix)
  rw [h.toList_below, ModelUri.toList_schemeMark] at htext
  rw [ModelUri.toList_schemeMark] at hfront
  rcases List.append_eq_append_iff.1 htext with ⟨more, hscheme, hmore⟩ | ⟨more, hroot, hmore⟩
  · cases more with
    | nil => cases hmore
    | cons c more =>
      obtain ⟨rfl, -⟩ := List.cons.inj hmore
      rw [hscheme]
      exact List.mem_append_right _ List.mem_cons_self
  · -- The mark would have to reach over the slash between the root and the path.
    rcases mark_across h.head_ne hmore with hlast | hmark
    · have hne := ModelUri.getLast?_frontOf root.toList
      rw [hroot, List.getLast?_append, hlast] at hne
      exact absurd rfl hne
    · apply absurd _ hfront
      rw [hroot]
      exact hmark.trans (List.suffix_append scheme more).isInfix

end ArtifactPath

/-! ### Local roots -/

/-- A root that is a directory of the file system: a path, or one behind the scheme of files. An
empty text is none; what is put below it begins with a slash and leads away from the root of the
tree. -/
structure LocalRoot (root : String) : Prop where
  solid : Config.withoutFileScheme root ≠ ""
  isLocal : Unmarked root ∨ "file://".toList <+: root.toList

namespace Resolver

variable {r : Resolver} {root path : String}

theorem splitScheme?_file (rest : List Char) :
    splitScheme? (String.ofList ("file://".toList ++ rest)).toList =
      some ("file".toList, rest) := by
  have hfile : splitFirst? ModelUri.schemeMark.toList "file://".toList =
      some ("file".toList, []) := rfl
  rw [String.toList_ofList]
  exact splitFirst?_behind hfile rest

theorem placeOf_slashes {root : String} (hroot : root ≠ "") (h : ∀ c ∈ root.toList, c = '/')
    (t : FileTree) : t.placeOf ⟨root⟩ = [] := by
  have hslashes := List.eq_replicate_of_mem h
  have habsolute : (Path.mk root).isAbsolute = true := by
    cases hlist : root.toList with
    | nil => exact absurd (String.toList_eq_nil_iff.1 hlist) hroot
    | cons c rest =>
      rw [Path.isAbsolute, hlist, h c (hlist ▸ List.mem_cons_self)]
      rfl
  have hwords := Path.wordsOf_append_slashes [] root.toList.length
  rw [List.nil_append, ← hslashes] at hwords
  rw [FileTree.placeOf_eq, FileTree.start, if_pos habsolute, Path.words_eq, hwords]
  rfl

/-- Below a root that is a path, nothing but a path leads to a repository. -/
theorem unmarked_of_ofRoot {repository : Repository}
    (schemes : ∀ entry ∈ r.schemes, '/' ∉ entry.1.toList) (unmarked : Unmarked root)
    (hpath : ArtifactPath path) (h : r.ofRoot (below root path) = .ok repository) :
    Unmarked (below root path) := by
  cases hsplit : splitScheme? (below root path).toList with
  | none => exact ModelUri.splitScheme?_eq_none.1 hsplit
  | some parts =>
    obtain ⟨scheme, rest⟩ := parts
    have hslash := hpath.mem_scheme_of_below unmarked hsplit
    have hfile : scheme ≠ "file".toList := by
      rintro rfl
      exact absurd hslash (by decide)
    have hnone : r.schemes.lookup (String.ofList (ModelUri.lowered scheme)) = none := by
      apply List.lookup_eq_none_iff.2
      intro entry hentry
      rw [bne_iff_ne]
      intro heq
      apply schemes entry hentry
      rw [← heq, String.toList_ofList]
      exact List.mem_map.2 ⟨'/', hslash, rfl⟩
    obtain ⟨text, htext⟩ := ofRoot_unregistered hsplit hfile hnone
    cases htext.symm.trans h

theorem placeOf_ofRoot_file {repository : Repository} {rest : List Char}
    (hrest : root.toList = "file://".toList ++ rest) (hsolid : String.ofList rest ≠ "")
    (hpath : ArtifactPath path) (keeps : Location.keepsBelow 0 (Path.mk path).words = true)
    (h : r.ofRoot (below root path) = .ok repository) (t : FileTree) :
    t.placeOf ⟨String.ofList rest⟩ <+: t.placeOf (repository.root.join manifestName) := by
  by_cases hslashes : ∀ c ∈ (String.ofList rest).toList, c = '/'
  · rw [placeOf_slashes hsolid hslashes]
    exact List.nil_prefix
  · have named : ∃ c ∈ rest, c ≠ '/' := by
      simpa using hslashes
    have hsplit : splitScheme? root.toList = some ("file".toList, rest) := by
      rw [hrest, ← String.toList_ofList (l := "file://".toList ++ rest)]
      exact splitScheme?_file rest
    rw [ofRoot_file (splitScheme?_below hsplit named path)] at h
    obtain rfl := Except.ok.inj h
    rw [String.ofList_toList]
    exact hpath.placeOf_below hsolid keeps t

/-- What a path below a local root leads to lies in the directory of the root. -/
theorem placeOf_ofRoot_below {repository : Repository}
    (schemes : ∀ entry ∈ r.schemes, '/' ∉ entry.1.toList) (hroot : LocalRoot root)
    (hpath : ArtifactPath path) (keeps : Location.keepsBelow 0 (Path.mk path).words = true)
    (h : r.ofRoot (below root path) = .ok repository) (t : FileTree) :
    t.placeOf ⟨Config.withoutFileScheme root⟩ <+:
      t.placeOf (repository.root.join manifestName) := by
  have hsolid := hroot.solid
  rcases hroot.isLocal with unmarked | ⟨rest, hrest⟩
  · rw [withoutFileScheme_of_unmarked unmarked] at hsolid ⊢
    rw [ofRoot_of_unmarked (unmarked_of_ofRoot schemes unmarked hpath h)] at h
    obtain rfl := Except.ok.inj h
    exact hpath.placeOf_below hsolid keeps t
  · rw [withoutFileScheme_eq hrest.symm] at hsolid ⊢
    exact placeOf_ofRoot_file hrest.symm hsolid hpath keeps h t

/-! ### What is read and written -/

theorem ofRepository_eq {changed : Location → Prop} (h : SameBut changed t t')
    {repository : Repository}
    (kept : ∀ g, t.target (repository.root.join manifestName) = .ok g → ¬ changed g.place) :
    Manifest.ofRepository repository t' = Manifest.ofRepository repository t := by
  have hholds : repository.holds t' manifestName = repository.holds t manifestName := by
    rw [Repository.holds, Repository.holds, path_manifestName]
    simp only [bind, Except.bind, h.exists?_eq]
  have hread : repository.read t' manifestName = repository.read t manifestName := by
    rw [Repository.read, Repository.read, path_manifestName]
    simp only [bind, Except.bind, h.isFile_eq, h.read_eq kept]
  rw [Manifest.ofRepository, Manifest.ofRepository, hholds, hread]

/-- What is asked of a URI that must not lead out of a directory. The manifest that it leads to lies
in the directory; reports go by that manifest, and manifests elsewhere make no difference to them;
a signature is written to that manifest, or no file is touched. -/
structure StaysIn (r : Resolver) (t : FileTree) (uri : String) (base : Location) : Prop where
  place : ∀ {l}, r.manifestPlace t uri = .ok l → base <+: l
  reported : ∀ {info}, r.modelInfo t uri = .ok info →
    ∃ l m, base <+: l ∧ t.manifest? l = some m ∧ info = m.info uri
  elsewhere : ∀ {t'}, SameBut (fun l => l.IsManifest ∧ ¬ base <+: l) t t' →
    r.modelInfo t' uri = r.modelInfo t uri
  signed : ∀ signature,
    (∃ l contents, base <+: l ∧
      r.setSignature uri signature t = .ok () (t.put l (.file contents))) ∨
    ∃ e, r.setSignature uri signature t = .error e t

/-- The URI of a run whose artifacts are in a local directory does not lead out of that directory,
as long as the path in it never goes above its start. The recorded root is not empty, for paths
below an empty one are absolute; and no scheme is registered under a name with a slash, which could
turn a local root into another one. -/
theorem runUri_staysIn {uri runId : String} (schemes : ∀ entry ∈ r.schemes, '/' ∉ entry.1.toList)
    (hroot : LocalRoot root) (parsed : ModelUri.parse uri = .ok (.run runId path))
    (recorded : r.runs.artifactUri t runId = .ok root)
    (keeps : Location.keepsBelow 0 (Path.mk path).words = true) :
    r.StaysIn t uri (t.placeOf ⟨Config.withoutFileScheme root⟩) := by
  have hresolve := resolve_run recorded path
  have inside : ∀ {repository g}, r.resolve t (.run runId path) = .ok repository →
      t.target (repository.root.join manifestName) = .ok g →
      t.placeOf ⟨Config.withoutFileScheme root⟩ <+: g.place := by
    intro repository g hrepository hg
    rw [hresolve] at hrepository
    rw [FileTree.place_of_target hg]
    exact placeOf_ofRoot_below schemes hroot (artifactPath_of_parse parsed) keeps hrepository t
  have place : ∀ {l}, r.manifestPlace t uri = .ok l →
      t.placeOf ⟨Config.withoutFileScheme root⟩ <+: l := by
    intro l hl
    obtain ⟨parsed', repository, g, hparsed, hrepository, hg, rfl⟩ := manifestPlace_eq_ok.1 hl
    obtain rfl := Except.ok.inj (parsed.symm.trans hparsed)
    exact inside hrepository hg
  refine ⟨place, ?_, ?_, ?_⟩
  · intro info hinfo
    obtain ⟨l, m, hl, hm, hreport⟩ := manifest?_of_modelInfo hinfo
    exact ⟨l, m, place hl, hm, hreport⟩
  · intro t' same
    have hsame := resolve_eq (same.mono fun l hl => hl.1) r (.run runId path)
    rw [modelInfo, modelInfo, parsed]
    simp only [bind, Except.bind, hsame]
    cases hrepository : r.resolve t (.run runId path) with
    | error e => rfl
    | ok repository =>
      have kept : ∀ g, t.target (repository.root.join manifestName) = .ok g →
          ¬ (g.place.IsManifest ∧ ¬ t.placeOf ⟨Config.withoutFileScheme root⟩ <+: g.place) :=
        fun g hg hout => hout.2 (inside hrepository hg)
      simp only [ofRepository_eq same kept]
  · intro signature
    refine (r.setSignature_cases uri signature t).imp_left ?_
    rintro ⟨l, _, contents, hl, -, -, hset⟩
    exact ⟨l, _, place hl, hset⟩

/-- A run with its artifacts and, beside them, a model that is none of its artifacts. -/
def besideTree : FileTree :=
  ⟨.directory [("runs", .directory [("0", .directory [("abc", .directory [
    (RunStore.recordName, .file ("run_id: abc\nexperiment_id: '0'\n" ++
      "artifact_uri: runs/0/abc/artifacts\nstart_time: 1970-01-01T00:00:00Z\n").toUTF8),
    (RunStore.artifactsName, .directory []),
    ("beside", .directory [(manifestName, .file "owner: null\n".toUTF8)])])])])], [], rfl, rfl⟩

def besidePlace : Location := ["runs", "0", "abc", "beside", manifestName]

theorem beside_runs :
    (sampleResolver.runs.artifactUri besideTree "abc").toOption = some "runs/0/abc/artifacts" ∧
    succeeds (sampleResolver.setSignature "runs:/abc/../beside" SignatureRun.sampleCall.signature
      besideTree) (fun _ t => !decide ((t.file? besidePlace).map ByteArray.size =
        (besideTree.file? besidePlace).map ByteArray.size)) = true := by
  decide +kernel

theorem runUri_staysIn_sample :
    sampleResolver.StaysIn besideTree "RUNS:/abc//a/.././b/"
      ["runs", "0", "abc", "artifacts"] := by
  have recorded := eq_ok_of_toOption beside_runs.1
  have hroot : LocalRoot "runs/0/abc/artifacts" := ⟨by decide, .inl (by decide)⟩
  have parsed : ModelUri.parse "RUNS:/abc//a/.././b/" = .ok (.run "abc" "a/.././b") :=
    eq_ok_of_toOption (by decide)
  have stays : sampleResolver.StaysIn besideTree "RUNS:/abc//a/.././b/"
      (besideTree.placeOf ⟨Config.withoutFileScheme "runs/0/abc/artifacts"⟩) :=
    runUri_staysIn nofun hroot parsed recorded (by decide)
  exact stays

/-- A path that leads above its start is not refused: a signature is written to the model beside the
artifacts of the run. -/
theorem signature_written_beside :
    (∃ t, sampleResolver.setSignature "runs:/abc/../beside" SignatureRun.sampleCall.signature
        besideTree = .ok () t ∧ t.file? besidePlace ≠ besideTree.file? besidePlace) ∧
    ¬ besideTree.placeOf ⟨"runs/0/abc/artifacts"⟩ <+: besidePlace := by
  obtain ⟨-, written⟩ := beside_runs
  obtain ⟨_, t, hok, hchanged⟩ := eq_ok_of_succeeds written
  refine ⟨⟨t, hok, fun same => ?_⟩, by decide⟩
  rw [same, decide_eq_true rfl] at hchanged
  cases hchanged

end Resolver

end ModelShelf
