import ModelShelf.Proofs.Code.Mirroring
import ModelShelf.Proofs.Store.Logging

/-!
Code that is copied into a directory. However it ends, the files of the sources are written below
the directory, each under the last name of its source, and no other file is changed. When it ends
well and the sources lie away from the directory, all that is in them is there.
-/

namespace ModelShelf

open Resolver (succeeds eq_ok_of_succeeds)
open FileTree (Grows Copies Mirrored onlyDirectories_of_makeDirectory)

variable {t t' t'' : FileTree}

/-! ### Runs -/

/-- The error of a source that is not there. -/
def missingSource (source : Path) : Error :=
  .invalidParameter ("Code path \"" ++ source.text ++ "\" does not exist")

/-- The error of a source without a name to copy it under. -/
def namelessSource (source : Path) : Error :=
  .invalidParameter ("Code path \"" ++ source.text ++ "\" has no file name")

/-- Copies a source into a directory, under its own last name. -/
def copyInto (directory source : Path) : Change Unit :=
  match source.fileName? with
  | some file => copyBelow source (directory.join file)
  | none => throw (namelessSource source)

variable {sources : List Path} {model : Path} {name : String}

theorem copyCode_of_missing {missing : Path}
    (h : sources.find? (fun source => !t.exists? source) = some missing) :
    copyCode sources model name t = .error (missingSource missing) t := by
  have hne : sources.isEmpty = false := by
    cases sources with
    | nil => cases h
    | cons => rfl
  rw [copyCode, hne]
  rw [if_neg Bool.false_ne_true, Change.get_bind, h]
  rfl

theorem copyCode_of_there (hne : sources ≠ []) (h : ∀ source ∈ sources, t.exists? source = true) :
    copyCode sources model name t = (Change.makeDirectories (model.join name) >>= fun _ =>
      sources.forM (copyInto (model.join name)) >>= fun _ => pure (some name)) t := by
  have hfind : sources.find? (fun source => !t.exists? source) = none := by
    rw [List.find?_eq_none]
    intro source hsource
    simp [h source hsource]
  rw [copyCode, if_neg (by simpa using hne), Change.get_bind, hfind]
  rfl

theorem eq_ok_of_copyCode (hne : sources ≠ []) {recorded : Option String}
    (h : copyCode sources model name t = .ok recorded t') :
    (∀ source ∈ sources, t.exists? source = true) ∧ recorded = some name ∧
      ∃ made, Change.makeDirectories (model.join name) t = .ok () made ∧
        sources.forM (copyInto (model.join name)) made = .ok () t' := by
  cases hfind : sources.find? (fun source => !t.exists? source) with
  | some missing =>
    rw [copyCode_of_missing hfind] at h
    cases h
  | none =>
    have there : ∀ source ∈ sources, t.exists? source = true := by simpa using hfind
    rw [copyCode_of_there hne there] at h
    obtain ⟨_, made, hmake, h⟩ := Change.eq_ok_of_bind h
    obtain ⟨_, _, hloop, hdone⟩ := Change.eq_ok_of_bind h
    obtain ⟨rfl, rfl⟩ := EStateM.Result.ok.inj hdone
    exact ⟨there, rfl, made, hmake, hloop⟩

/-! ### What is left alone -/

namespace FileTree

variable {directory source l : Location} {file : String}

/-- A place below a directory to which a file goes when sources are copied into the directory. -/
def IsDestination (t : FileTree) (directory : Location) (sources : List Path)
    (l : Location) : Prop :=
  ∃ source ∈ sources, ∃ file below bytes, source.fileName? = some file ∧
    l = directory ++ file :: below ∧ t.file? (t.placeOf source ++ below) = some bytes

theorem IsDestination.later {changed : Location → Prop} (hl : t.IsDestination directory sources l)
    (h : Grows changed t t') : t'.IsDestination directory sources l := by
  obtain ⟨source, hsource, file, below, bytes, hname, rfl, hfile⟩ := hl
  obtain ⟨bytes', hfile'⟩ := h.exists_file? hfile
  rw [← h.placeOf_eq] at hfile'
  exact ⟨source, hsource, file, below, bytes', hname, rfl, hfile'⟩

/-- A tree that has grown by what was copied into a directory. -/
abbrev Bundles (directory : Location) (sources : List Path) (t t' : FileTree) : Prop :=
  Grows (t'.IsDestination directory sources) t t'

theorem bundles_trans (h : Bundles directory sources t t') (h' : Bundles directory sources t' t'') :
    Bundles directory sources t t'' :=
  (h.mono fun _ hl => hl.later h').trans h'

theorem bundles_makeDirectory {p : Path} (h : t.makeDirectory p = .ok t') :
    Bundles directory sources t t' :=
  (onlyDirectories_of_makeDirectory h).mono fun _ => False.elim

theorem bundles_of_copies {source : Path} {file : String} (hsource : source ∈ sources)
    (hname : source.fileName? = some file)
    (h : Copies (t.placeOf source) (directory ++ [file]) t t') :
    Bundles directory sources t t' := by
  refine h.mono ?_
  rintro l ⟨below, bytes, rfl, hfile, -⟩
  rw [← h.placeOf_eq] at hfile
  exact ⟨source, hsource, file, below, bytes, hname, by simp, hfile⟩

/-- A file under the name of one source is not written for other sources. -/
theorem Bundles.file?_eq_of_others (h : Bundles directory sources t t')
    (others : ∀ other ∈ sources, other.fileName? ≠ some file) (below : Location) :
    t'.file? (directory ++ file :: below) = t.file? (directory ++ file :: below) := by
  refine Grows.file?_eq h ?_
  rintro ⟨other, hother, file', below', _, hname, heq, -⟩
  obtain ⟨rfl, -⟩ := List.cons.inj (List.append_cancel_left heq)
  exact others other hother hname

/-- A file away from the directory is not written. -/
theorem Bundles.file?_eq_of_apart (h : Bundles directory sources t t')
    (apart : source.Apart directory) (below : Location) :
    t'.file? (source ++ below) = t.file? (source ++ below) := by
  refine Grows.file?_eq h ?_
  rintro ⟨_, -, file', below', _, -, heq, -⟩
  exact apart.append_ne below (file' :: below') heq

/-- Where files go is known before, as sources away from the directory are not written. -/
theorem Bundles.isDestination (h : Bundles directory sources t t')
    (apart : ∀ source ∈ sources, (t.placeOf source).Apart directory)
    (hl : t'.IsDestination directory sources l) : t.IsDestination directory sources l := by
  obtain ⟨source, hsource, file, below, bytes, hname, rfl, hfile⟩ := hl
  rw [Grows.placeOf_eq h, h.file?_eq_of_apart (apart source hsource)] at hfile
  exact ⟨source, hsource, file, below, bytes, hname, rfl, hfile⟩

end FileTree

open FileTree (Bundles bundles_trans bundles_makeDirectory bundles_of_copies)

/-- However it ends, a loop over sources has only written where their files go. -/
theorem preserves_copyInto (t : FileTree) (directory : Path) (sources : List Path) :
    Change.Preserves (Bundles (t.placeOf directory) sources t) (fun _ => True)
      (sources.forM (copyInto directory)) := by
  refine Change.preserves_forM fun source hsource => ?_
  rw [copyInto]
  split
  · rename_i file hname
    intro t₁ bundles
    have plain := Path.plain_of_fileName? hname
    have copied := preserves_copies t₁ (FileTree.greatestPath + 1)
      (t₁.aligned_self source (directory.join file)) t₁ (.refl _ t₁)
    rw [FileTree.placeOf_join_plain plain, bundles.placeOf_eq directory] at copied
    have grown {t₂ : FileTree}
        (h : Copies (t₁.placeOf source) (t.placeOf directory ++ [file]) t₁ t₂) :
        Bundles (t.placeOf directory) sources t t₂ :=
      bundles_trans bundles (bundles_of_copies hsource hname h)
    exact ⟨fun a t₂ hok => grown (copied.1 a t₂ hok),
      fun e t₂ herror => ⟨grown (copied.2 e t₂ herror).1, trivial⟩⟩
  · exact Change.preserves_throw trivial

/-- However it ends, copying code has only written where the files of its sources go. -/
theorem preserves_copyCode (t : FileTree) (sources : List Path) (model : Path) (name : String) :
    Change.Preserves (Bundles (t.placeOf (model.join name)) sources t) (fun _ => True)
      (copyCode sources model name) := by
  intro t₁ h₁
  by_cases hne : sources = []
  · rw [hne, copyCode]
    exact Change.preserves_pure none t₁ (hne ▸ h₁)
  cases hfind : sources.find? (fun source => !t₁.exists? source) with
  | some missing =>
    rw [copyCode_of_missing hfind]
    exact Change.preserves_throw trivial t₁ h₁
  | none =>
    rw [copyCode_of_there hne (by simpa using hfind)]
    refine Change.Preserves.bind ?_ (fun _ => ?_) t₁ h₁
    · refine Change.preserves_makeDirectories (fun _ => trivial) ?_ _
      intro p t₂ t₃ bundles made
      exact bundles_trans bundles (bundles_makeDirectory made)
    · exact (preserves_copyInto t (model.join name) sources).bind
        fun _ => Change.preserves_pure (some name)

theorem copyBelow_of_copyInto {directory source : Path}
    (h : copyInto directory source t = .ok () t') : ∃ file, source.fileName? = some file ∧
      copyBelow source (directory.join file) t = .ok () t' := by
  rw [copyInto] at h
  cases hname : source.fileName? with
  | some file =>
    rw [hname] at h
    exact ⟨file, rfl, h⟩
  | none =>
    rw [hname] at h
    cases h

theorem bundles_of_loop {directory : Path} (h : sources.forM (copyInto directory) t = .ok () t') :
    Bundles (t.placeOf directory) sources t t' :=
  (preserves_copyInto t directory sources).of_ok (.refl _ t) h

/-! ### What is copied -/

theorem others_of_distinct {before after : List Path} {source : Path} {file : String}
    (hname : source.fileName? = some file)
    (distinct : ((before ++ source :: after).filterMap Path.fileName?).Nodup) :
    (∀ other ∈ before, other.fileName? ≠ some file) ∧
      ∀ other ∈ after, other.fileName? ≠ some file := by
  rw [List.filterMap_append, List.filterMap_cons_some hname, List.nodup_append,
    List.nodup_cons] at distinct
  obtain ⟨-, ⟨notAfter, -⟩, disjoint⟩ := distinct
  refine ⟨fun other hother hfile => ?_, fun other hother hfile => ?_⟩
  · exact disjoint file (List.mem_filterMap.2 ⟨other, hother, hfile⟩) file List.mem_cons_self rfl
  · exact notAfter (List.mem_filterMap.2 ⟨other, hother, hfile⟩)

/-- Of sources with distinct names each is copied, unless the directory and the source are one
inside the other; it may lie where it is copied to. -/
theorem mirrored_of_source (distinct : (sources.filterMap Path.fileName?).Nodup)
    {directory source : Path} (hsource : source ∈ sources)
    (clear : ∀ file, source.fileName? = some file →
      (t.placeOf source).Apart (t.placeOf directory) ∨
        t.placeOf source = t.placeOf directory ++ [file])
    (h : sources.forM (copyInto directory) t = .ok () t') :
    ∃ file, source.fileName? = some file ∧ ∀ below,
      Mirrored (copied (t.placeOf source) (t.placeOf directory ++ [file])) (t.placeOf source)
        (t.placeOf directory ++ [file]) t t' below := by
  obtain ⟨before, after, rfl⟩ := List.append_of_mem hsource
  obtain ⟨t₁, t₂, hbefore, hcopy, hafter⟩ := Change.eq_ok_of_forM h
  obtain ⟨file, hname, hcopy⟩ := copyBelow_of_copyInto hcopy
  have plain := Path.plain_of_fileName? hname
  obtain ⟨othersBefore, othersAfter⟩ := others_of_distinct hname distinct
  have bundles₁ := bundles_of_loop hbefore
  -- Sources that come before write neither to this source nor to its target.
  have kept (below : Location) :
      t₁.file? (t.placeOf source ++ below) = t.file? (t.placeOf source ++ below) := by
    rcases clear file hname with apart | same
    · exact bundles₁.file?_eq_of_apart apart below
    · rw [same, List.append_assoc]
      exact bundles₁.file?_eq_of_others othersBefore below
  have unnested : (t.placeOf source).Unnested (t.placeOf directory ++ [file]) :=
    (clear file hname).symm.imp_right fun apart => apart.concat file
  have hp : t₁.placeOf source = t.placeOf source ++ [] := by
    rw [bundles₁.placeOf_eq, List.append_nil]
  have hq : t₁.placeOf (directory.join file) = t.placeOf directory ++ [file] ++ [] := by
    rw [FileTree.placeOf_join_plain plain, bundles₁.placeOf_eq, List.append_nil]
  have mirrored := mirrored_of_copyFrom unnested hp hq
    (Path.join_ne_empty plain.isRelative plain.ne_empty) hcopy
  have copies := copies_of_copyFrom ⟨[], hp, hq⟩ hcopy
  have bundles₃ := bundles_of_loop hafter
  rw [copies.placeOf_eq, bundles₁.placeOf_eq] at bundles₃
  refine ⟨file, hname, fun below => ?_⟩
  refine ((mirrored below).later bundles₃ fun _ _ => ?_).earlier bundles₁ fun bytes hfile =>
    ⟨bytes, (kept below).trans hfile, rfl⟩
  rw [List.nil_append, List.append_assoc]
  exact bundles₃.file?_eq_of_others othersAfter below

theorem mirrored_of_copyCode (distinct : (sources.filterMap Path.fileName?).Nodup)
    {source : Path} (hsource : source ∈ sources)
    (clear : ∀ file, source.fileName? = some file →
      (t.placeOf source).Apart (t.placeOf (model.join name)) ∨
        t.placeOf source = t.placeOf (model.join name) ++ [file])
    {recorded : Option String} (h : copyCode sources model name t = .ok recorded t') :
    ∃ file, source.fileName? = some file ∧ ∀ below,
      Mirrored (copied (t.placeOf source) (t.placeOf (model.join name) ++ [file]))
        (t.placeOf source) (t.placeOf (model.join name) ++ [file]) t t' below := by
  obtain ⟨-, -, made, hmake, hloop⟩ := eq_ok_of_copyCode (List.ne_nil_of_mem hsource) h
  have grown := Change.onlyDirectories_of_makeDirectories hmake
  rw [← grown.placeOf_eq source, ← grown.placeOf_eq (model.join name)] at clear ⊢
  obtain ⟨file, hname, mirrored⟩ := mirrored_of_source distinct hsource clear hloop
  exact ⟨file, hname, fun below => (mirrored below).earlier grown fun bytes hfile =>
    ⟨bytes, (grown.file?_eq id).trans hfile, rfl⟩⟩

/-- Code that was copied lies below the directory, each source under its own last name: all its
directories, and its files with the same contents. No other file is changed. -/
theorem copyCode_mirrors (hne : sources ≠ []) (distinct : (sources.filterMap Path.fileName?).Nodup)
    (apart : ∀ source ∈ sources, (t.placeOf source).Apart (t.placeOf (model.join name)))
    {recorded : Option String} (h : copyCode sources model name t = .ok recorded t') :
    recorded = some name ∧
    (∀ source ∈ sources, ∃ file node, source.fileName? = some file ∧
      t.find source = .ok (t.placeOf source, node) ∧
      ∀ below, Mirrored id (t.placeOf source) (t.placeOf (model.join name) ++ [file]) t t'
        below) ∧
    ∀ l, ¬ t.IsDestination (t.placeOf (model.join name)) sources l → t'.file? l = t.file? l := by
  obtain ⟨there, hrecorded, -⟩ := eq_ok_of_copyCode hne h
  refine ⟨hrecorded, fun source hsource => ?_, fun l hl => ?_⟩
  · obtain ⟨node, hfind⟩ := FileTree.find_of_exists (there source hsource)
    obtain ⟨file, hname, mirrored⟩ :=
      mirrored_of_copyCode distinct hsource (fun _ _ => .inl (apart source hsource)) h
    rw [copied_of_apart ((apart source hsource).concat file)] at mirrored
    exact ⟨file, node, hname, hfind, mirrored⟩
  · have bundles := (preserves_copyCode t sources model name).of_ok (.refl _ t) h
    exact Grows.file?_eq bundles fun written =>
      hl (FileTree.Bundles.isDestination bundles apart written)

/-- A package with an empty directory in it, a file, and a model that has an older package of the
same name with an older file of the same name. -/
def packagedCode : FileTree :=
  ⟨.directory
    [("src", .directory [("pkg", .directory [("sub", .directory []), ("a.py", .file ⟨#[120]⟩)]),
      ("b.py", .file ⟨#[121]⟩)]),
    ("model", .directory [("code", .directory [("pkg", .directory [("a.py", .file ⟨#[97, 98]⟩),
      ("old.py", .file ⟨#[122]⟩)])])])],
    [], rfl, rfl⟩

def packagedSources : List Path := [⟨"src/./pkg"⟩, ⟨"src/b.py"⟩]

theorem packagedCode_copied :
    succeeds (copyCode packagedSources ⟨"model"⟩ "code" packagedCode) (fun _ _ => true) = true ∧
    (packagedSources.filterMap Path.fileName?).Nodup := by
  decide +kernel

theorem packagedCode_places :
    (Path.fileName? ⟨"src/./pkg"⟩ = some "pkg" ∧ Path.fileName? ⟨"src/b.py"⟩ = some "b.py") ∧
    packagedCode.placeOf ⟨"src/./pkg"⟩ = ["src", "pkg"] ∧
    packagedCode.placeOf ⟨"src/b.py"⟩ = ["src", "b.py"] ∧
    packagedCode.placeOf (Path.join ⟨"model"⟩ "code") = ["model", "code"] := by
  decide +kernel

/-- The empty directory is copied, both files are copied with their contents, the older one of the
same name gets the new contents, and the other older file stays. -/
theorem copyCode_mirrors_packagedCode : ∃ t',
    copyCode packagedSources ⟨"model"⟩ "code" packagedCode = .ok (some "code") t' ∧
    (∃ entries, t'.get? ["model", "code", "pkg", "sub"] = some (.directory entries)) ∧
    t'.file? ["model", "code", "pkg", "a.py"] = some ⟨#[120]⟩ ∧
    t'.file? ["model", "code", "b.py"] = some ⟨#[121]⟩ ∧
    t'.file? ["model", "code", "pkg", "old.py"] = some ⟨#[122]⟩ := by
  obtain ⟨succeeded, distinct⟩ := packagedCode_copied
  obtain ⟨⟨namePkg, nameB⟩, placePkg, placeB, placeCode⟩ := packagedCode_places
  obtain ⟨recorded, t', hok, -⟩ := eq_ok_of_succeeds succeeded
  have apart : ∀ source ∈ packagedSources, (packagedCode.placeOf source).Apart
      (packagedCode.placeOf (Path.join ⟨"model"⟩ "code")) := by
    intro source hsource
    rcases List.mem_pair.1 hsource with rfl | rfl
    · rw [placePkg, placeCode]
      exact ⟨by decide, by decide⟩
    · rw [placeB, placeCode]
      exact ⟨by decide, by decide⟩
  obtain ⟨rfl, mirrored, kept⟩ := copyCode_mirrors (by decide) distinct apart hok
  obtain ⟨_, -, hpkg, -, pkg⟩ := mirrored ⟨"src/./pkg"⟩ List.mem_cons_self
  obtain ⟨_, -, hb, -, b⟩ := mirrored ⟨"src/b.py"⟩ (List.mem_cons_of_mem _ List.mem_cons_self)
  obtain rfl := Option.some.inj (namePkg.symm.trans hpkg)
  obtain rfl := Option.some.inj (nameB.symm.trans hb)
  rw [placePkg, placeCode] at pkg
  rw [placeB, placeCode] at b
  refine ⟨t', hok, (pkg ["sub"]).directory [] rfl, (pkg ["a.py"]).file _ rfl, (b []).file _ rfl, ?_⟩
  refine kept ["model", "code", "pkg", "old.py"] ?_
  rw [placeCode]
  rintro ⟨source, hsource, file, below, bytes, hname', hplace, hfile⟩
  obtain ⟨rfl, rfl⟩ : file = "pkg" ∧ below = ["old.py"] := by simpa [eq_comm] using hplace
  rcases List.mem_pair.1 hsource with rfl | rfl
  · rw [placePkg] at hfile
    cases hfile
  · rw [nameB] at hname'
    exact absurd hname' (by decide)

end ModelShelf
