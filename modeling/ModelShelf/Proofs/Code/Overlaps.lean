import ModelShelf.Proofs.Code.Bundling

/-!
Sources that overlap with the directory that code is copied into. No file is lost, and one that is
not written keeps its contents; but a source that already lies where it is copied to, as when a
model is given its own code again, is emptied.
-/

namespace ModelShelf

open Resolver (succeeds eq_ok_of_succeeds)

variable {t t' : FileTree}

/-- However copying code ends, all files are still there, and those to which no file of a source is
copied have the same contents. When it ends well, all files of a source that is copied onto itself
are empty. -/
theorem copyCode_spares (t : FileTree) (sources : List Path) (model : Path) (name : String) :
    (∀ l bytes, t.file? l = some bytes →
      ∃ bytes', (Change.treeAfter (copyCode sources model name) t).file? l = some bytes' ∧
        (bytes' = bytes ∨ (Change.treeAfter (copyCode sources model name) t).IsDestination
          (t.placeOf (model.join name)) sources l)) ∧
    ∀ recorded t', copyCode sources model name t = .ok recorded t' →
      (sources.filterMap Path.fileName?).Nodup → ∀ source ∈ sources, ∀ file,
        source.fileName? = some file →
        t.placeOf source = t.placeOf (model.join name) ++ [file] →
        ∀ below bytes, t.file? (t.placeOf source ++ below) = some bytes →
          t'.file? (t.placeOf source ++ below) = some .empty := by
  constructor
  · intro l bytes hfile
    have bundles := (preserves_copyCode t sources model name).treeAfter (.refl _ t)
    obtain ⟨bytes', hfile'⟩ := FileTree.Grows.exists_file? bundles hfile
    refine ⟨bytes', hfile', or_iff_not_imp_right.2 fun notWritten => ?_⟩
    rw [FileTree.Grows.file?_eq bundles notWritten, hfile] at hfile'
    exact (Option.some.inj hfile').symm
  · intro recorded t' hok distinct source hsource file hname same below bytes hfile
    have clear (file' : String) (hname' : source.fileName? = some file') :
        (t.placeOf source).Apart (t.placeOf (model.join name)) ∨
          t.placeOf source = t.placeOf (model.join name) ++ [file'] :=
      .inr (Option.some.inj (hname.symm.trans hname') ▸ same)
    obtain ⟨file', hname', mirrored⟩ := mirrored_of_copyCode distinct hsource clear hok
    obtain rfl := Option.some.inj (hname.symm.trans hname')
    rw [← same] at mirrored
    rw [(mirrored below).file bytes hfile, copied_self]

/-- A model with a file of code, and a file beside it. -/
def bundledCode : FileTree :=
  ⟨.directory [("model", .directory [("code", .directory [("a.py", .file ⟨#[120]⟩)])]),
    ("b.py", .file ⟨#[121]⟩)], [], rfl, rfl⟩

def bundledSources : List Path := [⟨"model/code/a.py"⟩, ⟨"b.py"⟩]

theorem bundledCode_places : Path.fileName? ⟨"model/code/a.py"⟩ = some "a.py" ∧
    bundledCode.placeOf ⟨"model/code/a.py"⟩ = ["model", "code", "a.py"] ∧
    bundledCode.placeOf (Path.join ⟨"model"⟩ "code") = ["model", "code"] := by
  decide +kernel

theorem bundledCode_copied :
    (succeeds (copyCode bundledSources ⟨"model"⟩ "code" bundledCode) fun _ t' =>
      (t'.file? ["model", "code", "a.py"]).map ByteArray.size = some 0) = true ∧
    (bundledSources.filterMap Path.fileName?).Nodup := by
  decide +kernel

theorem copyCode_spares_bundledCode : ∃ recorded t',
    copyCode bundledSources ⟨"model"⟩ "code" bundledCode = .ok recorded t' ∧
    t'.file? ["b.py"] = bundledCode.file? ["b.py"] ∧
    t'.file? ["model", "code", "a.py"] = some .empty := by
  obtain ⟨succeeded, distinct⟩ := bundledCode_copied
  obtain ⟨hname, placeSource, placeCode⟩ := bundledCode_places
  obtain ⟨recorded, t', hok, -⟩ := eq_ok_of_succeeds succeeded
  obtain ⟨spared, emptied⟩ := copyCode_spares bundledCode bundledSources ⟨"model"⟩ "code"
  have hafter : Change.treeAfter (copyCode bundledSources ⟨"model"⟩ "code") bundledCode = t' := by
    rw [Change.treeAfter, hok]
  rw [hafter, placeCode] at spared
  rw [placeCode] at emptied
  refine ⟨recorded, t', hok, ?_, ?_⟩
  · obtain ⟨bytes, hfile, rfl | ⟨_, -, _, _, _, -, hplace, -⟩⟩ := spared ["b.py"] _ rfl
    · exact hfile
    · simp at hplace
  · have gone := emptied recorded t' hok distinct ⟨"model/code/a.py"⟩ List.mem_cons_self "a.py"
      hname placeSource []
    rw [placeSource] at gone
    exact gone _ rfl

/-- The code of a model that is copied onto itself is lost. -/
theorem own_code_emptied : ∃ recorded t',
    copyCode bundledSources ⟨"model"⟩ "code" bundledCode = .ok recorded t' ∧
    t'.file? ["model", "code", "a.py"] ≠ bundledCode.file? ["model", "code", "a.py"] := by
  obtain ⟨recorded, t', hok, hsize⟩ := eq_ok_of_succeeds bundledCode_copied.1
  refine ⟨recorded, t', hok, fun same => ?_⟩
  rw [same] at hsize
  cases hsize

end ModelShelf
