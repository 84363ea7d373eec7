import ModelShelf.Proofs.Files.Directories
import ModelShelf.Proofs.Store.Logging

/-!
Saving a model into a directory of its own. A path that names anything but an empty directory is
refused. Otherwise the directory is made and the manifest is written in it, and no file was there,
unless the path names one thing when it is looked up and another one when it is written: the empty
path names nothing until a name is put behind it, and a path that goes up above a missing part names
nothing until that part is made.
-/

namespace ModelShelf

open FileTree (OnlyDirectories)
open Resolver (succeeds eq_ok_of_succeeds)

variable {t t' : FileTree} {path : Path} {m : Manifest}

/-- An error does not say that something is there already. -/
def Error.Vacant (e : Error) : Prop := e.code ≠ .alreadyExists

theorem Error.vacant_file (fault : FileFault) : (Error.file fault).Vacant := by
  intro hcode
  cases hcode

/-! ### Saving a manifest -/

namespace Manifest

theorem save_eq (m : Manifest) (path : Path) :
    m.save path = path.parent?.elim (pure ()) Change.makeDirectories >>= fun _ =>
      Change.ofResult m.toText >>= fun text => Change.write path text.toUTF8 := by
  rw [save]
  cases path.parent? <;> rfl

theorem eq_ok_of_save (h : m.save path t = .ok () t') :
    ∃ text, m.toText = .ok text ∧ Change.writeBelow path text.toUTF8 t = .ok () t' := by
  cases htext : m.toText with
  | ok text =>
    refine ⟨text, rfl, ?_⟩
    rw [save, htext] at h
    exact h
  | error e =>
    rw [save_eq, htext] at h
    obtain ⟨_, _, -, h⟩ := Change.eq_ok_of_bind h
    cases h

theorem vacant_of_toText {e : Error} (h : m.toText = .error e) : e.Vacant := by
  rw [toText] at h
  cases hvalue : m.toValue.toText with
  | ok text =>
    rw [hvalue] at h
    cases h
  | error fault =>
    rw [hvalue] at h
    obtain rfl := Except.error.inj h
    intro hcode
    cases hcode

/-- A save that fails adds directories at most, and it fails for another reason than that something
is there. -/
theorem error_of_save {e : Error} (h : m.save path t = .error e t') :
    OnlyDirectories t t' ∧ e.Vacant := by
  have hmake : Change.Preserves (OnlyDirectories t) Error.Vacant
      (path.parent?.elim (pure ()) Change.makeDirectories) := by
    cases path.parent? with
    | none => exact Change.preserves_pure ()
    | some above => exact Change.preserves_onlyDirectories Error.vacant_file t above
  have hprint : Change.Preserves (OnlyDirectories t) Error.Vacant (Change.ofResult m.toText) :=
    Change.preserves_ofResult fun _ => vacant_of_toText
  rw [save_eq] at h
  rcases Change.error_of_bind h with h | ⟨_, between, hmade, h⟩
  · exact (hmake t (.refl _ t)).2 _ _ h
  have grown := (hmake t (.refl _ t)).1 _ _ hmade
  rcases Change.error_of_bind h with h | ⟨text, _, htext, h⟩
  · exact (hprint between grown).2 _ _ h
  obtain ⟨-, rfl⟩ := Change.eq_ok_of_ofResult htext
  obtain ⟨fault, hwrite⟩ | ⟨_, -, -, hwrite⟩ := Change.write_cases path text.toUTF8 between
  · obtain ⟨rfl, rfl⟩ := EStateM.Result.error.inj (hwrite.symm.trans h)
    exact ⟨grown, Error.vacant_file fault⟩
  · cases hwrite.symm.trans h

end Manifest

/-! ### Saving a model -/

theorem FileTree.isEmptyDirectory_iff :
    t.isEmptyDirectory path = true ↔ ∃ l, t.find path = .ok (l, .directory []) := by
  rw [isEmptyDirectory]
  constructor
  · intro h
    split at h
    · exact ⟨_, ‹_›⟩
    · cases h
  · rintro ⟨l, hfind⟩
    rw [hfind]

/-- Nothing lies in an empty directory. -/
theorem FileTree.get?_of_isEmptyDirectory (h : t.isEmptyDirectory path = true) (name : String) :
    t.get? (t.placeOf path ++ [name]) = none := by
  obtain ⟨l, hfind⟩ := isEmptyDirectory_iff.1 h
  obtain ⟨g, hg, rfl, there⟩ := find_eq_ok hfind
  rw [← place_of_target hg, Option.eq_none_iff_forall_ne_some]
  intro found hfound
  cases FileNode.mem_of_get? there hfound

/-- The error of a path that names something else than an empty directory. -/
def occupied (path : Path) : Error :=
  .alreadyExists ("Path '" ++ path.text ++ "' already exists and is not empty")

theorem saveModel_eq (path : Path) (m : Manifest) (t : FileTree) :
    saveModel path m t = if t.exists? path && !t.isEmptyDirectory path
      then .error (occupied path) t
      else (Change.makeDirectories path >>= fun _ => m.save (path.join manifestName)) t := by
  rw [saveModel, Change.get_bind]
  split <;> rfl

/-- A save fails because of what its path names, and nothing is changed, or it fails for another
reason, and directories are added at most. -/
theorem error_of_saveModel {e : Error} (h : saveModel path m t = .error e t') :
    (t.exists? path = true ∧ t.isEmptyDirectory path = false ∧ e = occupied path ∧ t' = t) ∨
    OnlyDirectories t t' ∧ e.Vacant := by
  rw [saveModel_eq] at h
  split at h
  · rename_i full
    obtain ⟨rfl, rfl⟩ := EStateM.Result.error.inj h
    exact .inl (by simpa using full)
  · have hmake := Change.preserves_onlyDirectories Error.vacant_file t path t (.refl _ t)
    rcases Change.error_of_bind h with h | ⟨_, between, hmade, h⟩
    · exact .inr (hmake.2 _ _ h)
    · obtain ⟨grown, vacant⟩ := Manifest.error_of_save h
      exact .inr ⟨(hmake.1 _ _ hmade).trans grown, vacant⟩

theorem saveModel_of_occupied (m : Manifest) (there : t.exists? path = true)
    (full : t.isEmptyDirectory path = false) : saveModel path m t = .error (occupied path) t := by
  rw [saveModel_eq, there, full]
  rfl

/-- A save that succeeds has found nothing there or an empty directory, has made the directory, and
then has written the text of the manifest. -/
theorem eq_ok_of_saveModel (h : saveModel path m t = .ok () t') :
    (t.exists? path = true → t.isEmptyDirectory path = true) ∧
    ∃ made text, Change.makeDirectories path t = .ok () made ∧ m.toText = .ok text ∧
      Change.writeBelow (path.join manifestName) text.toUTF8 made = .ok () t' := by
  rw [saveModel_eq] at h
  split at h
  · cases h
  rename_i free
  obtain ⟨_, made, hmade, hsave⟩ := Change.eq_ok_of_bind h
  obtain ⟨text, htext, hwrite⟩ := Manifest.eq_ok_of_save hsave
  exact ⟨fun there => by simpa [there] using free, made, text, hmade, htext, hwrite⟩

/-- What a save leaves behind that succeeds: the manifest is in the directory, all other files are
as they were, and nothing was in the place of the manifest if the path is not empty and does not go
up above a missing part. -/
structure SavedAt (path : Path) (m : Manifest) (t t' : FileTree) : Prop where
  manifest : ∃ text, m.toText = .ok text ∧
    t'.file? (t.placeOf path ++ [manifestName]) = some text.toUTF8
  others : ∀ l, l ≠ t.placeOf path ++ [manifestName] → t'.file? l = t.file? l
  absent : path.text ≠ "" → ¬ t.ClimbsFromMissing path →
    t.get? (t.placeOf path ++ [manifestName]) = none

theorem savedAt_of_saveModel (h : saveModel path m t = .ok () t') : SavedAt path m t t' := by
  obtain ⟨free, _, text, hmade, htext, hwrite⟩ := eq_ok_of_saveModel h
  have made := Change.onlyDirectories_of_makeDirectories hmade
  obtain ⟨g, front, name, hg, -, -, hfile, grown⟩ := Change.lands_of_writeBelow hwrite
  have hplace : g.place = t.placeOf path ++ [manifestName] := by
    rw [FileTree.place_of_target hg, grown.placeOf_eq, made.placeOf_eq,
      FileTree.placeOf_join_plain plain_manifestName]
  refine ⟨⟨text, htext, hplace ▸ hfile⟩, fun l elsewhere => ?_, fun hne straight => ?_⟩
  · rw [grown.file?_eq (hplace ▸ elsewhere), made.file?_eq id]
  · -- The path named an empty directory, or it named nothing and the directory was made.
    cases hthere : t.exists? path with
    | true => exact FileTree.get?_of_isEmptyDirectory (free hthere) manifestName
    | false =>
      have directory := Change.isDirectory_of_makeDirectories hne hmade
      have absent := (FileTree.climbs_or_absent made directory hthere).resolve_left straight
      exact absent manifestName

/-- A save is refused exactly where the path names something else than an empty directory; one that
fails changes no file; one that succeeds writes the manifest and touches no other file, and replaces
a file only if the path is empty or goes up above a missing part. -/
theorem saveModel_spares (t : FileTree) (path : Path) (m : Manifest) :
    (t.exists? path = true ∧ t.isEmptyDirectory path = false →
      saveModel path m t = .error (occupied path) t) ∧
    (∀ e t', saveModel path m t = .error e t' →
      (e.code = .alreadyExists → t.exists? path = true ∧ t.isEmptyDirectory path = false) ∧
      ∀ l, t'.file? l = t.file? l) ∧
    ∀ t', saveModel path m t = .ok () t' → SavedAt path m t t' := by
  refine ⟨fun h => saveModel_of_occupied m h.1 h.2, fun e t' herror => ?_,
    fun t' hok => savedAt_of_saveModel hok⟩
  rcases error_of_saveModel herror with ⟨there, full, -, rfl⟩ | ⟨grown, vacant⟩
  · exact ⟨fun _ => ⟨there, full⟩, fun l => rfl⟩
  · exact ⟨fun hcode => absurd hcode vacant, fun l => grown.file?_eq id⟩

/-- A directory with an older model, an empty one, and an older model beside them. -/
def olderModels : FileTree :=
  ⟨.directory [("a", .directory [(manifestName, .file .empty)]), ("b", .directory []),
    (manifestName, .file .empty)], [], rfl, rfl⟩

/-- Whether a change succeeds and leaves a file of another size at a place. -/
def resizes (change : Change Unit) (l : Location) (t : FileTree) : Bool :=
  succeeds (change t) fun _ t' =>
    !decide ((t'.file? l).map ByteArray.size = (t.file? l).map ByteArray.size)

theorem exists_of_resizes {change : Change Unit} {l : Location}
    (h : resizes change l t = true) : ∃ t', change t = .ok () t' ∧ t'.file? l ≠ t.file? l := by
  obtain ⟨_, t', hok, hsize⟩ := eq_ok_of_succeeds h
  refine ⟨t', hok, fun same => ?_⟩
  rw [same, decide_eq_true rfl] at hsize
  cases hsize

theorem olderModels_saved :
    succeeds (saveModel ⟨"b/./c"⟩ .empty olderModels) (fun _ _ => true) = true ∧
    resizes (saveModel ⟨"missing/../a"⟩ .empty) ["a", manifestName] olderModels = true ∧
    resizes (saveModel ⟨""⟩ .empty) [manifestName] olderModels = true := by
  decide +kernel

theorem saveModel_spares_older : ∃ t', saveModel ⟨"b/./c"⟩ .empty olderModels = .ok () t' ∧
    SavedAt ⟨"b/./c"⟩ .empty olderModels t' ∧ olderModels.get? ["b", "c", manifestName] = none := by
  obtain ⟨_, t', hok, -⟩ := eq_ok_of_succeeds olderModels_saved.1
  have saved := (saveModel_spares olderModels ⟨"b/./c"⟩ .empty).2.2 t' hok
  refine ⟨t', hok, saved, saved.absent (by decide) (FileTree.not_climbsFromMissing ?_)⟩
  decide

/-- A path that goes up above a missing part, or an empty one, lets a save replace the manifest of
an older model. -/
theorem saveModel_replaces_older :
    olderModels.file? ["a", manifestName] = some .empty ∧
    (∃ t', saveModel ⟨"missing/../a"⟩ .empty olderModels = .ok () t' ∧
      t'.file? ["a", manifestName] ≠ olderModels.file? ["a", manifestName]) ∧
    olderModels.file? [manifestName] = some .empty ∧
    ∃ t', saveModel ⟨""⟩ .empty olderModels = .ok () t' ∧
      t'.file? [manifestName] ≠ olderModels.file? [manifestName] :=
  ⟨rfl, exists_of_resizes olderModels_saved.2.1, rfl, exists_of_resizes olderModels_saved.2.2⟩

end ModelShelf
