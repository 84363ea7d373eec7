import Mathlib.Data.List.Infix
import ModelShelf.Proofs.Code.Segments

/-!
Code directories that flavors record. The directory that is put on the search path is the one of the
recorded name, and that name leads below the model, whichever model it is, exactly if it is relative
and never goes above its start.
-/

namespace ModelShelf

open ModelShelf.Path (Plain)

variable {t : FileTree}

/-! ### Names that lead below every model -/

namespace Location

/-- What is found at a place was there before, or words have led to it. -/
theorem mem_follow {l : Location} {words : List String} {name : String}
    (h : name ∈ l.follow words) : name ∈ l ∨ name ∈ words := by
  obtain ⟨kept, names, hfollow, hnames⟩ := exists_follow l words
  rw [hfollow] at h
  rcases List.mem_append.1 h with h | h
  · exact .inl (List.mem_of_mem_take h)
  · exact .inr (hnames name h).1

/-- Words that lead above a place do not lead back to it, if they do not hold its name. -/
theorem keepsBelow_of_prefix {name : String} {words : List String} (fresh : name ∉ words)
    {below : Location} (h : [name] <+: Location.follow (name :: below) words) :
    keepsBelow below.length words = true := by
  induction words generalizing below with
  | nil => rfl
  | cons word rest ih =>
    obtain ⟨-, hrest⟩ := List.ne_and_not_mem_of_not_mem_cons fresh
    rw [follow, List.foldl_cons, enter] at h
    rw [keepsBelow]
    by_cases idle : Path.isIdle word = true
    · rw [if_pos idle] at h ⊢
      exact ih hrest h
    · rw [if_neg idle] at h ⊢
      by_cases up : word = ".."
      · rw [if_pos up] at h ⊢
        cases below with
        | nil =>
          -- The name is gone, and no word brings it back.
          rcases mem_follow (h.subset List.mem_cons_self) with hnil | hmem
          · cases hnil
          · exact absurd hmem hrest
        | cons first others =>
          rw [List.dropLast_cons_of_ne_nil (List.cons_ne_nil first others)] at h
          have hkeeps := ih hrest h
          rw [List.length_dropLast] at hkeeps
          simpa using hkeeps
      · rw [if_neg up] at h ⊢
        have hkeeps : keepsBelow (below ++ [word]).length rest = true := ih hrest h
        rwa [List.length_append] at hkeeps

end Location

/-- A name that leads below whatever it is put below: it is relative and never goes above its
start. -/
structure Path.Inward (name : String) : Prop where
  relative : (Path.mk name).isAbsolute = false
  keeps : Location.keepsBelow 0 (Path.mk name).words = true

theorem Path.Inward.isPrefix {name : String} (inward : Path.Inward name) (t : FileTree)
    (model : Path) : t.placeOf model <+: t.placeOf (model.join name) := by
  have inside : t.placeOf model <+: (t.placeOf model ++ []).follow (Path.mk name).words :=
    Location.prefix_follow inward.keeps
  rwa [List.append_nil, ← FileTree.placeOf_join inward.relative] at inside

/-- Only such names lead below every model. -/
theorem Path.inward_iff (name : String) (t : FileTree) :
    (∀ model : Path, t.placeOf model <+: t.placeOf (model.join name)) ↔ Path.Inward name := by
  refine ⟨fun inside => ?_, fun inward => inward.isPrefix t⟩
  -- A model with a longer name than all words, so that they cannot lead back to it.
  have plain := SearchPath.plain_letters name.toList.length
  generalize hmodel : SearchPath.letters (name.toList.length + 1) = model at plain
  have hplaces := Location.hasPlainNames_singleton plain
  have fresh : model ∉ (Path.mk name).words := by
    intro hmem
    rw [Path.words_eq] at hmem
    have hlength : model.toList.length ≤ name.toList.length :=
      (Path.sublist_of_mem_wordsOf hmem).length_le
    rw [← hmodel, SearchPath.letters, String.toList_ofList, List.length_replicate] at hlength
    omega
  have hinside := inside (Location.path [model])
  rw [Location.placeOf_path hplaces] at hinside
  by_cases absolute : (Path.mk name).isAbsolute = true
  · rw [SearchPath.join_of_absolute absolute, FileTree.placeOf_eq, FileTree.start,
      if_pos absolute] at hinside
    rcases Location.mem_follow (hinside.subset List.mem_cons_self) with hnil | hmem
    · cases hnil
    · exact absurd hmem fresh
  · have relative : (Path.mk name).isAbsolute = false := Bool.eq_false_iff.2 absolute
    rw [FileTree.placeOf_join relative, Location.placeOf_path hplaces] at hinside
    exact ⟨relative, Location.keepsBelow_of_prefix fresh hinside⟩

namespace SearchPath

/-- The directory that is put on the search path for a flavor is the recorded one, and it lies in
the model if the recorded name is one that leads below every model. Any other name leads away from
some model. -/
theorem addCode_contained {path path' : SearchPath} {config : Config} {model directory : Path}
    {flavor : FlavorConfig} {key : String}
    (h : addCode t config model flavor key path = .ok (some directory) path') :
    ∃ name, flavor.get? key = some (.string name) ∧ directory = model.join name ∧
      t.isDirectory directory = true ∧
      (∃ place ∈ path'.entries, place.val = t.placeOf directory) ∧
      (Path.Inward name → t.placeOf model <+: t.placeOf directory) ∧
      (¬ Path.Inward name → ∃ other : Path, ¬ t.placeOf other <+: t.placeOf (other.join name)) := by
  obtain ⟨-, -, ⟨⟩⟩ | ⟨_, place, hfound, hplace, rfl, ⟨⟩⟩ := addCode_eq_ok.1 h
  obtain ⟨there, name, recorded, rfl⟩ := codeDirectory?_eq_some hfound
  refine ⟨name, recorded, rfl, there,
    ⟨place, mem_add path place, (FileTree.canonical_of_locate hplace).byText⟩,
    fun inward => inward.isPrefix t model, fun outward => ?_⟩
  rw [← not_forall]
  exact mt (Path.inward_iff name t).1 outward

/-- A model with a code directory, and another directory beside it. -/
def modelTree : FileTree :=
  ⟨.directory [("model", .directory [("lib", .directory []), ("code", .directory [])]),
    ("beside", .directory [])], [], rfl, rfl⟩

/-- The directory that is put on the search path for a flavor of the model. -/
def addedFor (name : String) : Option (Option Path) :=
  match addCode modelTree Config.builtin ⟨"model"⟩ (recording name) codeKey empty with
  | .ok answer _ => some answer
  | .error _ _ => none

theorem modelTree_codes :
    addedFor "lib/..//code/." = some (some ⟨"model/lib/..//code/."⟩) ∧
    addedFor "../beside" = some (some ⟨"model/../beside"⟩) ∧
    addedFor "/beside" = some (some ⟨"/beside"⟩) ∧
    (recording "lib/..//code/.").get? codeKey = some (.string "lib/..//code/.") ∧
    modelTree.placeOf ⟨"model"⟩ = ["model"] ∧
    modelTree.placeOf ⟨"model/../beside"⟩ = ["beside"] ∧
    modelTree.placeOf ⟨"/beside"⟩ = ["beside"] := by
  decide +kernel

theorem addCode_of_addedFor {name : String} {directory : Path}
    (h : addedFor name = some (some directory)) : ∃ path', addCode modelTree Config.builtin
      ⟨"model"⟩ (recording name) codeKey empty = .ok (some directory) path' := by
  rw [addedFor] at h
  cases hadded : addCode modelTree Config.builtin ⟨"model"⟩ (recording name) codeKey empty with
  | ok answer path' =>
    rw [hadded] at h
    obtain rfl : answer = some directory := Option.some.inj h
    exact ⟨path', rfl⟩
  | error e path' =>
    rw [hadded] at h
    cases h

theorem addCode_contained_model : ∃ path', addCode modelTree Config.builtin ⟨"model"⟩
      (recording "lib/..//code/.") codeKey empty = .ok (some ⟨"model/lib/..//code/."⟩) path' ∧
    modelTree.placeOf ⟨"model"⟩ <+: modelTree.placeOf ⟨"model/lib/..//code/."⟩ := by
  obtain ⟨added, -, -, recorded, -⟩ := modelTree_codes
  obtain ⟨path', hadded⟩ := addCode_of_addedFor added
  obtain ⟨name, hname, -, -, -, inside, -⟩ := addCode_contained hadded
  obtain rfl : name = "lib/..//code/." :=
    Yaml.Value.string.inj (Option.some.inj (hname.symm.trans recorded))
  exact ⟨path', hadded, inside ⟨by decide, by decide⟩⟩

/-- A name that goes above its start, or one that is absolute, puts a directory beside the model on
the search path. -/
theorem code_beside_model :
    (∃ path', addCode modelTree Config.builtin ⟨"model"⟩ (recording "../beside") codeKey empty =
      .ok (some ⟨"model/../beside"⟩) path') ∧
    (∃ path', addCode modelTree Config.builtin ⟨"model"⟩ (recording "/beside") codeKey empty =
      .ok (some ⟨"/beside"⟩) path') ∧
    ¬ modelTree.placeOf ⟨"model"⟩ <+: modelTree.placeOf ⟨"model/../beside"⟩ ∧
    ¬ modelTree.placeOf ⟨"model"⟩ <+: modelTree.placeOf ⟨"/beside"⟩ := by
  obtain ⟨-, climbing, absolute, -, hmodel, hclimbing, habsolute⟩ := modelTree_codes
  refine ⟨addCode_of_addedFor climbing, addCode_of_addedFor absolute, ?_, ?_⟩
  · rw [hmodel, hclimbing]
    decide
  · rw [hmodel, habsolute]
    decide

end SearchPath

end ModelShelf
