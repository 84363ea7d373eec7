import ModelShelf.Code.Bundle
import ModelShelf.Proofs.Files.Places

/-!
Directories that are put on the search path, call after call, while the tree changes between the
calls. A call puts one place in front, the one that its directory has at that moment, or it leaves
the search path as it is. So places keep their order and are never taken away, and each of them was
put there by one call.
-/

namespace ModelShelf

variable {t : FileTree} {path path' : SearchPath} {directory : Path} {place : Place}

/-- A path names something, which lies at the place that its text tells. -/
structure FileTree.Canonical (t : FileTree) (p : Path) (place : Place) : Prop where
  located : t.locate p = .ok place
  byText : place.val = t.placeOf p
  there : ∃ node, t.get? place.val = some node

theorem FileTree.canonical_of_locate {p : Path} (h : t.locate p = .ok place) :
    t.Canonical p place := by
  have located := h
  rw [locate] at h
  split at h
  · cases h
  · rename_i found hfind
    obtain rfl := Except.ok.inj h
    obtain ⟨l, node⟩ := found
    obtain ⟨g, hg, rfl, there⟩ := find_eq_ok hfind
    exact ⟨located, place_of_target hg, node, there⟩

namespace SearchPath

/-! ### One call -/

theorem entries_add (path : SearchPath) (place : Place) :
    (path.add place).entries =
      if place ∈ path.entries then path.entries else place :: path.entries := by
  rw [add]
  split <;> rfl

theorem mem_add (path : SearchPath) (place : Place) : place ∈ (path.add place).entries := by
  rw [entries_add]
  split
  · assumption
  · exact List.mem_cons_self

theorem add_of_mem (h : place ∈ path.entries) : path.add place = path := dif_pos h

@[simp]
theorem add_add (path : SearchPath) (place : Place) :
    (path.add place).add place = path.add place :=
  add_of_mem (mem_add path place)

theorem prepend_of_located (h : t.locate directory = .ok place) :
    prepend t directory path = .ok (!path.entries.contains place) (path.add place) := by
  rw [prepend, h]
  show (ite _ _ _ : Update Bool) path = _
  by_cases hmem : place ∈ path.entries
  · have there : path.entries.contains place = true := List.contains_iff_mem.2 hmem
    rw [if_pos there, there, add_of_mem hmem]
    rfl
  · have missing : ¬ path.entries.contains place = true := mt List.contains_iff_mem.1 hmem
    rw [if_neg missing, Bool.eq_false_iff.2 missing]
    rfl

theorem prepend_of_missing {fault : FileFault} (h : t.locate directory = .error fault) :
    prepend t directory path = .error (.file fault) path := by
  rw [prepend, h]
  rfl

theorem prepend_eq_ok {isNew : Bool} :
    prepend t directory path = .ok isNew path' ↔
      ∃ place, t.locate directory = .ok place ∧ path' = path.add place ∧
        isNew = !path.entries.contains place := by
  cases hlocate : t.locate directory with
  | error fault =>
    rw [prepend_of_missing hlocate]
    constructor
    · intro h
      cases h
    · rintro ⟨_, ⟨⟩, -⟩
  | ok place =>
    rw [prepend_of_located hlocate]
    constructor
    · intro h
      obtain ⟨rfl, rfl⟩ := EStateM.Result.ok.inj h
      exact ⟨place, rfl, rfl, rfl⟩
    · rintro ⟨_, ⟨⟩, rfl, rfl⟩
      rfl

/-- A directory that cannot be found is refused, and the search path stays as it was. -/
theorem prepend_eq_error {e : Error} :
    prepend t directory path = .error e path' ↔
      path' = path ∧ ∃ fault, t.locate directory = .error fault ∧ e = .file fault := by
  cases hlocate : t.locate directory with
  | error fault =>
    rw [prepend_of_missing hlocate]
    constructor
    · intro h
      obtain ⟨rfl, rfl⟩ := EStateM.Result.error.inj h
      exact ⟨rfl, fault, rfl, rfl⟩
    · rintro ⟨rfl, _, ⟨⟩, rfl⟩
      rfl
  | ok place =>
    rw [prepend_of_located hlocate]
    constructor
    · intro h
      cases h
    · rintro ⟨-, _, ⟨⟩, -⟩

theorem contains_of_locate (h : t.locate directory = .ok place) :
    path.contains t directory = path.entries.contains place := by
  rw [contains, h]

section AddCode

variable {config : Config} {model : Path} {flavor : FlavorConfig} {key : String}

theorem addCode_of_located (h : codeDirectory? t config model flavor key = .ok (some directory))
    (hplace : t.locate directory = .ok place) :
    addCode t config model flavor key path = .ok (some directory) (path.add place) := by
  rw [addCode, h]
  show EStateM.bind (EStateM.map _ (prepend t directory)) _ path = _
  rw [EStateM.bind, EStateM.map, prepend_of_located hplace]
  rfl

theorem addCode_of_missing {fault : FileFault}
    (h : codeDirectory? t config model flavor key = .ok (some directory))
    (hplace : t.locate directory = .error fault) :
    addCode t config model flavor key path = .error (.file fault) path := by
  rw [addCode, h]
  show EStateM.bind (EStateM.map _ (prepend t directory)) _ path = _
  rw [EStateM.bind, EStateM.map, prepend_of_missing hplace]

theorem addCode_of_none (h : codeDirectory? t config model flavor key = .ok none) :
    addCode t config model flavor key path = .ok none path := by
  rw [addCode, h]
  rfl

theorem addCode_of_error {e : Error} (h : codeDirectory? t config model flavor key = .error e) :
    addCode t config model flavor key path = .error e path := by
  rw [addCode, h]
  rfl

theorem addCode_eq_ok {answer : Option Path} :
    addCode t config model flavor key path = .ok answer path' ↔
      (codeDirectory? t config model flavor key = .ok none ∧ path' = path ∧ answer = none) ∨
      ∃ directory place, codeDirectory? t config model flavor key = .ok (some directory) ∧
        t.locate directory = .ok place ∧ path' = path.add place ∧ answer = some directory := by
  constructor
  · intro h
    cases hcode : codeDirectory? t config model flavor key with
    | error e => cases (addCode_of_error hcode).symm.trans h
    | ok found =>
      cases found with
      | none =>
        obtain ⟨rfl, rfl⟩ := EStateM.Result.ok.inj ((addCode_of_none hcode).symm.trans h)
        exact .inl ⟨rfl, rfl, rfl⟩
      | some directory =>
        cases hlocate : t.locate directory with
        | error fault => cases (addCode_of_missing hcode hlocate).symm.trans h
        | ok place =>
          obtain ⟨rfl, rfl⟩ :=
            EStateM.Result.ok.inj ((addCode_of_located hcode hlocate).symm.trans h)
          exact .inr ⟨directory, place, rfl, hlocate, rfl, rfl⟩
  · rintro (⟨hcode, rfl, rfl⟩ | ⟨directory, place, hcode, hlocate, rfl, rfl⟩)
    · exact addCode_of_none hcode
    · exact addCode_of_located hcode hlocate

/-- A call that is refused leaves the search path as it was. -/
theorem eq_of_addCode_eq_error {e : Error}
    (h : addCode t config model flavor key path = .error e path') : path' = path := by
  cases hcode : codeDirectory? t config model flavor key with
  | error e' => exact (EStateM.Result.error.inj (h.symm.trans (addCode_of_error hcode))).2
  | ok found =>
    cases found with
    | none => cases (addCode_of_none hcode).symm.trans h
    | some directory =>
      cases hlocate : t.locate directory with
      | error fault =>
        exact (EStateM.Result.error.inj (h.symm.trans (addCode_of_missing hcode hlocate))).2
      | ok place => cases (addCode_of_located hcode hlocate).symm.trans h

/-- Why a flavor has no code to add: its key is absent, null or empty, or it names a directory that
is missing and need not be there. -/
inductive NoCode (t : FileTree) (config : Config) (model : Path) (flavor : FlavorConfig)
    (key : String) : Prop
  | absent (recorded : flavor.get? key = none)
  | null (recorded : flavor.get? key = some .null)
  | empty (recorded : flavor.get? key = some (.string ""))
  | missing {name : String} (recorded : flavor.get? key = some (.string name))
      (notThere : t.isDirectory (model.join name) = false) (skipped : config.validatesCode = false)

theorem codeDirectory?_eq_none :
    codeDirectory? t config model flavor key = .ok none ↔ NoCode t config model flavor key := by
  constructor
  · intro h
    rw [codeDirectory?] at h
    split at h
    · exact .absent ‹_›
    · exact .null ‹_›
    · rename_i name recorded
      dsimp only at h
      split at h
      · rename_i hempty
        rw [String.isEmpty_iff] at hempty
        exact .empty (hempty ▸ recorded)
      · split at h
        · cases h
        · rename_i notThere
          split at h
          · cases h
          · rename_i skipped
            exact .missing recorded (Bool.eq_false_iff.2 notThere) (Bool.eq_false_iff.2 skipped)
    · cases h
  · intro h
    rw [codeDirectory?]
    cases h with
    | absent recorded => rw [recorded]
    | null recorded => rw [recorded]
    | empty recorded =>
      rw [recorded]
      rfl
    | missing recorded notThere skipped =>
      rw [recorded]
      simp [notThere, skipped]

/-- The directory that is found is the one that is recorded, and it is there. -/
theorem codeDirectory?_eq_some
    (h : codeDirectory? t config model flavor key = .ok (some directory)) :
    t.isDirectory directory = true ∧
      ∃ name, flavor.get? key = some (.string name) ∧ directory = model.join name := by
  rw [codeDirectory?] at h
  split at h
  · cases h
  · cases h
  · rename_i name recorded
    dsimp only at h
    split at h
    · cases h
    · split at h
      · rename_i there
        obtain rfl := Option.some.inj (Except.ok.inj h)
        exact ⟨there, name, recorded, rfl⟩
      · split at h <;> cases h
  · cases h

end AddCode

end SearchPath

/-- The search path that an operation leaves, whether it succeeds or fails. -/
def SearchPath.afterUpdate (update : SearchPath.Update α) (path : SearchPath) : SearchPath :=
  match update path with
  | .ok _ path' => path'
  | .error _ path' => path'

theorem SearchPath.afterUpdate_of_ok {update : SearchPath.Update α} {a : α}
    (h : update path = .ok a path') : SearchPath.afterUpdate update path = path' := by
  rw [afterUpdate, h]

theorem SearchPath.afterUpdate_of_error {update : SearchPath.Update α} {e : Error}
    (h : update path = .error e path') : SearchPath.afterUpdate update path = path' := by
  rw [afterUpdate, h]

/-- A call that puts a directory on the search path: one that is given, or the code directory of a
flavor. -/
inductive Registration where
  | directory (directory : Path)
  | code (config : Config) (model : Path) (flavor : FlavorConfig) (key : String)

namespace Registration

/-- The directory that a call is about, if there is one. -/
def directory? (c : Registration) (t : FileTree) : Option Path :=
  match c with
  | .directory directory => some directory
  | .code config model flavor key => (codeDirectory? t config model flavor key).toOption.join

/-- The search path after a call, whether it succeeds or fails. -/
def after (c : Registration) (t : FileTree) (path : SearchPath) : SearchPath :=
  match c with
  | .directory directory => SearchPath.afterUpdate (SearchPath.prepend t directory) path
  | .code config model flavor key =>
    SearchPath.afterUpdate (SearchPath.addCode t config model flavor key) path

/-- A call puts the place of its directory in front, where it was not before. -/
structure Adds (c : Registration) (t : FileTree) (old new : SearchPath) (place : Place) :
    Prop where
  canonical : ∃ directory, c.directory? t = some directory ∧ t.Canonical directory place
  isNew : place ∉ old.entries
  entries : new.entries = place :: old.entries

theorem adds_or_eq {c : Registration} (hdirectory : c.directory? t = some directory)
    (hplace : t.locate directory = .ok place) (hpath : path' = path.add place) :
    path' = path ∨ c.Adds t path path' place := by
  by_cases hmem : place ∈ path.entries
  · exact .inl (hpath.trans (SearchPath.add_of_mem hmem))
  · refine .inr ⟨⟨directory, hdirectory, FileTree.canonical_of_locate hplace⟩, hmem, ?_⟩
    rw [hpath, SearchPath.entries_add, if_neg hmem]

/-- A call adds one place at most. -/
theorem after_cases (c : Registration) (t : FileTree) (path : SearchPath) :
    c.after t path = path ∨ ∃ place, c.Adds t path (c.after t path) place := by
  cases c with
  | directory directory =>
    rw [after]
    cases hprepend : SearchPath.prepend t directory path with
    | ok isNew path' =>
      obtain ⟨place, hplace, hpath, -⟩ := SearchPath.prepend_eq_ok.1 hprepend
      rw [SearchPath.afterUpdate_of_ok hprepend]
      exact (adds_or_eq rfl hplace hpath).imp_right fun adds => ⟨place, adds⟩
    | error e path' =>
      rw [SearchPath.afterUpdate_of_error hprepend]
      exact .inl (SearchPath.prepend_eq_error.1 hprepend).1
  | code config model flavor key =>
    rw [after]
    cases hcode : SearchPath.addCode t config model flavor key path with
    | ok answer path' =>
      rw [SearchPath.afterUpdate_of_ok hcode]
      obtain ⟨-, rfl, -⟩ | ⟨directory, place, hfound, hplace, hpath, -⟩ :=
        SearchPath.addCode_eq_ok.1 hcode
      · exact .inl rfl
      · refine (adds_or_eq ?_ hplace hpath).imp_right fun adds => ⟨place, adds⟩
        rw [directory?, hfound]
        rfl
    | error e path' =>
      rw [SearchPath.afterUpdate_of_error hcode]
      exact .inl (SearchPath.eq_of_addCode_eq_error hcode)

end Registration

namespace SearchPath

/-! ### Calls one after the other -/

/-- The search path after calls, each on the tree as it is then. -/
def afterCalls (path : SearchPath) (calls : List (FileTree × Registration)) : SearchPath :=
  calls.foldl (fun path c => c.2.after c.1 path) path

theorem afterCalls_append (path : SearchPath) (calls later : List (FileTree × Registration)) :
    path.afterCalls (calls ++ later) = (path.afterCalls calls).afterCalls later :=
  List.foldl_append

/-- Each call keeps the places that are there, in their order, so any number of calls does. -/
theorem suffix_afterCalls (path : SearchPath) (calls : List (FileTree × Registration)) :
    path.entries <:+ (path.afterCalls calls).entries := by
  induction calls generalizing path with
  | nil => exact List.suffix_refl _
  | cons c calls ih =>
    refine List.IsSuffix.trans ?_ (ih (c.2.after c.1 path))
    obtain heq | ⟨place, adds⟩ := c.2.after_cases c.1 path
    · simp only [heq, List.suffix_refl]
    · rw [adds.entries]
      exact List.suffix_cons _ _

/-- A place that is there after some calls was there before them, or one of them has added it. -/
theorem exists_adds_of_mem {calls : List (FileTree × Registration)}
    (h : place ∈ (path.afterCalls calls).entries) :
    place ∈ path.entries ∨ ∃ before t c later, calls = before ++ (t, c) :: later ∧
      c.Adds t (path.afterCalls before) (path.afterCalls (before ++ [(t, c)])) place := by
  induction calls generalizing path with
  | nil => exact .inl h
  | cons first calls ih =>
    obtain ⟨t, c⟩ := first
    have hlater : place ∈ ((c.after t path).afterCalls calls).entries := h
    rcases ih hlater with hmem | ⟨before, t', c', later, hcalls, adds⟩
    · obtain heq | ⟨added, adds⟩ := c.after_cases t path
      · exact .inl (heq ▸ hmem)
      · rw [adds.entries] at hmem
        rcases List.mem_cons.1 hmem with rfl | hmem
        · exact .inr ⟨[], t, c, calls, rfl, adds⟩
        · exact .inl hmem
    · exact .inr ⟨(t, c) :: before, t', c', later, by rw [hcalls]; rfl, adds⟩

/-- What the answers of calls on a search path say: whether a place was added, why no code was
added, and that a directory which is returned is on the search path, so that the same call changes
nothing when it is made again. A refused call changes nothing either. -/
structure Answered (path : SearchPath) (t : FileTree) : Prop where
  directory : ∀ {directory isNew path'}, prepend t directory path = .ok isNew path' →
    (Registration.directory directory).after t path = path' ∧ (isNew = true ↔ path' ≠ path) ∧
      path'.contains t directory = true ∧ prepend t directory path' = .ok false path'
  code : ∀ {config model flavor key directory path'},
    addCode t config model flavor key path = .ok (some directory) path' →
      (Registration.code config model flavor key).after t path = path' ∧
      (∃ name, flavor.get? key = some (.string name) ∧ directory = model.join name) ∧
      path'.contains t directory = true ∧
        addCode t config model flavor key path' = .ok (some directory) path'
  nothing : ∀ {config model flavor key path'},
    addCode t config model flavor key path = .ok none path' ↔
      NoCode t config model flavor key ∧ path' = path
  refused : ∀ {directory e path'}, prepend t directory path = .error e path' →
    (Registration.directory directory).after t path = path' ∧ path' = path
  refusedCode : ∀ {config model flavor key e path'},
    addCode t config model flavor key path = .error e path' →
      (Registration.code config model flavor key).after t path = path' ∧ path' = path

theorem answered (path : SearchPath) (t : FileTree) : path.Answered t where
  directory {directory isNew path'} h := by
    obtain ⟨place, hplace, rfl, rfl⟩ := prepend_eq_ok.1 h
    have hmem := mem_add path place
    refine ⟨afterUpdate_of_ok h, ?_, ?_,
      prepend_eq_ok.2 ⟨place, hplace, (add_add path place).symm, by simp [hmem]⟩⟩
    · by_cases hold : place ∈ path.entries
      · simp [hold, add_of_mem]
      · have hne : path.add place ≠ path := fun heq => hold (heq ▸ hmem)
        simp [hold, hne]
    · rw [contains_of_locate hplace]
      simpa using hmem
  code {config model flavor key directory path'} h := by
    obtain ⟨-, -, ⟨⟩⟩ | ⟨_, place, hfound, hplace, rfl, ⟨⟩⟩ := addCode_eq_ok.1 h
    refine ⟨afterUpdate_of_ok h, (codeDirectory?_eq_some hfound).2, ?_, ?_⟩
    · rw [contains_of_locate hplace]
      simpa using mem_add path place
    · exact addCode_eq_ok.2
        (.inr ⟨directory, place, hfound, hplace, (add_add path place).symm, rfl⟩)
  nothing {config model flavor key path'} := by
    rw [addCode_eq_ok, codeDirectory?_eq_none]
    simp
  refused {directory e path'} h := ⟨afterUpdate_of_error h, (prepend_eq_error.1 h).1⟩
  refusedCode {config model flavor key e path'} h :=
    ⟨afterUpdate_of_error h, eq_of_addCode_eq_error h⟩

/-- However many calls are made, on whatever trees, no place is on the search path twice, the places
that were there at any time are there at any later time, behind all that are new, and each place
that was not there at first was added by one call, as the place that its directory had then. One
call adds one place at most, and its answer says whether it did. -/
theorem registered (start : SearchPath) (calls later : List (FileTree × Registration)) :
    (start.afterCalls (calls ++ later)).entries.Nodup ∧
    (start.afterCalls calls).entries <:+ (start.afterCalls (calls ++ later)).entries ∧
    (∀ place ∈ (start.afterCalls calls).entries, place ∈ start.entries ∨
      ∃ before t c rest, calls = before ++ (t, c) :: rest ∧
        c.Adds t (start.afterCalls before) (start.afterCalls (before ++ [(t, c)])) place) ∧
    ∀ t, (start.afterCalls calls).Answered t ∧
      ∀ c : Registration, c.after t (start.afterCalls calls) = start.afterCalls calls ∨
        ∃ place, c.Adds t (start.afterCalls calls) (c.after t (start.afterCalls calls)) place := by
  refine ⟨(start.afterCalls (calls ++ later)).unique, ?suffix, ?added, fun t => ⟨?answers, ?one⟩⟩
  case suffix =>
    rw [afterCalls_append]
    exact suffix_afterCalls _ later
  case added => exact fun place hmem => exists_adds_of_mem hmem
  case answers => exact answered _ t
  case one => exact fun c => c.after_cases t _

/-- A flavor that records a code directory. -/
def recording (name : String) : FlavorConfig := .ofList [(codeKey, .string name)]

/-- A library, and a model with a code directory. -/
def libraryTree : FileTree :=
  ⟨.directory [("lib", .directory []), ("model", .directory [("code", .directory [])])], [],
    rfl, rfl⟩

/-- The library, the code of the model, a directory that is missing, and the library once more by
another path. -/
def libraryCalls : List (FileTree × Registration) :=
  [(libraryTree, .directory ⟨"lib"⟩),
    (libraryTree, .code Config.builtin ⟨"model"⟩ (recording "code") codeKey),
    (libraryTree, .directory ⟨"gone"⟩), (libraryTree, .directory ⟨"model/../lib"⟩)]

def libraryPlace : Place := ⟨["lib"], by decide⟩
def codePlace : Place := ⟨["model", "code"], by decide⟩

theorem afterCalls_library :
    (empty.afterCalls libraryCalls).entries = [codePlace, libraryPlace] ∧
    (empty.afterCalls (libraryCalls.take 1)).entries = [libraryPlace] ∧
    libraryTree.locate ⟨"gone"⟩ = .error .noEntry := by
  decide +kernel

theorem registered_library :
    (empty.afterCalls libraryCalls).entries = [codePlace, libraryPlace] ∧
    [libraryPlace] <:+ (empty.afterCalls libraryCalls).entries ∧
    (∃ before t c rest, libraryCalls = before ++ (t, c) :: rest ∧ c.Adds t
      (empty.afterCalls before) (empty.afterCalls (before ++ [(t, c)])) codePlace) ∧
    prepend libraryTree ⟨"gone"⟩ (empty.afterCalls libraryCalls) =
      .error (.file .noEntry) (empty.afterCalls libraryCalls) ∧
    (Registration.directory ⟨"gone"⟩).after libraryTree (empty.afterCalls libraryCalls) =
      empty.afterCalls libraryCalls := by
  obtain ⟨entries, first, missing⟩ := afterCalls_library
  obtain ⟨-, suffix, -⟩ := registered empty (libraryCalls.take 1) (libraryCalls.drop 1)
  rw [List.take_append_drop, first] at suffix
  obtain ⟨-, -, added, answers⟩ := registered empty libraryCalls []
  have code : codePlace ∈ (empty.afterCalls libraryCalls).entries := by
    rw [entries]
    exact List.mem_cons_self
  have refused : prepend libraryTree ⟨"gone"⟩ (empty.afterCalls libraryCalls) =
      .error (.file .noEntry) (empty.afterCalls libraryCalls) := prepend_of_missing missing
  exact ⟨entries, suffix, (added _ code).resolve_left List.not_mem_nil, refused,
    ((answers libraryTree).1.refused refused).1⟩

end SearchPath

end ModelShelf
