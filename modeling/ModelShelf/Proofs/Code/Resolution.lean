import ModelShelf.Proofs.Code.Registration
import ModelShelf.Proofs.Files.Absolute
import ModelShelf.Proofs.Text.Splitting

/-!
Modules that are looked up on the search path. The segments of a dotted name lead from one of the
directories, the first that has such a module, down through packages to the package or the file that
the last segment names. A segment is a path of its own, so one with slashes in it may lead further
down, or to another place altogether.
-/

namespace ModelShelf

open Text
open ModelShelf.Path (Plain)

variable {t : FileTree}

/-! ### The least name -/

theorem head?_mergeSort_eq_some {names : List String} {name : String} :
    (names.mergeSort fun a b => a ≤ b).head? = some name ↔
      name ∈ names ∧ ∀ other ∈ names, name ≤ other := by
  have trans : ∀ a b c : String, decide (a ≤ b) = true → decide (b ≤ c) = true →
      decide (a ≤ c) = true := fun a b c hab hbc =>
    decide_eq_true (String.le_trans (of_decide_eq_true hab) (of_decide_eq_true hbc))
  have total : ∀ a b : String, (decide (a ≤ b) || decide (b ≤ a)) = true := fun a b => by
    simpa using String.le_total a b
  have sorted := List.pairwise_mergeSort trans total names
  have least {first : String} {rest : List String}
      (h : names.mergeSort (fun a b => a ≤ b) = first :: rest) :
      first ∈ names ∧ ∀ other ∈ names, first ≤ other := by
    rw [h] at sorted
    refine ⟨List.mem_mergeSort.1 (h ▸ List.mem_cons_self), fun other hother => ?_⟩
    have hmem : other ∈ first :: rest := h ▸ List.mem_mergeSort.2 hother
    rcases List.mem_cons.1 hmem with rfl | hrest
    · exact String.le_refl _
    · exact of_decide_eq_true (List.rel_of_pairwise_cons sorted hrest)
  constructor
  · intro h
    obtain ⟨rest, hrest⟩ := List.head?_eq_some_iff.1 h
    exact least hrest
  · rintro ⟨hname, hleast⟩
    cases hsorted : names.mergeSort (fun a b => a ≤ b) with
    | nil =>
      have hmem : name ∈ names.mergeSort fun a b => a ≤ b := List.mem_mergeSort.2 hname
      rw [hsorted] at hmem
      cases hmem
    | cons first rest =>
      obtain ⟨hfirst, hle⟩ := least hsorted
      rw [String.le_antisymm (hleast first hfirst) (hle name hname)]
      rfl

theorem exists_least {names : List String} {name : String} (h : name ∈ names) :
    ∃ first ∈ names, ∀ other ∈ names, first ≤ other := by
  cases hsorted : names.mergeSort (fun a b => a ≤ b) with
  | nil =>
    have hmem : name ∈ names.mergeSort fun a b => a ≤ b := List.mem_mergeSort.2 h
    rw [hsorted] at hmem
    cases hmem
  | cons first rest => exact ⟨first, head?_mergeSort_eq_some.1 (congrArg List.head? hsorted)⟩

/-! ### The modules of a directory -/

namespace FileTree

/-- A directory has a package of a name, which can be reached by its path. -/
structure HasPackage (t : FileTree) (dir : Location) (name : String) : Prop where
  there : ∃ entries, t.get? (dir ++ [name]) = some (.directory entries)
  nameable : Location.Nameable (dir ++ [name])

/-- A directory has a file for a module, which can be reached by its path: without its ending, the
name of the file is the name of the module. -/
structure HasModuleFile (t : FileTree) (dir : Location) (name file : String) : Prop where
  stem : Path.stem file = name
  there : ∃ contents, t.get? (dir ++ [file]) = some (.file contents)
  nameable : Location.Nameable (dir ++ [file])

def HasModule (t : FileTree) (dir : Location) (name : String) : Prop :=
  t.HasPackage dir name ∨ ∃ file, t.HasModuleFile dir name file

/-- The place of a module in a directory: the package, or else the first of the files. -/
inductive ModuleAt (t : FileTree) (dir : Location) (name : String) : Location → Prop
  | package (there : t.HasPackage dir name) : ModuleAt t dir name (dir ++ [name])
  | file {file : String} (noPackage : ¬ t.HasPackage dir name)
      (there : t.HasModuleFile dir name file)
      (least : ∀ other, t.HasModuleFile dir name other → file ≤ other) :
      ModuleAt t dir name (dir ++ [file])

theorem ModuleAt.hasModule {dir found : Location} {name : String} (h : t.ModuleAt dir name found) :
    t.HasModule dir name := by
  cases h with
  | package there => exact .inl there
  | file _ there _ => exact .inr ⟨_, there⟩

/-- A module is an entry of its directory. -/
theorem ModuleAt.eq_concat {dir found : Location} {name : String}
    (h : t.ModuleAt dir name found) :
    ∃ entry node, found = dir ++ [entry] ∧ t.get? (dir ++ [entry]) = some node ∧
      Location.Nameable (dir ++ [entry]) := by
  cases h with
  | package there =>
    obtain ⟨entries, hentries⟩ := there.there
    exact ⟨name, _, rfl, hentries, there.nameable⟩
  | file _ there _ =>
    obtain ⟨contents, hcontents⟩ := there.there
    exact ⟨_, _, rfl, hcontents, there.nameable⟩

theorem plain_of_mem_list {d : Path} {name : String} (h : name ∈ (t.list d).toOption.getD []) :
    Plain name := by
  cases hlist : t.list d with
  | error fault =>
    rw [hlist] at h
    cases h
  | ok listed =>
    rw [hlist] at h
    exact plain_of_list hlist h

end FileTree

namespace SearchPath

section Modules

variable {dir : Location} {name : String}

theorem isDirectory_join_iff (hdir : dir.HasPlainNames) (plain : Plain name) :
    t.isDirectory (dir.path.join name) = true ↔ t.HasPackage dir name := by
  rw [← Location.path_concat plain hdir, FileTree.isDirectory_path_concat plain hdir]
  exact ⟨fun h => ⟨h.1, h.2⟩, fun h => ⟨h.there, h.nameable⟩⟩

/-- The files of a directory that are looked through for a module. -/
theorem mem_filter_list_iff (hdir : dir.HasPlainNames) {file : String} :
    file ∈ ((t.list dir.path).toOption.getD []).filter
        (fun file => Path.stem file = name && t.isFile (dir.path.join file)) ↔
      t.HasModuleFile dir name file := by
  rw [List.mem_filter, Bool.and_eq_true, decide_eq_true_eq]
  constructor
  · rintro ⟨hmem, hstem, hfile⟩
    have plain := FileTree.plain_of_mem_list hmem
    rw [← Location.path_concat plain hdir, FileTree.isFile_path_concat plain hdir] at hfile
    exact ⟨hstem, hfile.1, hfile.2⟩
  · intro h
    obtain ⟨contents, hcontents⟩ := h.there
    have plain := FileTree.plain_of_get? hcontents
    obtain ⟨listed, hlist, hmem⟩ :=
      FileTree.list_path_of_get? plain hdir h.nameable hcontents
    refine ⟨by rw [hlist]; exact hmem, h.stem, ?_⟩
    rw [← Location.path_concat plain hdir, FileTree.isFile_path_concat plain hdir]
    exact ⟨h.there, h.nameable⟩

/-- What is found for a name in a directory is the module there, under its path. -/
theorem moduleIn_eq_some (hdir : dir.HasPlainNames) (plain : Plain name) {p : Path} :
    moduleIn t dir.path name = some p ↔ ∃ found, t.ModuleAt dir name found ∧ p = found.path := by
  rw [moduleIn]
  dsimp only
  by_cases package : t.HasPackage dir name
  · rw [if_pos ((isDirectory_join_iff hdir plain).2 package), ← Location.path_concat plain hdir]
    constructor
    · intro h
      exact ⟨_, .package package, (Option.some.inj h).symm⟩
    · rintro ⟨found, hfound, rfl⟩
      cases hfound with
      | package => rfl
      | file noPackage => exact absurd package noPackage
  · rw [if_neg (mt (isDirectory_join_iff hdir plain).1 package), Option.map_eq_some_iff]
    simp only [head?_mergeSort_eq_some, mem_filter_list_iff hdir]
    constructor
    · rintro ⟨file, ⟨there, least⟩, rfl⟩
      obtain ⟨contents, hcontents⟩ := there.there
      exact ⟨_, .file package there least,
        (Location.path_concat (FileTree.plain_of_get? hcontents) hdir).symm⟩
    · rintro ⟨found, hfound, rfl⟩
      cases hfound with
      | package there => exact absurd there package
      | file _ there least =>
        obtain ⟨contents, hcontents⟩ := there.there
        exact ⟨_, ⟨there, least⟩,
          (Location.path_concat (FileTree.plain_of_get? hcontents) hdir).symm⟩

/-- Of the files for a module, one comes first. -/
theorem exists_moduleAt (hdir : dir.HasPlainNames) (h : t.HasModule dir name) :
    ∃ found, t.ModuleAt dir name found := by
  by_cases package : t.HasPackage dir name
  · exact ⟨_, .package package⟩
  · obtain ⟨file, hfile⟩ := h.resolve_left package
    obtain ⟨first, there, least⟩ := exists_least ((mem_filter_list_iff hdir).2 hfile)
    refine ⟨_, .file package ((mem_filter_list_iff hdir).1 there) fun other hother => ?_⟩
    exact least other ((mem_filter_list_iff hdir).2 hother)

end Modules

/-! ### Down through packages -/

section Packages

variable {e : Location} {packages : List String}

theorem packageIn_cons (t : FileTree) (d : Path) (package : String) (packages : List String) :
    packageIn t d (package :: packages) =
      if t.isDirectory (d.join package) then packageIn t (d.join package) packages else none := by
  rw [packageIn, List.foldlM_cons]
  dsimp only
  split <;> rfl

/-- Packages are put below a directory one after the other. -/
theorem packageIn_eq_some {d d' : Path} (h : packageIn t d packages = some d') :
    d' = packages.foldl Path.join d := by
  induction packages generalizing d with
  | nil => exact (Option.some.inj h).symm
  | cons package packages ih =>
    rw [packageIn_cons] at h
    split at h
    · exact ih h
    · cases h

theorem foldl_join_path (he : e.HasPlainNames) (hpackages : ∀ package ∈ packages, Plain package) :
    packages.foldl Path.join e.path = Location.path (e ++ packages) := by
  induction packages generalizing e with
  | nil => rw [List.append_nil, List.foldl_nil]
  | cons package packages ih =>
    obtain ⟨hpackage, hrest⟩ := List.forall_mem_cons.1 hpackages
    rw [List.foldl_cons, ← Location.path_concat hpackage he,
      ih (he.append (Location.hasPlainNames_singleton hpackage)) hrest, List.append_assoc,
      List.singleton_append]

/-- The packages on the way to something that can be reached by its path are there. -/
theorem packageIn_of_get? (he : e.HasPlainNames) (hpackages : ∀ package ∈ packages, Plain package)
    {name : String} {node : FileNode} (there : t.get? (e ++ packages ++ [name]) = some node)
    (nameable : Location.Nameable (e ++ packages)) :
    packageIn t e.path packages = some (Location.path (e ++ packages)) := by
  induction packages using List.reverseRecOn generalizing name node with
  | nil =>
    rw [List.append_nil]
    rfl
  | append_singleton front last ih =>
    have hlast : Plain last := hpackages last (by simp)
    have hfront : ∀ package ∈ front, Plain package := fun package hpackage =>
      hpackages package (List.mem_append_left _ hpackage)
    have hnames : Location.HasPlainNames (e ++ front) := he.append hfront
    obtain ⟨entries, hdir⟩ := FileNode.directory_of_get?_append there
    rw [← List.append_assoc] at hdir nameable ⊢
    have habove := ih hfront hdir (nameable.above hlast hnames)
    have hpackage := (isDirectory_join_iff hnames hlast).2 ⟨⟨entries, hdir⟩, nameable⟩
    rw [packageIn] at habove ⊢
    rw [List.foldlM_append, habove, Location.path_concat hlast hnames]
    simp only [bind, Option.bind, List.foldlM_cons, List.foldlM_nil, hpackage, ↓reduceIte]
    rfl

end Packages

/-! ### Segments -/

/-- The segments of a dotted name. -/
def segments (module : String) : List String := (splitAll '.' module.toList).map String.ofList

variable {path : SearchPath} {module : String} {p : Path}

theorem segments_eq_singleton (h : '.' ∉ module.toList) : segments module = [module] := by
  rw [segments, splitAll_eq_singleton h]
  simp

theorem exists_last_segment (module : String) :
    ∃ front last, segments module = front ++ [last] := by
  have hne : segments module ≠ [] := mt List.map_eq_nil_iff.1 (splitAll_ne_nil '.' _)
  obtain ⟨front, last, hlast⟩ := (List.eq_nil_or_concat (segments module)).resolve_left hne
  exact ⟨front, last, by rw [hlast, List.concat_eq_append]⟩

theorem not_mem_of_mem_segments {segment : String} (h : segment ∈ segments module) :
    '.' ∉ segment.toList := by
  obtain ⟨chars, hchars, rfl⟩ := List.mem_map.1 h
  rw [String.toList_ofList]
  exact not_mem_of_mem_splitAll hchars

theorem plain_of_not_mem {name : String} (hdot : '.' ∉ name.toList) (solid : name ≠ "")
    (oneName : '/' ∉ name.toList) : Plain name := by
  have notDot : name ≠ "." := by
    rintro rfl
    exact hdot (by decide)
  refine ⟨by simp [Path.isIdle, solid, notDot], ?_, oneName⟩
  rintro rfl
  exact hdot (by decide)

theorem resolve_of_empty (h : "" ∈ segments module) : path.resolve t module = none := by
  have hany : (segments module).any String.isEmpty = true :=
    List.any_eq_true.2 ⟨"", h, rfl⟩
  rw [resolve]
  exact if_pos hany

theorem resolve_eq (path : SearchPath) (t : FileTree) (solid : "" ∉ segments module)
    {front : List String} {last : String} (h : segments module = front ++ [last]) :
    path.resolve t module = path.entries.findSome? fun place =>
      (packageIn t place.val.path front).bind fun directory => moduleIn t directory last := by
  have hall : ¬ (segments module).any String.isEmpty = true := by
    intro hany
    obtain ⟨segment, hmem, hempty⟩ := List.any_eq_true.1 hany
    exact solid (String.isEmpty_iff.1 hempty ▸ hmem)
  rw [segments] at h hall
  rw [resolve, if_neg hall, h, List.getLast?_concat, List.dropLast_concat]
  rfl

/-- What one directory of the search path has for a module. -/
theorem bind_moduleIn_eq_some {e : Place} {front : List String} {last : String}
    (hfront : ∀ segment ∈ front, Plain segment) (hlast : Plain last) :
    ((packageIn t e.val.path front).bind fun directory => moduleIn t directory last) = some p ↔
      ∃ found, t.ModuleAt (e.val ++ front) last found ∧ p = found.path := by
  have hdir : Location.HasPlainNames (e.val ++ front) := e.2.append hfront
  rw [Option.bind_eq_some_iff]
  constructor
  · rintro ⟨directory, hpackage, hmodule⟩
    obtain rfl := packageIn_eq_some hpackage
    rw [foldl_join_path e.2 hfront] at hmodule
    exact (moduleIn_eq_some hdir hlast).1 hmodule
  · intro hfound
    obtain ⟨found, at_, rfl⟩ := hfound
    obtain ⟨entry, node, -, there, nameable⟩ := at_.eq_concat
    have above := nameable.above (FileTree.plain_of_get? there) hdir
    exact ⟨_, packageIn_of_get? e.2 hfront there above,
      (moduleIn_eq_some hdir hlast).2 ⟨found, at_, rfl⟩⟩

theorem isSome_bind_moduleIn {e : Place} {front : List String} {last : String}
    (hfront : ∀ segment ∈ front, Plain segment) (hlast : Plain last) :
    ((packageIn t e.val.path front).bind fun directory => moduleIn t directory last).isSome = true ↔
      t.HasModule (e.val ++ front) last := by
  rw [Option.isSome_iff_exists]
  constructor
  · rintro ⟨p, hp⟩
    obtain ⟨_, hfound, -⟩ := (bind_moduleIn_eq_some hfront hlast).1 hp
    exact hfound.hasModule
  · intro hmodule
    obtain ⟨found, hfound⟩ := exists_moduleAt (e.2.append hfront) hmodule
    exact ⟨_, (bind_moduleIn_eq_some hfront hlast).2 ⟨found, hfound, rfl⟩⟩

section OneName

variable {front : List String} {last : String}

theorem plain_of_segments (h : segments module = front ++ [last]) (solid : "" ∉ segments module)
    (oneName : ∀ segment ∈ segments module, '/' ∉ segment.toList) :
    (∀ segment ∈ front, Plain segment) ∧ Plain last := by
  have plain : ∀ segment ∈ front ++ [last], Plain segment := by
    intro segment hsegment
    rw [← h] at hsegment
    exact plain_of_not_mem (not_mem_of_mem_segments hsegment)
      (fun hempty => solid (hempty ▸ hsegment)) (oneName segment hsegment)
  exact ⟨fun segment hsegment => plain segment (List.mem_append_left _ hsegment),
    plain last (List.mem_append_right front List.mem_cons_self)⟩

variable (hfront : ∀ segment ∈ front, Plain segment) (hlast : Plain last)
  (solid : "" ∉ segments module) (h : segments module = front ++ [last])

include hfront hlast solid h

theorem resolve_isSome_iff : (path.resolve t module).isSome = true ↔
    ∃ e ∈ path.entries, t.HasModule (e.val ++ front) last := by
  rw [resolve_eq path t solid h, List.findSome?_isSome_iff]
  exact exists_congr fun e => and_congr_right fun _ => isSome_bind_moduleIn hfront hlast

/-- A module is taken from the first directory that has it. -/
theorem resolve_eq_some_iff : path.resolve t module = some p ↔
    ∃ before e after found, path.entries = before ++ e :: after ∧
      (∀ other ∈ before, ¬ t.HasModule (other.val ++ front) last) ∧
      t.ModuleAt (e.val ++ front) last found ∧ p = found.path := by
  rw [resolve_eq path t solid h, List.findSome?_eq_some_iff]
  have nothing (e : Place) :
      ((packageIn t e.val.path front).bind fun directory => moduleIn t directory last) = none ↔
        ¬ t.HasModule (e.val ++ front) last := by
    rw [← isSome_bind_moduleIn hfront hlast, Bool.not_eq_true, Option.isSome_eq_false_iff,
      Option.isNone_iff_eq_none]
  constructor
  · rintro ⟨before, e, after, hentries, hfound, hbefore⟩
    obtain ⟨found, hmodule, rfl⟩ := (bind_moduleIn_eq_some hfront hlast).1 hfound
    exact ⟨before, e, after, found, hentries,
      fun other hother => (nothing other).1 (hbefore other hother), hmodule, rfl⟩
  · rintro ⟨before, e, after, found, hentries, hbefore, hmodule, rfl⟩
    exact ⟨before, e, after, hentries,
      (bind_moduleIn_eq_some hfront hlast).2 ⟨found, hmodule, rfl⟩,
      fun other hother => (nothing other).2 (hbefore other hother)⟩

end OneName

/-! ### Modules that are too deep -/

/-- Directories of one name inside each other. -/
def nested (name : String) : Nat → FileNode
  | 0 => .directory []
  | depth + 1 => .directory [(name, nested name depth)]

section Nested

variable {name : String} (plain : Plain name)

theorem get?_nested (name : String) (depth more : Nat) :
    (nested name (depth + more)).get? (List.replicate depth name) = some (nested name more) := by
  induction depth with
  | zero =>
    rw [Nat.zero_add]
    rfl
  | succ depth ih =>
    rw [Nat.add_right_comm, nested, List.replicate_succ, FileNode.get?_directory,
      lookup_cons_eq_ite, if_pos rfl]
    exact ih

include plain

theorem hasPlainNames_nested (depth : Nat) : (nested name depth).hasPlainNames = true := by
  induction depth with
  | zero => rfl
  | succ depth ih =>
    simp [nested, FileNode.hasPlainNames, FileNode.entriesHavePlainNames, plain, ih]

/-- Directories of one name inside each other, seen from the root. -/
def nestedTree (depth : Nat) : FileTree where
  root := nested name depth
  current := []
  names := hasPlainNames_nested plain depth
  here := by cases depth <;> rfl

/-- The place of the directory at a depth. -/
def nestedPlace (depth : Nat) : Place :=
  ⟨List.replicate depth name, fun _ hmem => List.eq_of_mem_replicate hmem ▸ plain⟩

theorem utf8ByteSize_path_replicate (depth : Nat) :
    depth * name.utf8ByteSize ≤
      (Location.path (List.replicate depth name)).text.utf8ByteSize := by
  induction depth with
  | zero => omega
  | succ depth ih =>
    have hsize := Location.utf8ByteSize_path_concat plain (nestedPlace plain depth).2
    simp only [nestedPlace, ← List.replicate_succ'] at hsize
    rw [Nat.succ_mul]
    omega

/-- The innermost directory, seen from the one that it is in, is no module if it is too deep. -/
theorem not_hasModule_nested {depth : Nat}
    (deep : FileTree.greatestPath < (depth + 1) * name.utf8ByteSize) :
    ¬ (nestedTree plain (depth + 1)).HasModule (List.replicate depth name) name := by
  have tooLong : ¬ Location.Nameable (List.replicate depth name ++ [name]) := by
    intro nameable
    have hfits := nameable.fits
    rw [← List.replicate_succ'] at hfits
    have hsize := utf8ByteSize_path_replicate plain (depth + 1)
    omega
  rintro (package | ⟨file, there⟩)
  · exact tooLong package.nameable
  · obtain ⟨contents, hcontents⟩ := there.there
    have hmem := FileNode.mem_of_get? (get?_nested name depth 1) hcontents
    have nameable := there.nameable
    rw [List.mem_singleton.1 hmem] at nameable
    exact tooLong nameable

theorem resolve_nested (undotted : '.' ∉ name.toList) {depth : Nat}
    (deep : FileTree.greatestPath < (depth + 1) * name.utf8ByteSize) :
    (SearchPath.empty.add (nestedPlace plain depth)).resolve (nestedTree plain (depth + 1)) name =
      none := by
  have h : segments name = [] ++ [name] := segments_eq_singleton undotted
  have solid : "" ∉ segments name := by
    rw [h]
    exact fun hempty => plain.ne_empty (List.mem_singleton.1 hempty).symm
  rw [← Option.not_isSome_iff_eq_none,
    resolve_isSome_iff (List.forall_mem_nil _) plain solid h]
  rintro ⟨e, he, hmodule⟩
  rw [entries_add] at he
  rw [List.mem_singleton.1 he, List.append_nil] at hmodule
  exact not_hasModule_nested plain deep hmodule

end Nested

/-- A name of so many letters. -/
def letters (size : Nat) : String := String.ofList (List.replicate size 'd')

theorem not_mem_letters {c : Char} (hc : c ≠ 'd') (size : Nat) : c ∉ (letters size).toList := by
  rw [letters, String.toList_ofList]
  exact fun hmem => hc (List.eq_of_mem_replicate hmem)

theorem plain_letters (size : Nat) : Plain (letters (size + 1)) := by
  refine plain_of_not_mem (not_mem_letters (by decide) _) ?_ (not_mem_letters (by decide) _)
  simp [letters, List.replicate_succ]

/-! ### Modules that are found -/

/-- A module is found exactly if a directory of the search path has it, and it is taken from the
first such directory. A name without dots stands for an entry of a directory. -/
theorem resolve_first (path : SearchPath) (t : FileTree)
    (oneName : ∀ segment ∈ segments module, '/' ∉ segment.toList) :
    ("" ∈ segments module → path.resolve t module = none) ∧
    ("" ∉ segments module → ∀ front last, segments module = front ++ [last] →
      ((path.resolve t module).isSome = true ↔
        ∃ e ∈ path.entries, t.HasModule (e.val ++ front) last) ∧
      ∀ p, path.resolve t module = some p ↔ ∃ before e after found,
        path.entries = before ++ e :: after ∧
        (∀ other ∈ before, ¬ t.HasModule (other.val ++ front) last) ∧
        t.ModuleAt (e.val ++ front) last found ∧ p = found.path) ∧
    ('.' ∉ module.toList → ∀ p, path.resolve t module = some p →
      ∃ e ∈ path.entries, ∃ entry node, Plain entry ∧ t.get? (e.val ++ [entry]) = some node ∧
        p = Location.path (e.val ++ [entry])) := by
  refine ⟨resolve_of_empty, fun solid front last h => ?segmented, fun undotted p hp => ?single⟩
  case segmented =>
    obtain ⟨hfront, hlast⟩ := plain_of_segments h solid oneName
    exact ⟨resolve_isSome_iff hfront hlast solid h,
      fun p => resolve_eq_some_iff hfront hlast solid h⟩
  case single =>
    have h : segments module = [] ++ [module] := segments_eq_singleton undotted
    have solid : "" ∉ segments module := by
      intro hempty
      rw [resolve_of_empty hempty] at hp
      cases hp
    obtain ⟨hfront, hlast⟩ := plain_of_segments h solid oneName
    obtain ⟨before, e, after, found, hentries, -, hmodule, rfl⟩ :=
      (resolve_eq_some_iff hfront hlast solid h).1 hp
    rw [List.append_nil] at hmodule
    obtain ⟨entry, node, rfl, there, -⟩ := hmodule.eq_concat
    exact ⟨e, hentries ▸ List.mem_append_right before List.mem_cons_self, entry, node,
      FileTree.plain_of_get? there, there, rfl⟩

/-- A tree with a package in one directory and modules of the same name in two. -/
def shelvedCode : FileTree :=
  ⟨.directory [
    ("old", .directory [("pkg", .directory [("base.py", .file ByteArray.empty),
      ("base.b", .file ByteArray.empty)]), ("aux", .directory [])]),
    ("new", .directory [("pkg", .directory [("core", .directory [("main", .directory [])])])])],
    [], rfl, rfl⟩

def oldPlace : Place := ⟨["old"], by decide⟩
def newPlace : Place := ⟨["new"], by decide⟩

def shelvedPath : SearchPath := (SearchPath.empty.add oldPlace).add newPlace

theorem shelved_resolved :
    shelvedPath.entries = [newPlace, oldPlace] ∧
    Location.path ["old", "pkg", "base.b"] = ⟨"/old/pkg/base.b"⟩ ∧
    segments "pkg.base" = ["pkg", "base"] := by
  decide +kernel

/-- The first directory has the package, but not the module. -/
theorem resolve_first_shelved :
    shelvedPath.resolve shelvedCode "pkg.base" = some ⟨"/old/pkg/base.b"⟩ := by
  obtain ⟨entries, hpath, hsegments⟩ := shelved_resolved
  have oneName : ∀ segment ∈ segments "pkg.base", '/' ∉ segment.toList := by
    rw [hsegments]
    exact List.forall_mem_cons.2 ⟨by decide, List.forall_mem_singleton.2 (by decide)⟩
  have notNew : ¬ shelvedCode.HasModule ["new", "pkg"] "base" := by
    rintro (⟨⟨_, ⟨⟩⟩, -⟩ | ⟨file, hstem, ⟨contents, there⟩, -⟩)
    have hpkg : shelvedCode.get? ["new", "pkg"] =
      some (.directory [("core", .directory [("main", .directory [])])]) := rfl
    rw [List.mem_singleton.1 (FileNode.mem_of_get? hpkg there)] at hstem
    exact absurd hstem (by decide)
  have least : ∀ other, shelvedCode.HasModuleFile ["old", "pkg"] "base" other →
      "base.b" ≤ other := by
    rintro other ⟨-, ⟨contents, there⟩, -⟩
    have hpkg : shelvedCode.get? ["old", "pkg"] = some (.directory
      [("base.py", .file ByteArray.empty), ("base.b", .file ByteArray.empty)]) := rfl
    rcases List.mem_cons.1 (FileNode.mem_of_get? hpkg there) with rfl | hmem
    · decide
    · obtain rfl := List.mem_singleton.1 hmem
      exact String.le_refl _
  have found : shelvedCode.ModuleAt ["old", "pkg"] "base" ["old", "pkg", "base.b"] := by
    refine .file (fun package => ?_) ⟨by decide, ⟨_, rfl⟩, ⟨by decide, by decide, by decide⟩⟩ least
    obtain ⟨_, ⟨⟩⟩ := package.there
  rw [← hpath]
  have solid : "" ∉ segments "pkg.base" := by
    rw [hsegments]
    decide
  exact (((resolve_first shelvedPath shelvedCode oneName).2.1 solid ["pkg"] "base"
    hsegments).2 _).2 ⟨[newPlace], oldPlace, [], _, entries,
      List.forall_mem_singleton.2 notNew, found, rfl⟩

def deepCode : FileTree := nestedTree (plain_letters 199) 21

def deepPlace : Place := nestedPlace (plain_letters 199) 20

/-- A directory of the search path has a package that is not found, because the path of the package
is too long. -/
theorem deep_package_not_found :
    segments (letters 200) = [letters 200] ∧ Plain (letters 200) ∧
    deepCode.get? (deepPlace.val ++ [letters 200]) = some (.directory []) ∧
    (SearchPath.empty.add deepPlace).entries = [deepPlace] ∧
    (SearchPath.empty.add deepPlace).resolve deepCode (letters 200) = none := by
  have plain := plain_letters 199
  refine ⟨segments_eq_singleton (not_mem_letters (by decide) _), plain, ?_, ?_,
    resolve_nested plain (not_mem_letters (by decide) _) ?_⟩
  · rw [deepPlace, nestedPlace, ← List.replicate_succ']
    exact get?_nested (letters 200) 21 0
  · rw [entries_add]
    exact if_neg List.not_mem_nil
  · rw [letters, FileTree.utf8ByteSize_replicate rfl, FileTree.greatestPath]
    decide

end SearchPath

end ModelShelf
