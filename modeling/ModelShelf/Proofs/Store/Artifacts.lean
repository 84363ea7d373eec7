import ModelShelf.Proofs.Files.Spellings
import ModelShelf.Proofs.Store.RunPaths

/-!
Artifacts that are written to a repository and read from it. A path that is absolute or has a parent
component is refused. Any other path leads into the directory of the repository, and what is written
there is read under each spelling of the path that is not too long.
-/

namespace ModelShelf

open Text
open ModelShelf.Path (Plain isIdle)
open ModelShelf.Resolver (succeeds eq_ok_of_succeeds)

variable {t t' : FileTree}

namespace Repository

variable {r : Repository} {relative other : String} {contents : ByteArray}

/-! ### Paths that are accepted -/

theorem isRelative_of_staysInside {p : Path} (h : p.components.all staysInside = true) :
    p.isAbsolute = false := by
  rw [Bool.eq_false_iff]
  intro absolute
  have hroot : Component.root ∈ p.components := by
    rw [Path.components, Path.lead, if_pos absolute]
    exact List.mem_cons_self
  cases List.all_eq_true.1 h _ hroot

theorem path_of_staysInside (h : (Path.mk relative).components.all staysInside = true) :
    r.path relative = .ok (r.root.join relative) := by
  rw [path, if_pos h]

theorem write_of_path {p : Path} (h : r.path relative = .ok p) :
    r.write relative contents t = Change.writeBelow p contents t := by
  rw [write, Change.ofResult_bind, h]

/-- What is asked of a path that leads out of a repository: all operations fail, and the tree is not
touched. -/
structure Refuses (r : Repository) (t : FileTree) (relative : String) : Prop where
  read : ∃ text, r.read t relative = .error (.invalidParameter text)
  holds : ∃ text, r.holds t relative = .error (.invalidParameter text)
  write : ∀ contents, ∃ text,
    r.write relative contents t = .error (.invalidParameter text) t

theorem refuses (r : Repository) (t : FileTree)
    (h : (Path.mk relative).components.all staysInside = false) : r.Refuses t relative := by
  have hpath : ∃ text, r.path relative = .error (.invalidParameter text) := by
    rw [path, h]
    exact ⟨_, rfl⟩
  obtain ⟨text, hpath⟩ := hpath
  refine ⟨⟨text, ?_⟩, ⟨text, ?_⟩, fun contents => ⟨text, ?_⟩⟩
  · rw [read, hpath]
    rfl
  · rw [holds, hpath]
    rfl
  · rw [write, Change.ofResult_bind, hpath]

/-! ### What the operations act on -/

theorem placeOf_inside (r : Repository) (t : FileTree)
    (h : (Path.mk relative).components.all staysInside = true) :
    t.placeOf r.root <+: t.placeOf (r.root.join relative) := by
  rw [FileTree.placeOf_join (isRelative_of_staysInside h)]
  have inside : t.placeOf r.root <+: (t.placeOf r.root ++ []).follow (Path.mk relative).words :=
    Location.prefix_follow (Location.keepsBelow_of_forall (words_of_staysInside h) 0)
  rwa [List.append_nil] at inside

/-- What is asked of a path that leads into a repository, to a place: no operation looks at the
contents of a file elsewhere, and none changes a file elsewhere. -/
structure ActsAt (r : Repository) (t : FileTree) (relative : String) (place : Location) : Prop where
  inside : t.placeOf r.root <+: place
  read : ∀ {contents}, r.read t relative = .ok contents → t.file? place = some contents
  holds : r.holds t relative = .ok true → ∃ node, t.get? place = some node
  elsewhere : ∀ {t'}, FileTree.SameBut (· ≠ place) t t' →
    r.read t' relative = r.read t relative ∧ r.holds t' relative = r.holds t relative
  kept : ∀ contents l, l ≠ place →
    (Change.treeAfter (r.write relative contents) t).file? l = t.file? l

theorem write_grows (h : (Path.mk relative).components.all staysInside = true)
    (contents : ByteArray) (t : FileTree) :
    (∃ e t', r.write relative contents t = .error e t' ∧ FileTree.OnlyDirectories t t') ∨
    ∃ t', r.write relative contents t = .ok () t' ∧
      FileTree.Grows (· = t.placeOf (r.root.join relative)) t t' := by
  rw [write_of_path (path_of_staysInside h)]
  obtain herror | ⟨between, g, grown, hg, notDirectory, hok⟩ :=
    Change.writeBelow_adds (r.root.join relative) contents t
  · exact .inl herror
  · refine .inr ⟨_, hok, (grown.mono fun _ => False.elim).trans ?_⟩
    refine (FileTree.grows_put_file contents notDirectory).mono fun l hl => ?_
    rw [hl, FileTree.place_of_target hg, grown.placeOf_eq]

theorem actsAt (r : Repository) (t : FileTree)
    (h : (Path.mk relative).components.all staysInside = true) :
    r.ActsAt t relative (t.placeOf (r.root.join relative)) := by
  have hpath := path_of_staysInside (r := r) h
  refine ⟨placeOf_inside r t h, ?_, ?_, ?_, ?_⟩
  · intro contents hread
    rw [read, hpath] at hread
    simp only [bind, Except.bind] at hread
    split at hread
    · obtain ⟨g, hg, hfile⟩ := FileTree.read_eq_ok (eq_ok_of_mapError hread)
      rwa [FileTree.place_of_target hg] at hfile
    · cases hread
  · intro hholds
    rw [holds, hpath] at hholds
    have hfind := Except.ok.inj hholds
    rw [FileTree.exists?] at hfind
    cases hfound : t.find (r.root.join relative) with
    | error fault =>
      rw [hfound] at hfind
      cases hfind
    | ok found =>
      obtain ⟨l, node⟩ := found
      obtain ⟨g, hg, rfl, there⟩ := FileTree.find_eq_ok hfound
      rw [FileTree.place_of_target hg] at there
      exact ⟨node, there⟩
  · intro t' same
    have kept : ∀ g, t.target (r.root.join relative) = .ok g →
        ¬ g.place ≠ t.placeOf (r.root.join relative) :=
      fun g hg hne => hne (FileTree.place_of_target hg)
    rw [read, read, holds, holds, hpath]
    simp only [bind, Except.bind, same.isFile_eq, same.read_eq kept, same.exists?_eq, and_self]
  · intro contents l hl
    rw [Change.treeAfter]
    obtain ⟨e, t', herror, grown⟩ | ⟨t', hok, grown⟩ := write_grows (r := r) h contents t
    · rw [herror]
      exact grown.file?_eq not_false
    · rw [hok]
      exact grown.file?_eq hl

/-! ### What is written is read -/

/-- Another spelling of a path: with the same names, but perhaps with more slashes and dots, not at
its end though, and short enough to be a path of the file system. -/
structure Spells (r : Repository) (other relative : String) : Prop where
  inside : (Path.mk other).components.all staysInside = true
  names : (Path.mk other).names = (Path.mk relative).names
  notSlash : other.toList.getLast? ≠ some '/'
  notDot : (Path.mk other).parts.getLast? ≠ some "."
  fits : (r.root.join other).text.utf8ByteSize ≤ FileTree.greatestPath

theorem ne_empty_of_join {p : Path} (h : (p.join relative).text ≠ "")
    (notSlash : (p.join relative).text.toList.getLast? ≠ some '/') : relative ≠ "" := by
  rintro rfl
  have htext : (p.join "").text.toList = p.opening ++ "".toList := Path.toList_join rfl
  rw [String.toList_empty, List.append_nil] at htext
  by_cases hopen : (p.text.isEmpty || p.text.toList.getLast? = some '/') = true
  · rw [Path.opening, if_pos hopen] at htext
    rcases Bool.or_eq_true_iff.1 hopen with hempty | hslash
    · rw [String.isEmpty_iff.1 hempty] at htext
      exact h (String.toList_eq_nil_iff.1 htext)
    · rw [htext] at notSlash
      exact notSlash (of_decide_eq_true hslash)
  · rw [Path.opening, if_neg hopen] at htext
    rw [htext, List.getLast?_concat] at notSlash
    exact notSlash rfl

/-- The last word of a path below a root is one of the path's names. -/
theorem mem_names_of_words (inside : (Path.mk relative).components.all staysInside = true)
    (hne : relative ≠ "") {front : List String} {name : String} (plain : Plain name)
    (hwords : (r.root.join relative).words = front ++ [name]) :
    name ∈ (Path.mk relative).names := by
  have isRelative := isRelative_of_staysInside inside
  rw [(Path.join_of_relative isRelative).1] at hwords
  have hmem := congrArg List.getLast? hwords
  rw [List.getLast?_append_of_ne_nil _ (Path.words_ne_nil (p := ⟨relative⟩) hne isRelative),
    List.getLast?_concat] at hmem
  rw [Path.names_eq (words_of_staysInside inside)]
  exact List.mem_filter.2 ⟨List.mem_of_getLast? hmem, by simp [plain.solid]⟩

/-- What is no mark of a path stands in all spellings of it or in none. -/
theorem mem_of_spells (spells : r.Spells other relative)
    (inside : (Path.mk relative).components.all staysInside = true) {c : Char} (notSlash : c ≠ '/')
    (notDot : c ≠ '.') (h : c ∈ other.toList) : c ∈ relative.toList := by
  obtain ⟨word, hword, hmem⟩ := Path.exists_word_of_mem h notSlash
  have hname : word ∈ (Path.mk relative).names := by
    rw [← spells.names, Path.names_eq (words_of_staysInside spells.inside)]
    refine List.mem_filter.2 ⟨(Path.words_eq _) ▸ hword, ?_⟩
    have notEmpty : word ≠ "" := by
      rintro rfl
      cases hmem
    have notIdle : word ≠ "." := by
      rintro rfl
      exact notDot (List.mem_singleton.1 hmem)
    simp [isIdle, notEmpty, notIdle]
  rw [Path.names_eq (words_of_staysInside inside)] at hname
  have hword' := (List.mem_filter.1 hname).1
  rw [Path.words_eq] at hword'
  exact (Path.sublist_of_mem_wordsOf hword').subset hmem

/-- Where the path of an artifact leads, its other spellings lead too. -/
theorem target_of_spells (spells : r.Spells other relative)
    (inside : (Path.mk relative).components.all staysInside = true) {g : FileTree.Target}
    (hg : t.target (r.root.join relative) = .ok g)
    (notSlash : (r.root.join relative).text.toList.getLast? ≠ some '/')
    {front : List String} {name : String} (plain : Plain name)
    (hwords : (r.root.join relative).words = front ++ [name]) :
    t.target (r.root.join other) = .ok ⟨g.place, false, true⟩ := by
  obtain ⟨hsolid, clean, -, haim⟩ := FileTree.target_eq_ok.1 hg
  have isRelative := isRelative_of_staysInside inside
  have isRelative' := isRelative_of_staysInside spells.inside
  have hlast := mem_names_of_words inside (ne_empty_of_join hsolid notSlash) plain hwords
  have hother : other ≠ "" := by
    rintro rfl
    rw [← spells.names] at hlast
    cases hlast
  -- The other spelling ends in a name too.
  obtain ⟨front', name', hwords', notDot⟩ :=
    Path.exists_last_word (p := ⟨other⟩) isRelative' hother spells.notSlash spells.notDot
  have plain' : Plain name' := by
    have hmem : name' ∈ (Path.mk other).words :=
      hwords' ▸ List.mem_append_right front' List.mem_cons_self
    exact FileTree.plain_of_mem_words hmem notDot (words_of_staysInside spells.inside _ hmem)
  have hjoined : (r.root.join other).words = (r.root.words ++ front') ++ [name'] := by
    rw [(Path.join_of_relative isRelative').1, hwords', List.append_assoc]
  have same : ((r.root.join other).words.filter fun word => !isIdle word) =
      (r.root.join relative).words.filter fun word => !isIdle word := by
    rw [(Path.join_of_relative isRelative').1, (Path.join_of_relative isRelative).1,
      List.filter_append, List.filter_append, ← Path.names_eq (words_of_staysInside inside),
      ← Path.names_eq (words_of_staysInside spells.inside), spells.names]
  have start : t.start (r.root.join other) = t.start (r.root.join relative) := by
    rw [FileTree.start_join isRelative', FileTree.start_join isRelative]
  have haim' := FileTree.aim_of_words start same plain plain' hwords hjoined haim
  obtain ⟨before, hbefore⟩ := r.root.exists_front
  have notSlash' : (r.root.join other).text.toList.getLast? ≠ some '/' := by
    rw [hbefore isRelative', Path.getLast?_toList_append hother]
    exact spells.notSlash
  rw [decide_eq_false notSlash'] at haim'
  refine FileTree.target_eq_ok.2
    ⟨Path.join_ne_empty isRelative' hother, fun hnul => ?_, spells.fits, haim'⟩
  apply clean
  rw [Path.toList_join isRelative'] at hnul
  rw [Path.toList_join isRelative]
  refine List.mem_append.2 ((List.mem_append.1 hnul).imp_right fun hbelow => ?_)
  exact mem_of_spells spells inside (by decide) (by decide) hbelow

theorem read_of_target (inside : (Path.mk other).components.all staysInside = true)
    {g : FileTree.Target} (hg : t.target (r.root.join other) = .ok g)
    (notDirectory : g.wantsDirectory = false) (hfile : t.file? g.place = some contents) :
    r.read t other = .ok contents ∧ r.holds t other = .ok true := by
  have hfind := FileTree.find_of_target hg notDirectory (FileTree.file?_eq_some.1 hfile)
  rw [read, holds, path_of_staysInside inside]
  simp only [bind, Except.bind, FileTree.isFile, FileTree.read, FileTree.exists?, hfind]
  exact ⟨rfl, rfl⟩

/-- What is asked of an artifact that was written: it is read under its path and under all other
spellings of it, and all other files are as they were. -/
structure Stored (r : Repository) (t t' : FileTree) (relative : String) (contents : ByteArray) :
    Prop where
  read : r.read t' relative = .ok contents
  holds : r.holds t' relative = .ok true
  spellings : ∀ {other}, r.Spells other relative → r.read t' other = .ok contents
  kept : ∀ l, l ≠ t.placeOf (r.root.join relative) → t'.file? l = t.file? l

theorem stored_of_write (h : r.write relative contents t = .ok () t') :
    r.Stored t t' relative contents := by
  have inside : (Path.mk relative).components.all staysInside = true := by
    by_contra outside
    obtain ⟨text, herror⟩ := (refuses r t (Bool.eq_false_iff.2 outside)).write contents
    cases herror.symm.trans h
  rw [write_of_path (path_of_staysInside inside)] at h
  obtain ⟨g, front, name, hg, hwords, plain, hfile, grown⟩ := Change.lands_of_writeBelow h
  have notSlash := Change.notSlash_of_writeBelow h
  have notDirectory : g.wantsDirectory = false := by
    rw [FileTree.wantsDirectory_of_target hg]
    exact decide_eq_false notSlash
  obtain ⟨hread, hholds⟩ := read_of_target inside hg notDirectory hfile
  refine ⟨hread, hholds, fun spells => ?_, fun l hl => grown.file?_eq ?_⟩
  · have hg' := target_of_spells spells inside hg notSlash plain hwords
    exact (read_of_target spells.inside hg' rfl hfile).1
  · rwa [FileTree.place_of_target hg, grown.placeOf_eq]

/-- A path that is absolute or has a parent component is refused. Any other path leads to a place in
the repository, and nothing but that place matters to it. An artifact that is written is read under
each spelling of its path, and a write that fails changes no file. -/
theorem artifacts_contained (r : Repository) (relative : String) (t : FileTree) :
    (if (Path.mk relative).components.all staysInside then
      r.ActsAt t relative (t.placeOf (r.root.join relative))
    else r.Refuses t relative) ∧
    ∀ contents, (∀ t', r.write relative contents t = .ok () t' → r.Stored t t' relative contents) ∧
      ∀ e t', r.write relative contents t = .error e t' → ∀ l, t'.file? l = t.file? l := by
  refine ⟨?acts, fun contents => ⟨fun t' => stored_of_write, fun e t' herror l => ?_⟩⟩
  case acts =>
    split
    · rename_i inside
      exact actsAt r t inside
    · rename_i outside
      exact refuses r t (Bool.eq_false_iff.2 outside)
  by_cases inside : (Path.mk relative).components.all staysInside = true
  · obtain ⟨e', t'', herror', grown⟩ | ⟨t'', hok, -⟩ := write_grows (r := r) inside contents t
    · obtain ⟨-, rfl⟩ := EStateM.Result.error.inj (herror'.symm.trans herror)
      exact grown.file?_eq not_false
    · cases hok.symm.trans herror
  · obtain ⟨text, herror'⟩ := (refuses r t (Bool.eq_false_iff.2 inside)).write contents
    obtain ⟨-, rfl⟩ := EStateM.Result.error.inj (herror'.symm.trans herror)
    rfl

/-! ### Spellings that are too long -/

theorem read_of_long (inside : (Path.mk other).components.all staysInside = true)
    (long : FileTree.greatestPath < (r.root.join other).text.utf8ByteSize) :
    ∃ text, r.read t other = .error (.notFound text) := by
  have notFile : t.isFile (r.root.join other) = false := by
    rw [FileTree.isFile]
    split
    · rename_i hfind
      obtain ⟨g, hg, -⟩ := FileTree.find_eq_ok hfind
      obtain ⟨-, -, hshort, -⟩ := FileTree.target_eq_ok.1 hg
      omega
    · rfl
  rw [read, path_of_staysInside inside]
  simp only [bind, Except.bind, notFile]
  exact ⟨_, rfl⟩

/-- Two names with slashes between them. -/
def spread (n : Nat) : String := String.ofList ('a' :: List.replicate n '/' ++ ['/', 'b'])

theorem words_spread (n : Nat) : (Path.mk (spread n)).words = ["a", "b"] := by
  have hfirst : Path.wordsOf ('a' :: List.replicate n '/') = Path.wordsOf ['a'] :=
    Path.wordsOf_append_slashes ['a'] n
  rw [Path.words_eq, spread, String.toList_ofList, Path.wordsOf_append_cons, hfirst]
  decide

theorem spread_staysInside (n : Nat) : (Path.mk (spread n)).components.all staysInside = true := by
  refine staysInside_of_words ?_ ?_
  · rw [Path.isAbsolute, spread, String.toList_ofList]
    rfl
  · rw [words_spread]
    decide

theorem le_utf8ByteSize_spread (p : Path) (n : Nat) :
    n ≤ (p.join (spread n)).text.utf8ByteSize := by
  have hslashes : (List.replicate n '/').Sublist (p.join (spread n)).text.toList := by
    rw [Path.toList_join (isRelative_of_staysInside (spread_staysInside n)), spread,
      String.toList_ofList]
    exact ((((List.Sublist.refl _).cons 'a').trans (List.sublist_append_left _ _)).trans
      (List.sublist_append_right _ _))
  have hle := FileTree.utf8ByteSize_le_of_sublist hslashes
  rwa [FileTree.utf8ByteSize_replicate rfl, String.ofList_toList] at hle

def shelf : Repository := ⟨⟨"repo"⟩⟩

def shelfTree : FileTree := ⟨.directory [("repo", .directory [])], [], rfl, rfl⟩

theorem shelf_writes :
    succeeds (shelf.write "a/b" "x".toUTF8 shelfTree) (fun _ _ => true) = true := by
  decide +kernel

theorem artifacts_contained_shelf : ∃ t', shelf.write "a/b" "x".toUTF8 shelfTree = .ok () t' ∧
    shelf.Stored shelfTree t' "a/b" "x".toUTF8 := by
  obtain ⟨_, t', hok, -⟩ := eq_ok_of_succeeds shelf_writes
  exact ⟨t', hok, ((artifacts_contained shelf "a/b" shelfTree).2 _).1 t' hok⟩

/-- A path with so many slashes that it is too long spells a file that was written, and is not
found; and an absolute path of the same names is refused. -/
theorem spread_not_read : ∃ t', shelf.write "a/b" "x".toUTF8 shelfTree = .ok () t' ∧
    (Path.mk (spread 5000)).components.all staysInside = true ∧
    (Path.mk (spread 5000)).names = (Path.mk "a/b").names ∧
    (spread 5000).toList.getLast? = some 'b' ∧
    (∃ text, shelf.read t' (spread 5000) = .error (.notFound text)) ∧
    (Path.mk "/a/b").names = (Path.mk "a/b").names ∧
    ∃ text, shelf.read t' "/a/b" = .error (.invalidParameter text) := by
  obtain ⟨_, t', hok, -⟩ := eq_ok_of_succeeds shelf_writes
  have inside := spread_staysInside 5000
  refine ⟨t', hok, inside, ?_, ?_, ?_, by decide, (refuses shelf t' (by decide)).read⟩
  · rw [Path.names_eq (words_of_staysInside inside), words_spread]
    decide
  · rw [spread, String.toList_ofList, List.getLast?_append]
    rfl
  · refine read_of_long inside ?_
    have hsize := le_utf8ByteSize_spread shelf.root 5000
    rw [FileTree.greatestPath]
    omega

end Repository

end ModelShelf
