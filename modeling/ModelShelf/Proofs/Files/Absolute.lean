import ModelShelf.Proofs.Files.Spellings

/-!
The absolute paths of places. The path of a place is made up of the names that lead to it, and it
leads back to the place, unless the file system does not take a path like this one.
-/

namespace ModelShelf

open ModelShelf.Path (Plain)

namespace Path

theorem toList_ofParts_concat (name : String) {parts : List String} (hne : parts ≠ []) :
    (ofParts (parts ++ [name])).toList = (ofParts parts).toList ++ '/' :: name.toList := by
  induction parts with
  | nil => contradiction
  | cons first rest ih =>
    cases rest with
    | nil =>
      rw [List.singleton_append, toList_ofParts]
      simp [ofParts]
    | cons next rest =>
      have hrest := ih (List.cons_ne_nil next rest)
      rw [List.cons_append] at hrest
      rw [List.cons_append, List.cons_append, toList_ofParts, hrest, toList_ofParts]
      simp

end Path

namespace Location

variable {l : Location} {name : String}

theorem HasPlainNames.append {below : Location} (h : l.HasPlainNames)
    (hbelow : below.HasPlainNames) : Location.HasPlainNames (l ++ below) := by
  intro name hname
  rcases List.mem_append.1 hname with hname | hname
  · exact h name hname
  · exact hbelow name hname

theorem hasPlainNames_singleton (plain : Plain name) : Location.HasPlainNames [name] :=
  List.forall_mem_singleton.2 plain

theorem path_ne_empty (l : Location) : l.path.text ≠ "" := by
  simp [path]

/-- The path of an entry is the path of its directory with the name of the entry put below it. -/
theorem path_concat (plain : Plain name) (h : l.HasPlainNames) :
    Location.path (l ++ [name]) = l.path.join name := by
  have htext : (Location.path (l ++ [name])).text.toList = (l.path.join name).text.toList := by
    rw [Path.toList_join plain.isRelative]
    rcases List.eq_nil_or_concat l with rfl | ⟨front, last, hl⟩
    · rw [Path.opening_of_slash (by simp [path, Path.ofParts])]
      simp [path, Path.ofParts]
    · rw [List.concat_eq_append] at hl
      have hne : l ≠ [] := by simp [hl]
      have hlast : Plain last := h last (by simp [hl])
      have notSlash : l.path.text.toList.getLast? ≠ some '/' := by
        have hend : ∃ before, l.path.text = before ++ last := by
          cases hfront : front with
          | nil => exact ⟨"/", by simp [path, hl, hfront, Path.ofParts]⟩
          | cons first rest =>
            refine ⟨"/" ++ Path.ofParts front ++ "/", ?_⟩
            rw [path, hl, ← String.toList_inj, String.toList_append,
              Path.toList_ofParts_concat last (by simp [hfront])]
            simp
        obtain ⟨before, hbefore⟩ := hend
        rw [hbefore, Path.getLast?_toList_append hlast.ne_empty]
        exact fun heq => hlast.oneName (List.mem_of_getLast? heq)
      rw [Path.opening_of_solid (path_ne_empty l) notSlash, path, path, String.toList_append,
        Path.toList_ofParts_concat name hne]
      simp
  have text := String.toList_inj.1 htext
  rw [← Path.mk.injEq] at text
  exact text

theorem words_path (h : l.HasPlainNames) : l.path.isAbsolute = true ∧ l.path.words = l := by
  obtain ⟨absolute, hwords⟩ := Path.words_root fun part hpart => (h part hpart).oneName
  refine ⟨absolute, ?_⟩
  rw [path, hwords, List.filter_eq_self]
  intro name hname
  simpa using (h name hname).ne_empty

theorem start_path (h : l.HasPlainNames) (t : FileTree) : t.start l.path = [] := by
  rw [FileTree.start, if_pos (words_path h).1]

/-- The text of the path of a place tells the place. -/
theorem placeOf_path (h : l.HasPlainNames) (t : FileTree) : t.placeOf l.path = l := by
  rw [FileTree.placeOf_eq, start_path h, (words_path h).2, follow_all_plain h, List.nil_append]

/-- A place whose path the file system takes: neither its names nor the path as a whole are too
long, and there is no NUL in it. -/
structure Nameable (l : Location) : Prop where
  names : ∀ name ∈ l, name.utf8ByteSize ≤ FileTree.greatestName
  clean : '\x00' ∉ l.path.text.toList
  fits : l.path.text.utf8ByteSize ≤ FileTree.greatestPath

/-- What lies above a place with a path has a path too. -/
theorem Nameable.above (nameable : Location.Nameable (l ++ [name])) (plain : Plain name)
    (h : l.HasPlainNames) : l.Nameable := by
  have front := Path.isPrefix_join (p := l.path) plain.isRelative
  rw [← path_concat plain h] at front
  refine ⟨fun other hother => nameable.names other (List.mem_append_left _ hother),
    fun hnul => nameable.clean (front.subset hnul), ?_⟩
  have hsize := FileTree.utf8ByteSize_le_of_sublist front.sublist
  rw [String.ofList_toList, String.ofList_toList] at hsize
  exact Nat.le_trans hsize nameable.fits

/-- The path of an entry is longer than its name and the path of its directory. -/
theorem utf8ByteSize_path_concat (plain : Plain name) (h : l.HasPlainNames) :
    l.path.text.utf8ByteSize + name.utf8ByteSize ≤
      (Location.path (l ++ [name])).text.utf8ByteSize := by
  have hsize := FileTree.utf8ByteSize_le_of_sublist
    ((Path.isPrefix_opening l.path).sublist.append (List.Sublist.refl name.toList))
  rwa [← Path.toList_join plain.isRelative, String.ofList_toList, String.ofList_append,
    String.utf8ByteSize_append, String.ofList_toList, String.ofList_toList,
    ← path_concat plain h] at hsize

end Location

namespace FileTree

variable {t : FileTree} {l : Location} {name : String} {node : FileNode}

/-- The path of a place where something is leads there. -/
theorem target_path (h : l.HasPlainNames) (nameable : l.Nameable) (there : t.get? l = some node) :
    ∃ g, t.target l.path = .ok g ∧ g.place = l := by
  have haim : ∃ g, t.aim l.path = .ok g ∧ g.place = l := by
    obtain ⟨-, hwords⟩ := Location.words_path h
    rcases List.eq_nil_or_concat l with rfl | ⟨front, last, hl⟩
    · rw [aim, hwords]
      exact ⟨_, rfl, Location.start_path h t⟩
    · rw [List.concat_eq_append] at hl
      subst hl
      have hfront : Location.HasPlainNames front := fun name hname =>
        h name (List.mem_append_left _ hname)
      have hlast : last ∈ front ++ [last] := List.mem_append_right front List.mem_cons_self
      have hwalk : t.walk [] front = .ok ([] ++ front) :=
        walk_of_names hfront (fun name hname => nameable.names name (List.mem_append_left _ hname))
          there
      refine ⟨_, (aim_eq_ok (h last hlast) hwords).2
        ⟨front, ?_, nameable.names last hlast, rfl⟩, rfl⟩
      rwa [Location.start_path h]
  obtain ⟨g, hg, hplace⟩ := haim
  exact ⟨g, target_eq_ok.2 ⟨Location.path_ne_empty l, nameable.clean, nameable.fits, hg⟩, hplace⟩

/-- A path that leads somewhere is one that the file system takes. -/
theorem nameable_of_target {g : Target} (h : l.HasPlainNames) (hg : t.target l.path = .ok g) :
    l.Nameable := by
  obtain ⟨-, clean, fits, haim⟩ := target_eq_ok.1 hg
  refine ⟨fun name hname => ?_, clean, fits⟩
  obtain ⟨-, hwords⟩ := Location.words_path h
  rcases List.eq_nil_or_concat l with rfl | ⟨front, last, hl⟩
  · cases hname
  · rw [List.concat_eq_append] at hl
    subst hl
    have hlast : Plain last := h last (List.mem_append_right front List.mem_cons_self)
    obtain ⟨dir, hwalk, hsize, -⟩ := (aim_eq_ok hlast hwords).1 haim
    rcases List.mem_append.1 hname with hfront | hend
    · exact size_of_walk hwalk hfront (h name hname)
    · rwa [List.mem_singleton.1 hend]

/-- What the path of an entry names is what lies at the place of the entry. -/
theorem find_path_concat (plain : Plain name) (h : l.HasPlainNames) {place : Location} :
    t.find (Location.path (l ++ [name])) = .ok (place, node) ↔
      place = l ++ [name] ∧ t.get? (l ++ [name]) = some node ∧
        Location.Nameable (l ++ [name]) := by
  have hnames := h.append (Location.hasPlainNames_singleton plain)
  constructor
  · intro hfind
    obtain ⟨g, hg, rfl, there⟩ := find_eq_ok hfind
    have hplace := place_of_target hg
    rw [Location.placeOf_path hnames] at hplace
    exact ⟨hplace, hplace ▸ there, nameable_of_target hnames hg⟩
  · rintro ⟨rfl, there, nameable⟩
    obtain ⟨g, hg, hplace⟩ := target_path hnames nameable there
    have notDirectory : g.wantsDirectory = false := by
      rw [wantsDirectory_of_target hg, Location.path_concat plain h]
      exact decide_eq_false (Path.getLast?_join plain _)
    have hfind := find_of_target hg notDirectory (hplace.symm ▸ there)
    rwa [hplace] at hfind

theorem isDirectory_path_concat (plain : Plain name) (h : l.HasPlainNames) :
    t.isDirectory (Location.path (l ++ [name])) = true ↔
      (∃ entries, t.get? (l ++ [name]) = some (.directory entries)) ∧
        Location.Nameable (l ++ [name]) := by
  rw [isDirectory]
  constructor
  · intro there
    split at there
    · rename_i place entries hfind
      obtain ⟨-, hget, nameable⟩ := (find_path_concat plain h).1 hfind
      exact ⟨⟨entries, hget⟩, nameable⟩
    · cases there
  · rintro ⟨⟨entries, hget⟩, nameable⟩
    rw [(find_path_concat plain h).2 ⟨rfl, hget, nameable⟩]

theorem isFile_path_concat (plain : Plain name) (h : l.HasPlainNames) :
    t.isFile (Location.path (l ++ [name])) = true ↔
      (∃ contents, t.get? (l ++ [name]) = some (.file contents)) ∧
        Location.Nameable (l ++ [name]) := by
  rw [isFile]
  constructor
  · intro there
    split at there
    · rename_i place contents hfind
      obtain ⟨-, hget, nameable⟩ := (find_path_concat plain h).1 hfind
      exact ⟨⟨contents, hget⟩, nameable⟩
    · cases there
  · rintro ⟨⟨contents, hget⟩, nameable⟩
    rw [(find_path_concat plain h).2 ⟨rfl, hget, nameable⟩]

/-- A directory lists the names of what lies in it. -/
theorem list_path_of_get? (plain : Plain name) (h : l.HasPlainNames)
    (nameable : Location.Nameable (l ++ [name])) (there : t.get? (l ++ [name]) = some node) :
    ∃ names, t.list l.path = .ok names ∧ name ∈ names := by
  obtain ⟨entries, hdir⟩ := FileNode.directory_of_get?_append there
  obtain ⟨g, hg, hplace⟩ := target_path h (nameable.above plain h) hdir
  have hdir' : t.get? g.place = some (.directory entries) := hplace ▸ hdir
  refine ⟨entries.map Prod.fst, ?_, FileNode.mem_of_get? hdir there⟩
  rw [list, find_of_directory hg hdir']
  rfl

end FileTree

end ModelShelf
