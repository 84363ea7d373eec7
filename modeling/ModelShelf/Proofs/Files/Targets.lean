import ModelShelf.Proofs.Files.Contents
import ModelShelf.Proofs.Files.Paths
import ModelShelf.Proofs.Results

/-!
Where paths lead in a tree. A walk goes part by part through directories; a path that ends in a
plain name leads to the entry of that name in the directory that its other parts lead to, and what
is found there is what lies at that place.
-/

namespace ModelShelf

theorem Text.decodeUtf8_toUTF8 (s : String) : decodeUtf8 s.toUTF8 = .ok s := by
  have valid : s.toUTF8.IsValidUTF8 := s.isValidUTF8
  rw [decodeUtf8, String.fromUTF8?, dif_pos valid]
  rfl

open ModelShelf.Path (Plain)

namespace FileTree

variable {t : FileTree}

/-- The directory from which a path is followed. -/
def start (t : FileTree) (p : Path) : Location := if p.isAbsolute then [] else t.current

/-! ### Walks -/

theorem walk_append (l : Location) (parts others : List String) :
    t.walk l (parts ++ others) = t.walk l parts >>= fun next => t.walk next others :=
  List.foldlM_append

theorem walk_cons_eq_ok {l dir : Location} {part : String} {parts : List String} :
    t.walk l (part :: parts) = .ok dir ↔
      ∃ next, step l part = .ok next ∧ (∃ entries, t.get? next = some (.directory entries)) ∧
        t.walk next parts = .ok dir := by
  rw [walk, List.foldlM_cons]
  cases step l part with
  | error fault =>
    constructor
    · intro h
      cases h
    · rintro ⟨_, ⟨⟩, -⟩
  | ok there =>
    simp only [bind, Except.bind]
    cases hthere : t.get? there with
    | none => simp [hthere]
    | some node =>
      cases node with
      | file contents => simp [hthere]
      | directory entries =>
        constructor
        · intro h
          exact ⟨there, rfl, ⟨entries, hthere⟩, h⟩
        · rintro ⟨_, ⟨⟩, -, h⟩
          exact h

/-- A walk of at least one step ends in a directory. -/
theorem directory_of_walk {l dir : Location} {parts : List String} (hne : parts ≠ [])
    (h : t.walk l parts = .ok dir) : ∃ entries, t.get? dir = some (.directory entries) := by
  induction parts generalizing l with
  | nil => contradiction
  | cons part parts ih =>
    obtain ⟨next, -, there, h⟩ := walk_cons_eq_ok.1 h
    cases parts with
    | nil =>
      obtain rfl := Except.ok.inj h
      exact there
    | cons => exact ih (List.cons_ne_nil _ _) h

/-! ### Targets -/

/-- Where a path leads that is well-formed. -/
def aim (t : FileTree) (p : Path) : Except FileFault Target := do
  let wantsDirectory := p.text.toList.getLast? = some '/'
  match p.words.getLast? with
  | none => return ⟨t.start p, wantsDirectory, false⟩
  | some last =>
    if last = "." || last = ".." then
      return ⟨← t.walk (t.start p) p.words, wantsDirectory, false⟩
    else
      let directory ← t.walk (t.start p) p.words.dropLast
      return ⟨← step directory last, wantsDirectory, true⟩

theorem target_eq_aim (t : FileTree) (p : Path) :
    t.target p =
      if p.text.isEmpty then .error .noEntry
      else if p.text.toList.contains '\x00' then .error .invalidInput
      else if greatestPath < p.text.utf8ByteSize then .error .nameTooLong
      else t.aim p := rfl

theorem aim_of_target {p : Path} {g : Target} (h : t.target p = .ok g) : t.aim p = .ok g := by
  rw [target_eq_aim] at h
  split at h
  · cases h
  · split at h
    · cases h
    · split at h
      · cases h
      · exact h

/-- Whether a directory is wanted goes by the end of the path. -/
theorem wantsDirectory_of_target {p : Path} {g : Target} (h : t.target p = .ok g) :
    g.wantsDirectory = decide (p.text.toList.getLast? = some '/') := by
  have haim := aim_of_target h
  rw [aim] at haim
  split at haim
  · obtain rfl := Except.ok.inj haim
    rfl
  · split at haim
    · obtain ⟨place, -, haim⟩ := bind_eq_ok.1 haim
      obtain rfl := Except.ok.inj haim
      rfl
    · obtain ⟨directory, -, haim⟩ := bind_eq_ok.1 haim
      obtain ⟨place, -, haim⟩ := bind_eq_ok.1 haim
      obtain rfl := Except.ok.inj haim
      rfl

theorem step_eq_ok {l next : Location} {name : String} (plain : Plain name) :
    step l name = .ok next ↔ name.utf8ByteSize ≤ greatestName ∧ next = l ++ [name] := by
  rw [step, if_neg (by simp [plain.solid]), if_neg plain.notParent]
  split
  · rename_i hlong
    constructor
    · intro h
      cases h
    · rintro ⟨hshort, -⟩
      omega
  · rename_i hshort
    constructor
    · intro h
      exact ⟨by omega, (Except.ok.inj h).symm⟩
    · rintro ⟨-, rfl⟩
      rfl

/-- A path that ends in a plain word leads to the entry of that name in the directory that its other
words lead to. -/
theorem aim_eq_ok {p : Path} {front : List String} {name : String} (plain : Plain name)
    (hwords : p.words = front ++ [name]) {g : Target} :
    t.aim p = .ok g ↔ ∃ dir, t.walk (t.start p) front = .ok dir ∧
      name.utf8ByteSize ≤ greatestName ∧
      g = ⟨dir ++ [name], p.text.toList.getLast? = some '/', true⟩ := by
  rw [aim, hwords, List.getLast?_concat, List.dropLast_concat]
  simp only [plain.ne_dot, plain.notParent, decide_false, Bool.or_self, Bool.false_eq_true,
    ↓reduceIte]
  constructor
  · intro h
    obtain ⟨dir, hdir, h⟩ := bind_eq_ok.1 h
    obtain ⟨place, hplace, h⟩ := bind_eq_ok.1 h
    obtain ⟨hsize, rfl⟩ := (step_eq_ok plain).1 hplace
    exact ⟨dir, hdir, hsize, (Except.ok.inj h).symm⟩
  · rintro ⟨dir, hdir, hsize, rfl⟩
    exact bind_eq_ok.2 ⟨dir, hdir, bind_eq_ok.2 ⟨_, (step_eq_ok plain).2 ⟨hsize, rfl⟩, rfl⟩⟩

/-- A path that ends in a plain name leads to the entry of that name. -/
theorem place_of_plain {p : Path} {before : List String} {name : String} (plain : Plain name)
    (h : p.parts = before ++ [name]) {g : Target} (hg : t.target p = .ok g) :
    ∃ dir, t.walk (t.start p) (before.filter fun part => part ≠ "") = .ok dir ∧
      g.place = dir ++ [name] := by
  have words : p.words = (before.filter fun part => part ≠ "") ++ [name] := by
    rw [Path.words, h, List.filter_append, List.filter_cons_of_pos (by simpa using plain.ne_empty),
      List.filter_nil]
  obtain ⟨dir, hdir, -, rfl⟩ := (aim_eq_ok plain words).1 (aim_of_target hg)
  exact ⟨dir, hdir, rfl⟩

theorem place_of_walk {q : Path} {dir : Location} (h : t.walk (t.start q) q.words = .ok dir) :
    ∃ g, t.aim q = .ok g ∧ g.place = dir := by
  rw [aim]
  cases hlast : q.words.getLast? with
  | none =>
    rw [List.getLast?_eq_none_iff.1 hlast] at h
    exact ⟨_, rfl, Except.ok.inj h⟩
  | some last =>
    simp only
    split
    · rw [h]
      exact ⟨_, rfl, rfl⟩
    · obtain ⟨front, hwords⟩ := List.getLast?_eq_some_iff.1 hlast
      rw [hwords, walk_append] at h
      obtain ⟨directory, hdirectory, h⟩ := bind_eq_ok.1 h
      obtain ⟨next, hstep, -, h⟩ := walk_cons_eq_ok.1 h
      obtain rfl := Except.ok.inj h
      rw [hwords, List.dropLast_concat, hdirectory]
      simp only [bind, Except.bind, hstep]
      exact ⟨_, rfl, rfl⟩

/-! ### What is there -/

theorem find_eq_ok {p : Path} {l : Location} {node : FileNode} (h : t.find p = .ok (l, node)) :
    ∃ g, t.target p = .ok g ∧ g.place = l ∧ t.get? l = some node := by
  obtain ⟨g, htarget, h⟩ := bind_eq_ok.1 h
  split at h
  · cases h
  · rename_i node' hnode
    split at h
    · cases h
    · obtain ⟨rfl, rfl⟩ := Prod.mk.inj (Except.ok.inj h)
      exact ⟨g, htarget, rfl, hnode⟩

/-- The path of a directory is walked to its end. -/
theorem walk_of_find {p : Path} {l : Location} {entries : List (String × FileNode)}
    (h : t.find p = .ok (l, .directory entries)) : t.walk (t.start p) p.words = .ok l := by
  obtain ⟨g, htarget, rfl, there⟩ := find_eq_ok h
  have haim := aim_of_target htarget
  rw [aim] at haim
  cases hlast : p.words.getLast? with
  | none =>
    rw [hlast] at haim
    obtain rfl := Except.ok.inj haim
    rw [List.getLast?_eq_none_iff.1 hlast]
    rfl
  | some last =>
    rw [hlast] at haim
    simp only at haim
    split at haim
    · obtain ⟨place, hwalk, haim⟩ := bind_eq_ok.1 haim
      obtain rfl := Except.ok.inj haim
      exact hwalk
    · obtain ⟨directory, hwalk, haim⟩ := bind_eq_ok.1 haim
      obtain ⟨place, hstep, haim⟩ := bind_eq_ok.1 haim
      obtain rfl := Except.ok.inj haim
      obtain ⟨front, hwords⟩ := List.getLast?_eq_some_iff.1 hlast
      rw [hwords, List.dropLast_concat] at hwalk
      rw [hwords, walk_append, hwalk]
      exact walk_cons_eq_ok.2 ⟨place, hstep, ⟨entries, there⟩, rfl⟩

theorem find_of_directory {p : Path} {g : Target} {entries : List (String × FileNode)}
    (hg : t.target p = .ok g) (there : t.get? g.place = some (.directory entries)) :
    t.find p = .ok (g.place, .directory entries) := by
  rw [find, hg]
  simp only [bind, Except.bind, there, FileNode.isDirectory, Bool.not_true, Bool.and_false]
  rfl

theorem find_of_target {p : Path} {g : Target} {node : FileNode} (hg : t.target p = .ok g)
    (notDirectory : g.wantsDirectory = false) (hnode : t.get? g.place = some node) :
    t.find p = .ok (g.place, node) := by
  rw [find, hg]
  simp only [bind, Except.bind, hnode, notDirectory]
  rfl

theorem read_eq_ok {p : Path} {bytes : ByteArray} (h : t.read p = .ok bytes) :
    ∃ g, t.target p = .ok g ∧ t.file? g.place = some bytes := by
  obtain ⟨⟨l, node⟩, hfind, h⟩ := bind_eq_ok.1 h
  obtain ⟨g, htarget, rfl, hnode⟩ := find_eq_ok hfind
  cases node with
  | directory => cases h
  | file contents =>
    obtain rfl := Except.ok.inj h
    exact ⟨g, htarget, file?_eq_some.2 hnode⟩

theorem read_of_file {p : Path} {g : Target} {bytes : ByteArray}
    (hg : t.target p = .ok g) (notDirectory : g.wantsDirectory = false)
    (hfile : t.file? g.place = some bytes) : t.read p = .ok bytes := by
  rw [read, find_of_target hg notDirectory (file?_eq_some.1 hfile)]
  rfl

theorem wantsDirectory_of_read {p : Path} {g : Target} {bytes : ByteArray}
    (h : t.read p = .ok bytes) (hg : t.target p = .ok g) : g.wantsDirectory = false := by
  obtain ⟨⟨l, node⟩, hfind, h⟩ := bind_eq_ok.1 h
  cases node with
  | directory => cases h
  | file contents =>
    rw [find, hg] at hfind
    simp only [bind, Except.bind] at hfind
    split at hfind
    · cases hfind
    · split at hfind
      · cases hfind
      · rename_i hwants
        obtain ⟨-, rfl⟩ := Prod.mk.inj (Except.ok.inj hfind)
        simpa [FileNode.isDirectory] using hwants

/-- A file that holds a text is read as the text. -/
theorem readText_of_text {p : Path} {text : String} (h : t.read p = .ok text.toUTF8) :
    t.readText p = .ok text := by
  rw [readText, h]
  simp only [bind, Except.bind, Text.decodeUtf8_toUTF8]
  rfl

end FileTree

end ModelShelf
