import ModelShelf.Files.Tree

/-!
What stays as it was when the contents of a file are replaced: every other file, the names in every
directory, and so where each path leads. Trees that differ in the contents of some files only are
alike in everything that does not read these files.
-/

namespace ModelShelf

namespace FileNode

theorem lookup_putEntry (name other : String) (new : FileNode)
    (entries : List (String × FileNode)) :
    (putEntry name new entries).lookup other =
      if other = name then some new else entries.lookup other := by
  induction entries with
  | nil => rw [putEntry, lookup_cons_eq_ite]
  | cons first rest ih =>
    obtain ⟨n, node⟩ := first
    rw [putEntry]
    split
    · rename_i heq
      rw [lookup_cons_eq_ite, lookup_cons_eq_ite, heq]
      split <;> rfl
    · rename_i hne
      rw [lookup_cons_eq_ite, lookup_cons_eq_ite, ih]
      split
      · rename_i heq
        rw [if_neg fun h => hne (heq ▸ h)]
      · rfl

theorem names_putEntry {name : String} {old : FileNode} {entries : List (String × FileNode)}
    (h : entries.lookup name = some old) (new : FileNode) :
    (putEntry name new entries).map Prod.fst = entries.map Prod.fst := by
  induction entries with
  | nil => cases h
  | cons first rest ih =>
    obtain ⟨n, node⟩ := first
    rw [putEntry]
    split
    · rfl
    · rename_i hne
      rw [lookup_cons_eq_ite, if_neg fun h => hne h.symm] at h
      rw [List.map_cons, List.map_cons, ih h]

theorem get?_put_self {node : FileNode} {l : Location} {old : FileNode} (h : node.get? l = some old)
    (new : FileNode) : (node.put l new).get? l = some new := by
  induction l generalizing node with
  | nil => rw [put_nil, get?]
  | cons name rest ih =>
    rw [get?_cons] at h
    obtain ⟨below, hchild, hbelow⟩ := Option.bind_eq_some_iff.1 h
    cases node with
    | file => cases hchild
    | directory entries =>
      rw [put_cons hchild, get?_cons, child?, lookup_putEntry, if_pos rfl]
      exact ih hbelow

/-- What lies at a place in two trees looks the same: nothing, a file, which may have other contents
only if that is said, or a directory with the same names. -/
inductive Alike (changed : Prop) : Option FileNode → Option FileNode → Prop
  | none : Alike changed none none
  | file {old new : ByteArray} (contents : changed ∨ new = old) :
      Alike changed (some (.file old)) (some (.file new))
  | directory {entries entries' : List (String × FileNode)}
      (names : entries'.map Prod.fst = entries.map Prod.fst) :
      Alike changed (some (.directory entries)) (some (.directory entries'))

namespace Alike

variable {changed changed' : Prop} {a b c : Option FileNode}

theorem refl (changed : Prop) (a : Option FileNode) : Alike changed a a := by
  match a with
  | .none => exact .none
  | some (.file _) => exact .file (.inr rfl)
  | some (.directory _) => exact .directory rfl

theorem mono (h : Alike changed a b) (himp : changed → changed') : Alike changed' a b := by
  cases h with
  | none => exact .none
  | file contents => exact .file (contents.imp_left himp)
  | directory names => exact .directory names

theorem trans (h : Alike changed a b) (h' : Alike changed b c) : Alike changed a c := by
  cases h with
  | none => exact h'
  | file contents =>
    cases h' with
    | file contents' =>
      refine .file ?_
      rcases contents' with changed | rfl
      · exact .inl changed
      · exact contents
  | directory names =>
    cases h' with
    | directory names' => exact .directory (names'.trans names)

end Alike

theorem Alike.isDirectory_eq {changed : Prop} {node node' : FileNode}
    (h : Alike changed (some node) (some node')) : node'.isDirectory = node.isDirectory := by
  cases h <;> rfl

/-- After the contents of a file are replaced, all else looks as it did. -/
theorem alike_get?_put {node : FileNode} {l : Location} {old : ByteArray}
    (h : node.get? l = some (.file old)) (new : ByteArray) (other : Location) :
    Alike (other = l) (node.get? other) ((node.put l (.file new)).get? other) := by
  induction l generalizing node other with
  | nil =>
    obtain rfl := Option.some.inj h
    cases other with
    | nil => exact .file (.inl rfl)
    | cons => exact .none
  | cons name rest ih =>
    rw [get?_cons] at h
    obtain ⟨below, hchild, hbelow⟩ := Option.bind_eq_some_iff.1 h
    cases node with
    | file => cases hchild
    | directory entries =>
      rw [put_cons hchild]
      cases other with
      | nil => exact .directory (names_putEntry hchild _)
      | cons x xs =>
        rw [get?_cons, get?_cons, child?, child?, lookup_putEntry]
        by_cases hx : x = name
        · subst hx
          have hlookup : entries.lookup x = some below := hchild
          rw [if_pos rfl, hlookup]
          exact (ih hbelow xs).mono fun heq => heq ▸ rfl
        · rw [if_neg hx]
          exact .refl _ _

end FileNode

namespace FileTree

open ModelShelf.Path (Plain)

variable {changed changed' : Location → Prop} {t t' t'' : FileTree}

/-- Trees that are seen from the same place and look the same everywhere, up to the contents of the
files for which it is said. -/
structure SameBut (changed : Location → Prop) (t t' : FileTree) : Prop where
  current : t'.current = t.current
  nodes : ∀ l, FileNode.Alike (changed l) (t.get? l) (t'.get? l)

theorem file?_eq_some {l : Location} {contents : ByteArray} :
    t.file? l = some contents ↔ t.get? l = some (.file contents) := by
  rw [file?]
  split
  · rename_i h
    rw [h]
    simp
  · rename_i h
    exact ⟨nofun, fun hfile => absurd hfile (h contents)⟩

/-! ### Nodes that are put into a tree -/

theorem current_put (t : FileTree) (l : Location) (node : FileNode) :
    (t.put l node).current = t.current := by
  rw [put]
  split <;> rfl

theorem put_of_admits {l : Location} {node : FileNode} (h : t.Admits l node) :
    (t.put l node).root = t.root.put l node := by
  rw [put, dif_pos h]

theorem get?_put {l : Location} {node : FileNode} (h : t.Admits l node) (other : Location) :
    (t.put l node).get? other = (t.root.put l node).get? other := by
  rw [get?, put_of_admits h]

theorem put_of_not_admits {l : Location} {node : FileNode} (h : ¬ t.Admits l node) :
    t.put l node = t := by
  rw [put, dif_neg h]

/-- The directory that a tree is seen from is there. -/
theorem stands (t : FileTree) : ∃ entries, t.get? t.current = some (.directory entries) :=
  FileNode.any_isDirectory_iff.1 t.here

/-- What lies in a directory has the name of an entry. -/
theorem plain_of_get? {dir : Location} {name : String} {node : FileNode}
    (there : t.get? (dir ++ [name]) = some node) : Plain name :=
  FileNode.plainNames_of_get? t.names there name (List.mem_append_right dir List.mem_cons_self)

/-- A file can always be replaced by another one. -/
theorem admits_file {l : Location} {old : ByteArray} (h : t.file? l = some old) (new : ByteArray) :
    t.Admits l (.file new) where
  names := rfl
  last name hname := by
    obtain ⟨dir, rfl⟩ := List.getLast?_eq_some_iff.1 hname
    exact plain_of_get? (file?_eq_some.1 h)
  here := by
    obtain ⟨entries, there⟩ := t.stands
    have alike := FileNode.alike_get?_put (file?_eq_some.1 h) new t.current
    rw [show t.root.get? t.current = some (.directory entries) from there] at alike
    generalize (t.root.put l (.file new)).get? t.current = found at alike ⊢
    cases alike
    rfl

/-- The contents of a file are replaced, and nothing else changes. -/
theorem sameBut_put {l : Location} {old : ByteArray} (h : t.file? l = some old) (new : ByteArray) :
    SameBut (· = l) t (t.put l (.file new)) where
  current := current_put t l _
  nodes other := by
    rw [get?_put (admits_file h new)]
    exact FileNode.alike_get?_put (file?_eq_some.1 h) new other

theorem file?_put_self {l : Location} {old : ByteArray} (h : t.file? l = some old)
    (new : ByteArray) : (t.put l (.file new)).file? l = some new := by
  rw [file?_eq_some, get?_put (admits_file h new)]
  exact FileNode.get?_put_self (file?_eq_some.1 h) _

namespace SameBut

theorem refl (changed : Location → Prop) (t : FileTree) : SameBut changed t t :=
  ⟨rfl, fun l => .refl (changed l) (t.get? l)⟩

theorem mono (h : SameBut changed t t') (himp : ∀ l, changed l → changed' l) :
    SameBut changed' t t' :=
  ⟨h.current, fun l => (h.nodes l).mono (himp l)⟩

theorem trans (h : SameBut changed t t') (h' : SameBut changed t' t'') : SameBut changed t t'' :=
  ⟨h'.current.trans h.current, fun l => (h.nodes l).trans (h'.nodes l)⟩

theorem file?_eq (h : SameBut changed t t') {l : Location} (kept : ¬ changed l) :
    t'.file? l = t.file? l := by
  rw [file?, file?]
  have hl := h.nodes l
  generalize t.get? l = a, t'.get? l = b at hl
  cases hl with
  | none => rfl
  | file contents => rw [contents.resolve_left kept]
  | directory => rfl

/-! ### Where paths lead -/

theorem walk_eq (h : SameBut changed t t') (start : Location) (parts : List String) :
    t'.walk start parts = t.walk start parts := by
  rw [walk, walk]
  congr 1
  funext l part
  cases step l part with
  | error => rfl
  | ok next =>
    simp only [bind, Except.bind]
    have hl := h.nodes next
    generalize t.get? next = a, t'.get? next = b at hl
    cases hl <;> rfl

theorem target_eq (h : SameBut changed t t') (p : Path) : t'.target p = t.target p := by
  simp only [target, h.current, h.walk_eq]

/-- What a path names is alike in both trees, and it is at the same place. -/
theorem find_alike (h : SameBut changed t t') (p : Path) :
    (∃ fault, t.find p = .error fault ∧ t'.find p = .error fault) ∨
    ∃ g node node', t.target p = .ok g ∧ t.find p = .ok (g.place, node) ∧
      t'.find p = .ok (g.place, node') ∧
      FileNode.Alike (changed g.place) (some node) (some node') := by
  simp only [find, h.target_eq]
  cases htarget : t.target p with
  | error fault => exact .inl ⟨fault, rfl, rfl⟩
  | ok g =>
    simp only [bind, Except.bind]
    have hl := h.nodes g.place
    cases hnode : t.get? g.place with
    | none =>
      rw [hnode] at hl
      generalize t'.get? g.place = b at hl
      cases hl
      exact .inl ⟨_, rfl, rfl⟩
    | some node =>
      cases hnode' : t'.get? g.place with
      | none =>
        rw [hnode, hnode'] at hl
        cases hl
      | some node' =>
        rw [hnode, hnode'] at hl
        simp only [hl.isDirectory_eq]
        split
        · exact .inl ⟨_, rfl, rfl⟩
        · exact .inr ⟨_, _, _, rfl, rfl, rfl, hl⟩

theorem isFile_eq (h : SameBut changed t t') (p : Path) : t'.isFile p = t.isFile p := by
  rw [isFile, isFile]
  obtain ⟨fault, hp, hp'⟩ | ⟨g, node, node', -, hp, hp', alike⟩ := h.find_alike p
  · rw [hp, hp']
  · rw [hp, hp']
    cases alike <;> rfl

theorem isDirectory_eq (h : SameBut changed t t') (p : Path) :
    t'.isDirectory p = t.isDirectory p := by
  rw [isDirectory, isDirectory]
  obtain ⟨fault, hp, hp'⟩ | ⟨g, node, node', -, hp, hp', alike⟩ := h.find_alike p
  · rw [hp, hp']
  · rw [hp, hp']
    cases alike <;> rfl

theorem list_eq (h : SameBut changed t t') (p : Path) : t'.list p = t.list p := by
  rw [list, list]
  obtain ⟨fault, hp, hp'⟩ | ⟨g, node, node', -, hp, hp', alike⟩ := h.find_alike p
  · rw [hp, hp']
  · rw [hp, hp']
    cases alike with
    | file => rfl
    | directory names => exact congrArg Except.ok names

theorem exists?_eq (h : SameBut changed t t') (p : Path) : t'.exists? p = t.exists? p := by
  rw [exists?, exists?]
  obtain ⟨fault, hp, hp'⟩ | ⟨g, node, node', -, hp, hp', -⟩ := h.find_alike p
  · rw [hp, hp']
  · rw [hp, hp']
    rfl

/-- A file whose contents are kept is read as before. -/
theorem read_eq (h : SameBut changed t t') {p : Path}
    (kept : ∀ g, t.target p = .ok g → ¬ changed g.place) : t'.read p = t.read p := by
  rw [read, read]
  obtain ⟨fault, hp, hp'⟩ | ⟨g, node, node', hg, hp, hp', alike⟩ := h.find_alike p
  · rw [hp, hp']
  · rw [hp, hp']
    cases alike with
    | file contents => rw [contents.resolve_left (kept g hg)]
    | directory => rfl

theorem readText_eq (h : SameBut changed t t') {p : Path}
    (kept : ∀ g, t.target p = .ok g → ¬ changed g.place) : t'.readText p = t.readText p := by
  rw [readText, readText, h.read_eq kept]

end SameBut

end FileTree

end ModelShelf
