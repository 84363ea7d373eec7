import ModelShelf.Files.Change
import ModelShelf.Proofs.Files.Places

/-!
Trees that grow. Creating directories and writing a file takes nothing away: directories keep their
entries in order and may have more behind them, files keep their contents unless it is said that
they may change, and every path that leads somewhere still leads there.
-/

namespace ModelShelf

open ModelShelf.Path (Plain isIdle)

namespace FileNode

/-- What lies at a place after a tree has grown: what was there, where a directory may have more
entries, or something new, which is a file only if that is said. -/
inductive Grown (changed : Prop) : Option FileNode → Option FileNode → Prop
  | absent : Grown changed none none
  | newDirectory {entries : List (String × FileNode)} :
      Grown changed none (some (.directory entries))
  | newFile {contents : ByteArray} (allowed : changed) : Grown changed none (some (.file contents))
  | file {old new : ByteArray} (contents : changed ∨ new = old) :
      Grown changed (some (.file old)) (some (.file new))
  | directory {entries entries' : List (String × FileNode)}
      (names : entries.map Prod.fst <+: entries'.map Prod.fst) :
      Grown changed (some (.directory entries)) (some (.directory entries'))

namespace Grown

variable {changed changed' : Prop} {a b c : Option FileNode}

theorem refl (changed : Prop) (a : Option FileNode) : Grown changed a a := by
  match a with
  | .none => exact .absent
  | some (.file _) => exact .file (.inr rfl)
  | some (.directory _) => exact .directory (List.prefix_refl _)

theorem mono (h : Grown changed a b) (himp : changed → changed') : Grown changed' a b := by
  cases h with
  | absent => exact .absent
  | newDirectory => exact .newDirectory
  | newFile allowed => exact .newFile (himp allowed)
  | file contents => exact .file (contents.imp_left himp)
  | directory names => exact .directory names

theorem trans (h : Grown changed a b) (h' : Grown changed b c) : Grown changed a c := by
  cases h with
  | absent => exact h'
  | newDirectory =>
    cases h'
    exact .newDirectory
  | newFile allowed =>
    cases h'
    exact .newFile allowed
  | file contents =>
    cases h' with
    | file contents' =>
      refine .file ?_
      rcases contents' with allowed | rfl
      · exact .inl allowed
      · exact contents
  | directory names =>
    cases h' with
    | directory names' => exact .directory (names.trans names')

/-- A file may be put where no directory is. -/
theorem of_notDirectory (notDirectory : ∀ entries, a ≠ some (.directory entries))
    (contents : ByteArray) : Grown True a (some (.file contents)) := by
  match a with
  | .none => exact .newFile trivial
  | some (.file _) => exact .file (.inl trivial)
  | some (.directory entries) => exact absurd rfl (notDirectory entries)

end Grown

theorem names_prefix_putEntry (name : String) (new : FileNode)
    (entries : List (String × FileNode)) :
    entries.map Prod.fst <+: (putEntry name new entries).map Prod.fst := by
  induction entries with
  | nil => exact List.nil_prefix
  | cons first rest ih =>
    obtain ⟨n, node⟩ := first
    rw [putEntry]
    split
    · exact List.prefix_refl _
    · exact List.cons_prefix_cons.2 ⟨rfl, ih⟩

/-- A node that is put where no directory is leaves everything else as it was. -/
theorem grown_get?_put (changed : Prop) {node new : FileNode} {l : Location}
    (notDirectory : ∀ entries, node.get? l ≠ some (.directory entries))
    (leaf : ∀ name rest, new.get? (name :: rest) = none)
    (here : Grown changed (node.get? l) (some new)) (other : Location) :
    Grown (changed ∧ other = l) (node.get? other) ((node.put l new).get? other) := by
  induction l generalizing node other with
  | nil =>
    rw [put_nil]
    cases other with
    | nil => exact here.mono fun h => ⟨h, rfl⟩
    | cons name rest =>
      rw [leaf name rest, show node.get? (name :: rest) = none from
        get?_below (l := []) notDirectory name rest]
      exact .absent
  | cons name rest ih =>
    cases node with
    | file contents =>
      rw [put_file contents (List.cons_ne_nil name rest)]
      exact .refl _ _
    | directory entries =>
      obtain hput | ⟨node', hput, hnode⟩ := put_directory entries name rest new
      · rw [hput]
        exact .refl _ _
      · rw [hput]
        cases other with
        | nil => exact .directory (names_prefix_putEntry name node' entries)
        | cons x xs =>
          rw [get?_directory, get?_directory, lookup_putEntry]
          by_cases hx : x = name
          · rw [if_pos hx, hx, Option.bind_some]
            rcases hnode with ⟨rfl, hlookup, rfl⟩ | ⟨below, hlookup, rfl⟩
            · rw [get?_directory, hlookup] at here
              rw [hlookup]
              cases xs with
              | nil => exact here.mono fun h => ⟨h, rfl⟩
              | cons y ys =>
                rw [leaf y ys]
                exact .absent
            · rw [get?_directory, hlookup] at here
              rw [hlookup]
              refine (ih (fun entries' h => notDirectory entries' ?_) here xs).mono fun h => ?_
              · rw [get?_directory, hlookup]
                exact h
              · exact ⟨h.1, by rw [h.2]⟩
          · rw [if_neg hx]
            exact .refl _ _

/-- An entry that is put into a directory is there. -/
theorem get?_put_entry {node new : FileNode} {l : Location} {name : String}
    {entries : List (String × FileNode)} (h : node.get? l = some (.directory entries)) :
    (node.put (l ++ [name]) new).get? (l ++ [name]) = some new := by
  induction l generalizing node with
  | nil =>
    obtain rfl := Option.some.inj h
    rw [List.nil_append, put, get?_directory, lookup_putEntry, if_pos rfl]
    rfl
  | cons first others ih =>
    rw [get?_cons] at h
    obtain ⟨below, hchild, hbelow⟩ := Option.bind_eq_some_iff.1 h
    cases node with
    | file => cases hchild
    | directory entries =>
      rw [List.cons_append, put_cons hchild, get?_directory, lookup_putEntry, if_pos rfl]
      exact ih hbelow

end FileNode

namespace FileTree

open FileNode (Grown)

variable {changed changed' : Location → Prop} {t t' t'' : FileTree}

/-- A tree that has grown, seen from the same place; the files that may be new or have other
contents are those for which it is said. -/
structure Grows (changed : Location → Prop) (t t' : FileTree) : Prop where
  current : t'.current = t.current
  nodes : ∀ l, Grown (changed l) (t.get? l) (t'.get? l)

/-- A tree that has grown by directories only. -/
abbrev OnlyDirectories (t t' : FileTree) : Prop := Grows (fun _ => False) t t'

/-- The names on a walk are not too long. -/
theorem size_of_walk {l dir : Location} {parts : List String} (h : t.walk l parts = .ok dir)
    {name : String} (hmem : name ∈ parts) (plain : Plain name) :
    name.utf8ByteSize ≤ greatestName := by
  induction parts generalizing l with
  | nil => cases hmem
  | cons part rest ih =>
    obtain ⟨next, hstep, -, hrest⟩ := walk_cons_eq_ok.1 h
    rcases List.mem_cons.1 hmem with rfl | hmem
    · exact ((step_eq_ok plain).1 hstep).1
    · exact ih hrest hmem

/-- Names that lead to something are walked one after the other. -/
theorem walk_of_names {base : Location} {names : List String} {last : String} {node : FileNode}
    (plain : ∀ name ∈ names, Plain name)
    (hsize : ∀ name ∈ names, name.utf8ByteSize ≤ greatestName)
    (there : t.get? (base ++ names ++ [last]) = some node) :
    t.walk base names = .ok (base ++ names) := by
  induction names generalizing base with
  | nil =>
    rw [List.append_nil]
    rfl
  | cons name rest ih =>
    obtain ⟨hname, hrest⟩ := List.forall_mem_cons.1 plain
    obtain ⟨hfirst, hothers⟩ := List.forall_mem_cons.1 hsize
    have hplace : base ++ name :: rest = base ++ [name] ++ rest := by simp
    rw [hplace] at there ⊢
    have hnext : ∃ entries, t.get? (base ++ [name]) = some (.directory entries) := by
      rw [List.append_assoc] at there
      cases rest with
      | nil => exact FileNode.directory_of_get?_append there
      | cons x xs => exact FileNode.directory_of_get?_append there
    exact walk_cons_eq_ok.2
      ⟨_, (step_eq_ok hname).2 ⟨hfirst, rfl⟩, hnext, ih hrest hothers there⟩

/-- What is walked in another tree is walked in this one too, if the walk leads to something. -/
theorem walk_of_get? {base dir : Location} {names : List String}
    {last : String} {node : FileNode} (plain : ∀ name ∈ names, Plain name)
    (hwalk : t'.walk base names = .ok dir) (there : t.get? (base ++ names ++ [last]) = some node) :
    t.walk base names = .ok dir := by
  have hdir := eq_follow_of_walk hwalk
  rw [Location.follow_all_plain plain] at hdir
  rw [hdir]
  exact walk_of_names plain (fun name hname => size_of_walk hwalk hname (plain name hname)) there

theorem utf8ByteSize_le_of_sublist {a b : List Char} (h : a.Sublist b) :
    (String.ofList a).utf8ByteSize ≤ (String.ofList b).utf8ByteSize := by
  induction h with
  | slnil => exact Nat.le_refl _
  | cons c _ ih =>
    rw [String.ofList_cons, String.utf8ByteSize_append]
    omega
  | cons_cons c _ ih =>
    rw [String.ofList_cons, String.ofList_cons, String.utf8ByteSize_append,
      String.utf8ByteSize_append]
    omega

theorem utf8ByteSize_replicate {c : Char} (hc : c.utf8Size = 1) (n : Nat) :
    (String.ofList (List.replicate n c)).utf8ByteSize = n := by
  induction n with
  | zero => rfl
  | succ n ih =>
    rw [List.replicate_succ, String.ofList_cons, String.utf8ByteSize_append, ih,
      String.utf8ByteSize_singleton, hc, Nat.add_comm]

/-- A text that is part of a well-formed one is well-formed too, whatever the tree. -/
theorem target_of_aim {p q : Path} {g g' : Target} (hq : t.target q = .ok g) (hne : p.text ≠ "")
    (hpart : p.text.toList.Sublist q.text.toList) (haim : t'.aim p = .ok g') :
    t'.target p = .ok g' := by
  have hsize := utf8ByteSize_le_of_sublist hpart
  rw [String.ofList_toList, String.ofList_toList] at hsize
  rw [target_eq_aim] at hq ⊢
  split at hq
  · cases hq
  · split at hq
    · cases hq
    · rename_i hnul
      split at hq
      · cases hq
      · rw [if_neg (by simpa using hne), if_neg, if_neg (by omega)]
        · exact haim
        · intro hmem
          apply hnul
          simp only [List.contains_iff_mem] at hmem ⊢
          exact hpart.subset hmem

theorem ne_empty_of_target {p : Path} {g : Target} (h : t.target p = .ok g) : p.text ≠ "" := by
  intro hempty
  rw [target_eq_aim, hempty] at h
  cases h

namespace Grows

theorem refl (changed : Location → Prop) (t : FileTree) : Grows changed t t :=
  ⟨rfl, fun l => .refl (changed l) (t.get? l)⟩

theorem mono (h : Grows changed t t') (himp : ∀ l, changed l → changed' l) : Grows changed' t t' :=
  ⟨h.current, fun l => (h.nodes l).mono (himp l)⟩

theorem trans (h : Grows changed t t') (h' : Grows changed t' t'') : Grows changed t t'' :=
  ⟨h'.current.trans h.current, fun l => (h.nodes l).trans (h'.nodes l)⟩

/-- A file that may not change is there exactly if it was, with its contents. -/
theorem file?_eq (h : Grows changed t t') {l : Location} (kept : ¬ changed l) :
    t'.file? l = t.file? l := by
  rw [file?, file?]
  have hl := h.nodes l
  generalize t.get? l = a, t'.get? l = b at hl
  cases hl with
  | absent => rfl
  | newDirectory => rfl
  | newFile allowed => exact absurd allowed kept
  | file contents => rw [contents.resolve_left kept]
  | directory => rfl

/-- A file is still a file. -/
theorem exists_file? (h : Grows changed t t')
    {l : Location} {bytes : ByteArray} (hl : t.file? l = some bytes) :
    ∃ bytes', t'.file? l = some bytes' := by
  have hnode := h.nodes l
  rw [file?_eq_some.1 hl] at hnode
  cases hl' : t'.get? l with
  | none =>
    rw [hl'] at hnode
    cases hnode
  | some node =>
    rw [hl'] at hnode
    cases hnode with
    | file => exact ⟨_, file?_eq_some.2 hl'⟩

theorem directory (h : Grows changed t t') {l : Location} {entries : List (String × FileNode)}
    (hl : t.get? l = some (.directory entries)) :
    ∃ entries', t'.get? l = some (.directory entries') ∧
      entries.map Prod.fst <+: entries'.map Prod.fst := by
  have hnode := h.nodes l
  rw [hl] at hnode
  cases hl' : t'.get? l with
  | none =>
    rw [hl'] at hnode
    cases hnode
  | some node =>
    rw [hl'] at hnode
    cases hnode with
    | directory names => exact ⟨_, rfl, names⟩

/-! ### Where paths lead -/

theorem walk (h : Grows changed t t') {l dir : Location} {parts : List String}
    (hwalk : t.walk l parts = .ok dir) : t'.walk l parts = .ok dir := by
  induction parts generalizing l with
  | nil => exact hwalk
  | cons part rest ih =>
    obtain ⟨next, hstep, ⟨entries, there⟩, hrest⟩ := walk_cons_eq_ok.1 hwalk
    obtain ⟨entries', there', -⟩ := h.directory there
    exact walk_cons_eq_ok.2 ⟨next, hstep, ⟨entries', there'⟩, ih hrest⟩

theorem start_eq (h : Grows changed t t') (p : Path) : t'.start p = t.start p := by
  rw [start, start, h.current]

theorem placeOf_eq (h : Grows changed t t') (p : Path) : t'.placeOf p = t.placeOf p := by
  rw [FileTree.placeOf_eq, FileTree.placeOf_eq, h.start_eq]

theorem aim (h : Grows changed t t') {p : Path} {g : Target} (hg : t.aim p = .ok g) :
    t'.aim p = .ok g := by
  rw [FileTree.aim] at hg ⊢
  rw [h.start_eq]
  cases hlast : p.words.getLast? with
  | none =>
    rw [hlast] at hg
    exact hg
  | some last =>
    rw [hlast] at hg
    simp only at hg ⊢
    by_cases dots : (decide (last = ".") || decide (last = "..")) = true
    · rw [if_pos dots] at hg ⊢
      obtain ⟨place, hwalk, hg⟩ := bind_eq_ok.1 hg
      rw [h.walk hwalk]
      exact hg
    · rw [if_neg dots] at hg ⊢
      obtain ⟨directory, hwalk, hg⟩ := bind_eq_ok.1 hg
      rw [h.walk hwalk]
      exact hg

/-- A path that leads somewhere still leads there. -/
theorem target (h : Grows changed t t') {p : Path} {g : Target} (hg : t.target p = .ok g) :
    t'.target p = .ok g :=
  target_of_aim hg (ne_empty_of_target hg) (List.Sublist.refl _) (h.aim (aim_of_target hg))

theorem find_directory (h : Grows changed t t') {p : Path} {l : Location}
    {entries : List (String × FileNode)} (hfind : t.find p = .ok (l, .directory entries)) :
    ∃ entries', t'.find p = .ok (l, .directory entries') ∧
      entries.map Prod.fst <+: entries'.map Prod.fst := by
  obtain ⟨g, htarget, rfl, there⟩ := find_eq_ok hfind
  obtain ⟨entries', there', names⟩ := h.directory there
  exact ⟨entries', find_of_directory (h.target htarget) there', names⟩

theorem list_of_isDirectory (h : Grows changed t t') {p : Path} {names : List String}
    (there : t.isDirectory p = true) (hlist : t.list p = .ok names) :
    t'.isDirectory p = true ∧ ∃ names', t'.list p = .ok names' ∧ names <+: names' := by
  rw [isDirectory] at there
  split at there
  · rename_i l entries hfind
    obtain ⟨entries', hfind', hnames⟩ := h.find_directory hfind
    rw [list, hfind] at hlist
    obtain rfl := Except.ok.inj hlist
    rw [isDirectory, list, hfind']
    exact ⟨rfl, _, rfl, hnames⟩
  · cases there

theorem isFile (h : Grows changed t t') {p : Path} (hfile : t.isFile p = true) :
    t'.isFile p = true := by
  rw [FileTree.isFile] at hfile ⊢
  split at hfile
  · rename_i l contents hfind
    obtain ⟨g, htarget, rfl, there⟩ := find_eq_ok hfind
    have hnode := h.nodes g.place
    rw [there] at hnode
    have notDirectory : g.wantsDirectory = false := by
      rw [find, htarget] at hfind
      simp only [bind, Except.bind, there, FileNode.isDirectory] at hfind
      cases hwants : g.wantsDirectory with
      | false => rfl
      | true => simp [hwants] at hfind
    cases there' : t'.get? g.place with
    | none =>
      rw [there'] at hnode
      cases hnode
    | some node =>
      rw [there'] at hnode
      cases hnode with
      | file => rw [find_of_target (h.target htarget) notDirectory there']
  · cases hfile

/-! ### Back to the tree before -/

/-- A path through entries of a directory leads to the same place in the tree before, if something
was there. -/
theorem target_of_get? (h : Grows changed t t') {p : Path} {g : Target} {front names : List String}
    {last : String} {base : Location} {node : FileNode}
    (hwords : p.words = front ++ (names ++ [last]))
    (plain : ∀ name ∈ names ++ [last], Plain name) (hfront : t.walk (t.start p) front = .ok base)
    (hg : t'.target p = .ok g) (there : t.get? g.place = some node) : t.target p = .ok g := by
  have hlast : Plain last := plain last (by simp)
  have hnames : ∀ name ∈ names, Plain name := by
    intro name hname
    exact plain name (List.mem_append_left _ hname)
  rw [← List.append_assoc] at hwords
  obtain ⟨dir, hdir, hsize, rfl⟩ := (aim_eq_ok hlast hwords).1 (aim_of_target hg)
  rw [h.start_eq, walk_append, h.walk hfront] at hdir
  have hback : t.walk (t.start p) (front ++ names) = .ok dir := by
    rw [walk_append, hfront]
    have hplace : dir = base ++ names := by
      have hfollow := eq_follow_of_walk hdir
      rwa [Location.follow_all_plain hnames] at hfollow
    subst hplace
    exact walk_of_get? hnames hdir there
  exact target_of_aim hg (ne_empty_of_target hg) (List.Sublist.refl _)
    ((aim_eq_ok hlast hwords).2 ⟨dir, hback, hsize, rfl⟩)

end Grows

/-! ### What grows a tree -/

/-- A node that is put where no directory is changes nothing else. -/
theorem grows_put (allowed : Prop) {l : Location} {node : FileNode}
    (notDirectory : ∀ entries, t.get? l ≠ some (.directory entries))
    (leaf : ∀ name rest, node.get? (name :: rest) = none)
    (there : Grown allowed (t.get? l) (some node)) :
    Grows (fun other => allowed ∧ other = l) t (t.put l node) := by
  by_cases admits : t.Admits l node
  · refine ⟨current_put t l node, fun other => ?_⟩
    rw [get?_put admits]
    exact FileNode.grown_get?_put allowed notDirectory leaf there other
  · rw [put_of_not_admits admits]
    exact .refl _ t

/-- A directory that is made grows the tree by directories only. -/
theorem onlyDirectories_of_makeDirectory {p : Path} (h : t.makeDirectory p = .ok t') :
    OnlyDirectories t t' := by
  obtain ⟨g, -, h⟩ := bind_eq_ok.1 h
  split at h
  · cases h
  · rename_i hnone
    obtain rfl := Except.ok.inj h
    refine (grows_put False (fun entries hdir => ?_) (fun _ _ => rfl) ?_).mono fun _ => And.left
    · rw [hnone] at hdir
      cases hdir
    · rw [hnone]
      exact .newDirectory

/-- Writing a file puts its contents where the path leads, which is no directory. -/
theorem write_eq_ok {p : Path} {contents : ByteArray} (h : t.write p contents = .ok t') :
    ∃ g, t.target p = .ok g ∧ (∀ entries, t.get? g.place ≠ some (.directory entries)) ∧
      t' = t.put g.place (.file contents) := by
  obtain ⟨g, htarget, h⟩ := bind_eq_ok.1 h
  refine ⟨g, htarget, ?_⟩
  split at h
  · cases h
  · rename_i old hold
    split at h
    · cases h
    · refine ⟨fun entries hdir => ?_, (Except.ok.inj h).symm⟩
      rw [hold] at hdir
      cases hdir
  · rename_i hnone
    split at h
    · cases h
    · refine ⟨fun entries hdir => ?_, (Except.ok.inj h).symm⟩
      rw [hnone] at hdir
      cases hdir

theorem grows_put_file {l : Location} (contents : ByteArray)
    (notDirectory : ∀ entries, t.get? l ≠ some (.directory entries)) :
    Grows (· = l) t (t.put l (.file contents)) := by
  have grown := Grown.of_notDirectory notDirectory contents
  exact (grows_put True notDirectory (fun _ _ => rfl) grown).mono fun _ => And.right

/-- Writing changes the file that the path leads to, and no other one. -/
theorem grows_write {p : Path} {contents : ByteArray}
    (h : t.write p contents = .ok t') : Grows (· = t.placeOf p) t t' := by
  obtain ⟨g, hg, notDirectory, rfl⟩ := write_eq_ok h
  rw [← place_of_target hg]
  exact grows_put_file contents notDirectory

end FileTree

end ModelShelf
