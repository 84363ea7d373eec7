import ModelShelf.Files.Change
import ModelShelf.Proofs.Files.Growth

/-!
Changes of a tree in which everything that they need is there. Creating a directory that a path
leads to changes nothing, and a file that is there gets its new contents and nothing else happens.
-/

namespace ModelShelf

open ModelShelf.Path (Plain Along)

namespace FileTree

variable {t : FileTree}

/-- The path of a directory that has a path put below it leads to the directory. -/
theorem directory_of_along {p q : Path} {before : List String} {name : String} {g : Target}
    {node : FileNode} (plain : Plain name) (h : p.parts = before ++ [name])
    (hg : t.target p = .ok g) (there : t.get? g.place = some node) (hne : q.text ≠ "")
    (front : q.text.toList <+: p.text.toList) (along : Along q p before) :
    ∃ g' entries, t.target q = .ok g' ∧ t.get? g'.place = some (.directory entries) := by
  obtain ⟨dir, hwalk, hplace⟩ := place_of_plain plain h hg
  obtain ⟨others, hwords⟩ := along.words
  rw [← hwords, walk_append] at hwalk
  obtain ⟨above, habove, -⟩ := bind_eq_ok.1 hwalk
  have hstart : t.start q = t.start p := by rw [start, start, along.start]
  rw [← hstart] at habove
  obtain ⟨g', haim, rfl⟩ := place_of_walk habove
  have directory : ∃ entries, t.get? g'.place = some (.directory entries) := by
    by_cases hempty : q.words = []
    · -- no word is left, so the path is the root, and it has something below it
      have absolute := along.solid.resolve_right (fun solid => solid hempty)
      rw [hempty, start, if_pos absolute] at habove
      rw [← Except.ok.inj habove]
      rw [hplace] at there
      cases dir with
      | nil => exact FileNode.directory_of_get?_append (l := []) there
      | cons first rest => exact FileNode.directory_of_get?_append (l := []) there
    · exact directory_of_walk hempty habove
  obtain ⟨entries, hentries⟩ := directory
  exact ⟨g', entries, target_of_aim hg hne front.sublist haim, hentries⟩

end FileTree

namespace Change

variable {t : FileTree}

theorem get_bind (next : FileTree → Change α) (t : FileTree) :
    (get >>= next : Change α) t = next t t := rfl

theorem bind_of_ok {change : Change α} {a : α} {t' : FileTree} (h : change t = .ok a t')
    (next : α → Change β) : (change >>= next) t = next a t' := by
  show EStateM.bind change next t = _
  rw [EStateM.bind, h]

theorem bind_of_error {change : Change α} {e : Error} {t' : FileTree} (h : change t = .error e t')
    (next : α → Change β) : (change >>= next) t = .error e t' := by
  show EStateM.bind change next t = _
  rw [EStateM.bind, h]

theorem ofResult_bind (x : Result α) (next : α → Change β) (t : FileTree) :
    (ofResult x >>= next) t = match x with
      | .ok a => next a t
      | .error e => .error e t := by
  cases x <;> rfl

theorem eq_ok_of_bind {change : Change α} {next : α → Change β} {b : β} {t' : FileTree}
    (h : (change >>= next) t = .ok b t') :
    ∃ a between, change t = .ok a between ∧ next a between = .ok b t' := by
  cases hchange : change t with
  | ok a between => exact ⟨a, between, rfl, (bind_of_ok hchange next).symm.trans h⟩
  | error e between => cases (bind_of_error hchange next).symm.trans h

theorem error_of_bind {change : Change α} {next : α → Change β} {e : Error} {t' : FileTree}
    (h : (change >>= next) t = .error e t') :
    change t = .error e t' ∨
      ∃ a between, change t = .ok a between ∧ next a between = .error e t' := by
  cases hchange : change t with
  | ok a between => exact .inr ⟨a, between, rfl, (bind_of_ok hchange next).symm.trans h⟩
  | error e between =>
    obtain ⟨rfl, rfl⟩ := EStateM.Result.error.inj ((bind_of_error hchange next).symm.trans h)
    exact .inl rfl

/-- A loop that ends comes to each of its items, behind those before it. -/
theorem eq_ok_of_forM {body : α → Change Unit} {before after : List α} {item : α} {t' : FileTree}
    (h : (before ++ item :: after).forM body t = .ok () t') :
    ∃ t₁ t₂, before.forM body t = .ok () t₁ ∧ body item t₁ = .ok () t₂ ∧
      after.forM body t₂ = .ok () t' := by
  induction before generalizing t with
  | nil =>
    obtain ⟨_, t₂, hitem, hafter⟩ := eq_ok_of_bind h
    exact ⟨t, t₂, rfl, hitem, hafter⟩
  | cons first before ih =>
    obtain ⟨_, between, hfirst, hrest⟩ := eq_ok_of_bind h
    obtain ⟨t₁, t₂, hbefore, hitem, hafter⟩ := ih hrest
    exact ⟨t₁, t₂, (bind_of_ok hfirst _).trans hbefore, hitem, hafter⟩

/-- A loop fails at the first item at which its body fails, in the tree that is then reached. -/
theorem forM_eq_error {body : α → Change Unit} {items : List α} {e : Error} {t' : FileTree} :
    items.forM body t = .error e t' ↔ ∃ before bad after between,
      items = before ++ bad :: after ∧ before.forM body t = .ok () between ∧
        body bad between = .error e t' := by
  induction items generalizing t with
  | nil =>
    refine ⟨nofun, ?_⟩
    rintro ⟨before, bad, after, between, hnil, -⟩
    cases before <;> cases hnil
  | cons first rest ih =>
    constructor
    · intro h
      rcases error_of_bind h with hfirst | ⟨_, between, hfirst, hrest⟩
      · exact ⟨[], first, rest, t, rfl, rfl, hfirst⟩
      · obtain ⟨before, bad, after, reached, rfl, hbefore, hbad⟩ := ih.1 hrest
        exact ⟨first :: before, bad, after, reached, rfl, (bind_of_ok hfirst _).trans hbefore, hbad⟩
    · rintro ⟨before, bad, after, between, hitems, hbefore, hbad⟩
      cases before with
      | nil =>
        obtain ⟨rfl, rfl⟩ := List.cons.inj hitems
        cases hbefore
        exact bind_of_error hbad _
      | cons other before =>
        obtain ⟨rfl, rfl⟩ := List.cons.inj hitems
        obtain ⟨_, reached, hother, hbefore⟩ := eq_ok_of_bind hbefore
        exact (bind_of_ok hother _).trans (ih.2 ⟨before, bad, after, between, rfl, hbefore, hbad⟩)

theorem eq_ok_of_ofResult {x : Result α} {a : α} {t' : FileTree} (h : ofResult x t = .ok a t') :
    x = .ok a ∧ t = t' := by
  cases x with
  | ok b =>
    obtain ⟨rfl, rfl⟩ := EStateM.Result.ok.inj h
    exact ⟨rfl, rfl⟩
  | error e => cases h

theorem look_of_ok {f : FileTree → Except FileFault α} {a : α} (h : f t = .ok a) :
    look f t = .ok a t := by
  rw [look, get_bind, h]
  rfl

theorem makeDirectories_empty {q : Path} (h : q.text = "") : makeDirectories q t = .ok () t := by
  rw [makeDirectories, makeDirectoriesFrom, h]
  rfl

/-- A directory that is there is not created again. -/
theorem makeDirectories_of_directory {q : Path} {g : FileTree.Target}
    {entries : List (String × FileNode)} (hg : t.target q = .ok g)
    (there : t.get? g.place = some (.directory entries)) : makeDirectories q t = .ok () t := by
  have hne : q.text ≠ "" := FileTree.ne_empty_of_target hg
  have made : t.makeDirectory q = .error .alreadyThere := by
    rw [FileTree.makeDirectory, hg]
    simp only [bind, Except.bind, there]
  have found : t.isDirectory q = true := by
    rw [FileTree.isDirectory, FileTree.find_of_directory hg there]
  rw [makeDirectories, makeDirectoriesFrom, if_pos (by simpa using hne), get_bind, made]
  show ensureDirectory q t = _
  rw [ensureDirectory, get_bind, made]
  simp only [found]
  rfl

/-- A file that is there gets its new contents. -/
theorem write_eq {p : Path} {g : FileTree.Target} {old new : ByteArray} (hg : t.target p = .ok g)
    (hfile : t.file? g.place = some old) (notDirectory : g.wantsDirectory = false) :
    write p new t = .ok () (t.put g.place (.file new)) := by
  have hwrite : t.write p new = .ok (t.put g.place (.file new)) := by
    rw [FileTree.write, hg]
    simp only [bind, Except.bind, FileTree.file?_eq_some.1 hfile, notDirectory]
    rfl
  exact bind_of_ok (look_of_ok hwrite) set

/-- Writing to a file that is there changes its contents; the directories above it are there. -/
theorem writeBelow_of_file {p : Path} {before : List String} {name : String} (plain : Plain name)
    (h : p.parts = before ++ [name]) {g : FileTree.Target} {old : ByteArray} (new : ByteArray)
    (hg : t.target p = .ok g) (hfile : t.file? g.place = some old)
    (notDirectory : g.wantsDirectory = false) :
    writeBelow p new t = .ok () (t.put g.place (.file new)) := by
  obtain ⟨q, hq, halong⟩ := Path.parent?_of_parts plain h
  have made : makeDirectories q t = .ok () t := by
    by_cases hempty : q.text = ""
    · exact makeDirectories_empty hempty
    · obtain ⟨g', entries, hg', there⟩ := FileTree.directory_of_along plain h hg
        (FileTree.file?_eq_some.1 hfile) hempty (Path.isPrefix_of_parent? hq)
        (halong.resolve_left hempty)
      exact makeDirectories_of_directory hg' there
  rw [writeBelow, hq]
  exact (bind_of_ok made _).trans (write_eq hg hfile notDirectory)

end Change

end ModelShelf
