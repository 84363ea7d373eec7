import ModelShelf.Proofs.Files.Growth

/-!
Names of new entries. What is made at the end of a path gets the last word of the path as its name,
which is the name of an entry; so a tree takes what is put where a path leads, and has it there.
-/

namespace ModelShelf

open ModelShelf.Path (Plain isIdle)

namespace FileTree

open FileNode (Grown)

variable {t : FileTree}

theorem plain_of_mem_words {p : Path} {word : String} (h : word ∈ p.words) (hdot : word ≠ ".")
    (hup : word ≠ "..") : Plain word := by
  obtain ⟨hpart, hempty⟩ := List.mem_filter.1 h
  refine ⟨?_, hup, Path.not_mem_parts hpart⟩
  rw [isIdle, Bool.or_eq_false_iff]
  exact ⟨by simpa using hempty, decide_eq_false hdot⟩

/-- Every path is followed from a directory. -/
theorem directory_start (t : FileTree) (p : Path) :
    ∃ entries, t.get? (t.start p) = some (.directory entries) := by
  rw [start]
  obtain ⟨entries, there⟩ := t.stands
  split
  · cases hcurrent : t.current with
    | nil => exact ⟨entries, hcurrent ▸ there⟩
    | cons name rest =>
      rw [hcurrent] at there
      exact FileNode.directory_of_get?_append (l := []) there
  · exact ⟨entries, there⟩

/-- A path that does not lead to a directory ends in a name. -/
theorem exists_name_of_target {p : Path} {g : Target} (hg : t.target p = .ok g)
    (notDirectory : ∀ entries, t.get? g.place ≠ some (.directory entries)) :
    ∃ front name, p.words = front ++ [name] ∧ Plain name := by
  have haim := aim_of_target hg
  rw [aim] at haim
  split at haim
  · obtain rfl := Except.ok.inj haim
    obtain ⟨entries, there⟩ := t.directory_start p
    exact absurd there (notDirectory entries)
  · rename_i last hlast
    obtain ⟨front, hwords⟩ := List.getLast?_eq_some_iff.1 hlast
    split at haim
    · obtain ⟨place, hplace, haim⟩ := bind_eq_ok.1 haim
      obtain rfl := Except.ok.inj haim
      obtain ⟨entries, there⟩ := directory_of_walk (by simp [hwords]) hplace
      exact absurd there (notDirectory entries)
    · rename_i hdots
      simp only [Bool.or_eq_true, decide_eq_true_eq, not_or] at hdots
      have hmem : last ∈ p.words := hwords ▸ List.mem_append_right front List.mem_cons_self
      exact ⟨front, last, hwords, plain_of_mem_words hmem hdots.1 hdots.2⟩

section Put

variable {p : Path} {g : Target} (hg : t.target p = .ok g)
  (notDirectory : ∀ entries, t.get? g.place ≠ some (.directory entries))

include hg notDirectory

/-- Where a path does not lead to a directory it leads to an entry of one. -/
theorem directory_above_target :
    ∃ dir name entries, g.place = dir ++ [name] ∧ Plain name ∧
      t.get? dir = some (.directory entries) := by
  obtain ⟨front, name, hwords, plain⟩ := exists_name_of_target hg notDirectory
  obtain ⟨dir, hdir, -, rfl⟩ := (aim_eq_ok plain hwords).1 (aim_of_target hg)
  have directory : ∃ entries, t.get? dir = some (.directory entries) := by
    by_cases hfront : front = []
    · rw [hfront] at hdir
      obtain rfl := Except.ok.inj hdir
      exact t.directory_start p
    · exact directory_of_walk hfront hdir
  obtain ⟨entries, there⟩ := directory
  exact ⟨dir, name, entries, rfl, plain, there⟩

/-- A tree takes what is put where a path leads, if no directory is there. -/
theorem admits_place {allowed : Prop} {node : FileNode} (names : node.hasPlainNames = true)
    (leaf : ∀ name rest, node.get? (name :: rest) = none)
    (grown : Grown allowed (t.get? g.place) (some node)) : t.Admits g.place node where
  names := names
  last last hlast := by
    obtain ⟨dir, name, entries, hplace, plain, -⟩ := directory_above_target hg notDirectory
    rw [hplace, List.getLast?_concat] at hlast
    exact Option.some.inj hlast ▸ plain
  here := by
    obtain ⟨entries, there⟩ := t.stands
    have current := FileNode.grown_get?_put allowed notDirectory leaf grown t.current
    rw [show t.root.get? t.current = some (.directory entries) from there] at current
    generalize (t.root.put g.place node).get? t.current = found at current ⊢
    cases current
    rfl

/-- What was put where a path leads is there. -/
theorem get?_put_place {allowed : Prop} {node : FileNode} (names : node.hasPlainNames = true)
    (leaf : ∀ name rest, node.get? (name :: rest) = none)
    (grown : Grown allowed (t.get? g.place) (some node)) :
    (t.put g.place node).get? g.place = some node := by
  obtain ⟨dir, name, entries, hplace, -, there⟩ := directory_above_target hg notDirectory
  rw [get?_put (admits_place hg notDirectory names leaf grown), hplace]
  exact FileNode.get?_put_entry there

/-- A file that was put where a path leads is there. -/
theorem file?_put_place (contents : ByteArray) :
    (t.put g.place (.file contents)).file? g.place = some contents :=
  file?_eq_some.2 (get?_put_place hg notDirectory rfl (fun _ _ => rfl)
    (.of_notDirectory notDirectory contents))

end Put

end FileTree

end ModelShelf
