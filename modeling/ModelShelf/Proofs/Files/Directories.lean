import ModelShelf.Proofs.Files.Spellings

/-!
Directories that are made on the way to a path. When they are made the path names a directory; it
was missing before, or something above it was. Nothing lies below a missing place, but a path that
goes up above a missing part may name a directory that was there all the time.
-/

namespace ModelShelf

namespace FileTree

variable {t t' : FileTree} {p : Path}

theorem isDirectory_iff :
    t.isDirectory p = true ↔ ∃ l entries, t.find p = .ok (l, .directory entries) := by
  rw [isDirectory]
  constructor
  · intro h
    split at h
    · exact ⟨_, _, ‹_›⟩
    · cases h
  · rintro ⟨l, entries, hfind⟩
    rw [hfind]

theorem directory_of_isDirectory (h : t.isDirectory p = true) :
    ∃ entries, t.get? (t.placeOf p) = some (.directory entries) ∧
      t.list p = .ok (entries.map Prod.fst) := by
  obtain ⟨l, entries, hfind⟩ := isDirectory_iff.1 h
  obtain ⟨g, hg, rfl, there⟩ := find_eq_ok hfind
  refine ⟨entries, place_of_target hg ▸ there, ?_⟩
  rw [list, hfind]
  rfl

theorem isDirectory_of_grows {changed : Location → Prop} (h : Grows changed t t')
    (there : t.isDirectory p = true) : t'.isDirectory p = true := by
  obtain ⟨l, entries, hfind⟩ := isDirectory_iff.1 there
  obtain ⟨entries', hfind', -⟩ := h.find_directory hfind
  exact isDirectory_iff.2 ⟨l, entries', hfind'⟩

/-- A directory that is made is there. -/
theorem isDirectory_of_makeDirectory (h : t.makeDirectory p = .ok t') :
    t'.isDirectory p = true := by
  have grown := onlyDirectories_of_makeDirectory h
  obtain ⟨g, hg, h⟩ := bind_eq_ok.1 h
  split at h
  · cases h
  · rename_i absent
    obtain rfl := Except.ok.inj h
    have notDirectory : ∀ entries, t.get? g.place ≠ some (.directory entries) := by
      intro entries hdir
      rw [absent] at hdir
      cases hdir
    have made : FileNode.Grown False (t.get? g.place) (some (.directory [])) := by
      rw [absent]
      exact .newDirectory
    have there := get?_put_place hg notDirectory rfl (fun _ _ => rfl) made
    exact isDirectory_iff.2 ⟨_, _, find_of_directory (grown.target hg) there⟩

/-! ### Paths that are missing -/

theorem walk_cons_of_directory {l next : Location} {part : String}
    {entries : List (String × FileNode)} (hstep : step l part = .ok next)
    (there : t.get? next = some (.directory entries)) (parts : List String) :
    t.walk l (part :: parts) = t.walk next parts := by
  rw [walk, List.foldlM_cons, hstep]
  simp only [bind, Except.bind, there]
  rfl

/-- A walk through directories some of which were made was a walk before, or it was one up to the
first directory that is new. -/
theorem walk_or_missing (grown : OnlyDirectories t t') {l dir : Location} {words : List String}
    (hwalk : t'.walk l words = .ok dir) :
    t.walk l words = .ok dir ∨ ∃ front word rest above, words = front ++ word :: rest ∧
      t.walk l front = .ok above ∧ t.get? (above.enter word) = none := by
  induction words generalizing l with
  | nil => exact .inl hwalk
  | cons word words ih =>
    obtain ⟨next, hstep, ⟨entries', there'⟩, hrest⟩ := walk_cons_eq_ok.1 hwalk
    have hnode := grown.nodes next
    rw [there'] at hnode
    cases hnext : t.get? next with
    | none =>
      rw [eq_enter_of_step hstep] at hnext
      exact .inr ⟨[], word, words, l, rfl, rfl, hnext⟩
    | some node =>
      rw [hnext] at hnode
      cases hnode with
      | directory =>
        rw [walk_cons_of_directory hstep hnext]
        refine (ih hrest).imp_right ?_
        rintro ⟨front, missing, rest, above, rfl, habove, habsent⟩
        refine ⟨word :: front, missing, rest, above, rfl, ?_, habsent⟩
        rw [walk_cons_of_directory hstep hnext]
        exact habove

theorem get?_of_missing {l : Location} (h : t.get? l = none) (below : Location) :
    t.get? (l ++ below) = none := by
  cases below with
  | nil => rwa [List.append_nil]
  | cons name rest =>
    refine FileNode.get?_below (fun entries hdir => ?_) name rest
    have there : t.get? l = some (.directory entries) := hdir
    rw [h] at there
    cases there

/-- A path goes through directories up to a part that is missing, and behind it up above that
part. -/
def ClimbsFromMissing (t : FileTree) (p : Path) : Prop :=
  ∃ front word rest above, p.words = front ++ word :: rest ∧
    t.walk (t.start p) front = .ok above ∧ t.get? (above.enter word) = none ∧
    Location.keepsBelow 0 rest = false

theorem not_climbsFromMissing (h : ∀ word ∈ p.words, word ≠ "..") : ¬ t.ClimbsFromMissing p := by
  rintro ⟨front, word, rest, -, hwords, -, -, climbs⟩
  refine absurd (Location.keepsBelow_of_forall (fun other hother => h other ?_) 0)
    (Bool.eq_false_iff.1 climbs)
  rw [hwords]
  exact List.mem_append_right front (List.mem_cons_of_mem word hother)

theorem find_of_walk_start {g : Target} {dir : Location} (hg : t'.target p = .ok g)
    (hwalk : t.walk (t.start p) p.words = .ok dir) :
    t.exists? p = true := by
  obtain ⟨g', haim, rfl⟩ := place_of_walk hwalk
  have there : ∃ entries, t.get? g'.place = some (.directory entries) := by
    by_cases hempty : p.words = []
    · rw [hempty] at hwalk
      rw [← Except.ok.inj hwalk]
      exact t.directory_start p
    · exact directory_of_walk hempty hwalk
  obtain ⟨entries, there⟩ := there
  have htarget := target_of_aim hg (ne_empty_of_target hg) (List.Sublist.refl _) haim
  rw [exists?, find_of_directory htarget there]
  rfl

/-- Nothing lay below a directory that was missing, unless its path goes up above a part that is
missing. -/
theorem climbs_or_absent (grown : OnlyDirectories t t')
    (made : t'.isDirectory p = true) (missing : t.exists? p = false) :
    t.ClimbsFromMissing p ∨ ∀ name, t.get? (t.placeOf p ++ [name]) = none := by
  obtain ⟨l, entries, hfind⟩ := isDirectory_iff.1 made
  obtain ⟨g, hg, -⟩ := find_eq_ok hfind
  have hwalk := walk_of_find hfind
  rw [grown.start_eq] at hwalk
  rcases walk_or_missing grown hwalk with hold | ⟨front, word, rest, above, hwords, habove, habsent⟩
  · rw [find_of_walk_start hg hold] at missing
    cases missing
  · cases hrest : Location.keepsBelow 0 rest with
    | false => exact .inl ⟨front, word, rest, above, hwords, habove, habsent, hrest⟩
    | true =>
      right
      intro name
      have hplace : t.placeOf p = (above.enter word).follow rest := by
        rw [placeOf_eq, hwords, Location.follow_append, ← eq_follow_of_walk habove]
        rfl
      have inside : above.enter word <+: ((above.enter word) ++ []).follow rest :=
        Location.prefix_follow hrest
      rw [List.append_nil, ← hplace] at inside
      obtain ⟨below, hbelow⟩ := inside
      rw [← hbelow, List.append_assoc]
      exact get?_of_missing habsent _

end FileTree

namespace Change

open FileTree (onlyDirectories_of_makeDirectory)

variable {t t' : FileTree} {p : Path}

theorem isDirectory_of_ensureDirectory (h : ensureDirectory p t = .ok () t') :
    t'.isDirectory p = true := by
  rw [ensureDirectory, get_bind] at h
  cases hmade : t.makeDirectory p with
  | ok made =>
    rw [hmade] at h
    obtain ⟨-, rfl⟩ := EStateM.Result.ok.inj h
    exact FileTree.isDirectory_of_makeDirectory hmade
  | error fault =>
    rw [hmade] at h
    simp only at h
    split at h
    · cases h
    · rename_i there
      obtain ⟨-, rfl⟩ := EStateM.Result.ok.inj h
      simpa using there

/-- A path that is not empty names a directory after the directories on the way are made. -/
theorem isDirectory_of_makeDirectories (hne : p.text ≠ "")
    (h : makeDirectories p t = .ok () t') : t'.isDirectory p = true := by
  rw [makeDirectories, makeDirectoriesFrom, if_pos (by simpa using hne), get_bind] at h
  cases hmade : t.makeDirectory p with
  | ok made =>
    rw [hmade] at h
    exact isDirectory_of_ensureDirectory h
  | error fault =>
    rw [hmade] at h
    cases fault with
    | noEntry =>
      cases hparent : p.parent? with
      | none =>
        rw [hparent] at h
        cases h
      | some above =>
        rw [hparent] at h
        obtain ⟨_, between, habove, hlast⟩ := eq_ok_of_bind h
        exact isDirectory_of_ensureDirectory hlast
    | _ => exact isDirectory_of_ensureDirectory h

end Change

end ModelShelf
