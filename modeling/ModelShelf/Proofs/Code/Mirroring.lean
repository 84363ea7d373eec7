import ModelShelf.Proofs.Code.Copying

/-!
Copies that are complete. A copy of a directory that ends well has copied each directory and each
file in it, at any depth, to the same place below its target: what was copied by one step of the
loop stays as it is in the steps after it, and what is still to be copied is not changed before.
-/

namespace ModelShelf

open ModelShelf.Path (Plain)
open FileTree (Grows Copies copies_trans copied_of_copies)

variable {t t' between : FileTree}

namespace FileTree

/-- What was at a place below `source` is at the same place below `target` in a later tree, files
with other contents. -/
structure Mirrored (contents : ByteArray → ByteArray) (source target : Location) (t t' : FileTree)
    (below : Location) : Prop where
  file : ∀ bytes, t.file? (source ++ below) = some bytes →
    t'.file? (target ++ below) = some (contents bytes)
  directory : ∀ entries, t.get? (source ++ below) = some (.directory entries) →
    ∃ entries', t'.get? (target ++ below) = some (.directory entries')

variable {contents : ByteArray → ByteArray} {source target below : Location} {p q : Path}

theorem mirrored_of_there (h : ∀ node, t.get? (source ++ below) = some node →
    Mirrored contents source target t t' below) : Mirrored contents source target t t' below :=
  ⟨fun bytes hfile => (h _ (file?_eq_some.1 hfile)).file bytes hfile,
    fun entries hdir => (h _ hdir).directory entries hdir⟩

theorem Mirrored.earlier {changed : Location → Prop}
    (h : Mirrored contents source target between t' below) (grown : Grows changed t between)
    (same : ∀ bytes, t.file? (source ++ below) = some bytes →
      ∃ bytes', between.file? (source ++ below) = some bytes' ∧ contents bytes' = contents bytes) :
    Mirrored contents source target t t' below := by
  refine ⟨fun bytes hfile => ?_, fun entries hdir => ?_⟩
  · obtain ⟨bytes', hfile', heq⟩ := same bytes hfile
    rw [h.file bytes' hfile', heq]
  · obtain ⟨entries', hdir', -⟩ := grown.directory hdir
    exact h.directory entries' hdir'

theorem Mirrored.later {changed : Location → Prop}
    (h : Mirrored contents source target t between below) (grown : Grows changed between t')
    (kept : ∀ bytes, t.file? (source ++ below) = some bytes →
      t'.file? (target ++ below) = between.file? (target ++ below)) :
    Mirrored contents source target t t' below := by
  refine ⟨fun bytes hfile => ?_, fun entries hdir => ?_⟩
  · rw [kept bytes hfile]
    exact h.file bytes hfile
  · obtain ⟨entries', hdir'⟩ := h.directory entries hdir
    obtain ⟨entries'', hdir'', -⟩ := grown.directory hdir'
    exact ⟨entries'', hdir''⟩

theorem mirrored_directory {changed : Location → Prop} {entries others : List (String × FileNode)}
    (there : t.get? (source ++ below) = some (.directory entries))
    (made : t.get? (target ++ below) = some (.directory others)) (grown : Grows changed t t') :
    Mirrored contents source target t t' below := by
  refine ⟨fun bytes hfile => ?_, fun _ _ => ?_⟩
  · cases there.symm.trans (file?_eq_some.1 hfile)
  · obtain ⟨entries', there', -⟩ := grown.directory made
    exact ⟨entries', there'⟩

/-- What has been copied stays, as copies write the same contents to its place. -/
theorem Mirrored.later_of_copies
    (h : Mirrored (copied source target) source target t between below)
    (before : Copies source target t between) (after : Copies source target between t')
    (unnested : source.Unnested target) :
    Mirrored (copied source target) source target t t' below := by
  refine h.later after fun bytes hfile => ?_
  by_cases written : t'.IsCopyAt source target (target ++ below)
  · obtain ⟨other, bytes', heq, hfile', hcopy⟩ := written
    obtain rfl := List.append_cancel_left heq
    obtain ⟨bytes'', hfile'', same⟩ :=
      copied_of_copies (copies_trans before after) unnested hfile
    obtain rfl := Option.some.inj (hfile'.symm.trans hfile'')
    rw [hcopy unnested, same, h.file bytes hfile]
  · exact after.file?_eq written

end FileTree

open FileTree (Mirrored mirrored_of_there)

variable {source target l below : Location} {p q : Path}

/-- A file that was copied is where it was copied to, and nothing lies below it. -/
theorem mirrored_of_copyFile (hp : t.placeOf p = source ++ l) (hq : t.placeOf q = target ++ l)
    (h : copyFile p q t = .ok () t') (below : Location) :
    Mirrored (copied source target) source target t t' (l ++ below) := by
  obtain ⟨fault, herror⟩ | ⟨bytes, t'', hok, hfile, -, hcopy⟩ := copyFile_cases t p q
  · cases herror.symm.trans h
  obtain ⟨-, rfl⟩ := EStateM.Result.ok.inj (hok.symm.trans h)
  rw [hp] at hfile hcopy
  rw [hq, copied_append] at hcopy
  have there := FileTree.file?_eq_some.1 hfile
  refine mirrored_of_there fun node hnode => ?_
  cases below with
  | nil =>
    rw [List.append_nil]
    refine ⟨fun bytes' hfile' => ?_, fun entries hdir => ?_⟩
    · obtain rfl := Option.some.inj (hfile.symm.trans hfile')
      exact hcopy
    · cases there.symm.trans hdir
  | cons name rest =>
    have notDirectory (entries) : t.root.get? (source ++ l) ≠ some (.directory entries) :=
      fun hdir => by cases there.symm.trans hdir
    rw [← List.append_assoc] at hnode
    cases (FileNode.get?_below notDirectory name rest).symm.trans hnode

theorem copies_of_loop (aligned : t.Aligned source target p q) {fuel : Nat} {names : List String}
    (plain : ∀ name ∈ names, Plain name)
    (h : (names.forM fun name => copyFrom fuel (p.join name) (q.join name)) t = .ok () t') :
    Copies source target t t' := by
  have keeps : Change.Preserves (Copies source target t) (fun _ => True)
      (names.forM fun name => copyFrom fuel (p.join name) (q.join name)) :=
    Change.preserves_forM fun name hname =>
      preserves_copies t fuel (aligned.join (plain name hname))
  exact keeps.of_ok (.refl _ t) h

/-- A loop over names copies what each of them leads to, if its step does. -/
theorem mirrored_of_loop (unnested : source.Unnested target) {fuel : Nat}
    (aligned : t.Aligned source target p q) {names : List String}
    (plain : ∀ name ∈ names, Plain name) {name : String} (hname : name ∈ names)
    (h : (names.forM fun name => copyFrom fuel (p.join name) (q.join name)) t = .ok () t')
    (step : ∀ {t₁ t₂ : FileTree}, Copies source target t t₁ →
      copyFrom fuel (p.join name) (q.join name) t₁ = .ok () t₂ →
        Mirrored (copied source target) source target t₁ t₂ below) :
    Mirrored (copied source target) source target t t' below := by
  obtain ⟨before, after, rfl⟩ := List.append_of_mem hname
  obtain ⟨t₁, t₂, hbefore, hentry, hafter⟩ := Change.eq_ok_of_forM h
  obtain ⟨plainBefore, plainRest⟩ := List.forall_mem_append.1 plain
  obtain ⟨plainEntry, plainAfter⟩ := List.forall_mem_cons.1 plainRest
  have copies₁ := copies_of_loop aligned plainBefore hbefore
  have aligned₁ := aligned.later copies₁
  have copies₂ := copies_of_copyFrom (aligned₁.join plainEntry) hentry
  have copies₃ := copies_of_loop (aligned₁.later copies₂) plainAfter hafter
  have entry := (step copies₁ hentry).later_of_copies copies₂ copies₃ unnested
  exact entry.earlier copies₁ fun bytes => copied_of_copies copies₁ unnested

/-- All that is in a directory is copied, at any depth. -/
theorem mirrored_of_copyFrom (unnested : source.Unnested target) {fuel : Nat}
    (hp : t.placeOf p = source ++ l) (hq : t.placeOf q = target ++ l) (hne : q.text ≠ "")
    (h : copyFrom fuel p q t = .ok () t') (below : Location) :
    Mirrored (copied source target) source target t t' (l ++ below) := by
  induction fuel generalizing t t' p q l below with
  | zero => cases h
  | succ fuel ih =>
    rw [copyFrom, Change.get_bind] at h
    split at h
    case isFalse => exact mirrored_of_copyFile hp hq h below
    rename_i hdir
    obtain ⟨_, _, hmake, h⟩ := Change.eq_ok_of_bind h
    obtain ⟨names, made, hlook, hloop⟩ := Change.eq_ok_of_bind h
    obtain ⟨hlist, rfl⟩ := Change.eq_ok_of_look hlook
    -- The directories that are made first change no file, so what is to be copied is the same.
    have grown := Change.onlyDirectories_of_makeDirectories hmake
    have hdir' := Change.isDirectory_of_makeDirectories hne hmake
    rw [← grown.placeOf_eq] at hp hq
    refine Mirrored.earlier ?_ grown fun bytes hfile =>
      ⟨bytes, (grown.file?_eq id).trans hfile, rfl⟩
    obtain ⟨entries, there, hlist'⟩ :=
      FileTree.directory_of_isDirectory (FileTree.isDirectory_of_grows grown hdir)
    obtain rfl := Except.ok.inj (hlist'.symm.trans hlist)
    rw [hp] at there
    have plain : ∀ name ∈ entries.map Prod.fst, Plain name := fun name hname =>
      FileTree.plain_of_list hlist hname
    refine mirrored_of_there fun node hnode => ?_
    cases below with
    | nil =>
      have copies := copies_of_loop ⟨l, hp, hq⟩ plain hloop
      obtain ⟨others, made', -⟩ := FileTree.directory_of_isDirectory hdir'
      rw [hq] at made'
      rw [List.append_nil]
      exact FileTree.mirrored_directory there made' copies
    | cons name rest =>
      have hname : name ∈ entries.map Prod.fst :=
        FileNode.mem_of_get? there (by rw [List.append_assoc]; exact hnode)
      refine mirrored_of_loop unnested ⟨l, hp, hq⟩ plain hname hloop ?_
      intro t₁ t₂ copies₁ hentry
      rw [← copies₁.placeOf_eq] at hp hq
      -- The entry is copied between places that are one name deeper.
      have plainName := plain name hname
      have hp' : t₁.placeOf (p.join name) = source ++ (l ++ [name]) := by
        rw [FileTree.placeOf_join_plain plainName, hp, List.append_assoc]
      have hq' : t₁.placeOf (q.join name) = target ++ (l ++ [name]) := by
        rw [FileTree.placeOf_join_plain plainName, hq, List.append_assoc]
      have entry : Mirrored (copied source target) source target t₁ t₂ (l ++ [name] ++ rest) :=
        ih hp' hq' (Path.join_ne_empty plainName.isRelative plainName.ne_empty) hentry rest
      rwa [List.append_assoc] at entry

end ModelShelf
