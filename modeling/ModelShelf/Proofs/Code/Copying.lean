import ModelShelf.Code.Bundle
import ModelShelf.Proofs.Files.Directories

/-!
Copies of files and directories. A file that is copied is written in one place, with the contents
that it has once the target is emptied; a copy of a directory goes on below it, entry by entry. So
whatever it copies and however it ends, a copy adds directories and changes no file but those that
it copies to.
-/

namespace ModelShelf

open ModelShelf.Path (Plain)
open FileTree (Grows OnlyDirectories)

variable {t t' t'' : FileTree}

/-! ### Places -/

namespace Location

variable {source target : Location}

/-- Neither of two places lies at or below the other. -/
structure Apart (source target : Location) : Prop where
  not_below : ¬ source <+: target
  not_above : ¬ target <+: source

theorem Apart.append_ne (h : source.Apart target) (l l' : Location) :
    source ++ l ≠ target ++ l' := by
  intro heq
  have front : source <+: target ++ l' := ⟨l, heq⟩
  rcases List.prefix_or_prefix_of_prefix front (List.prefix_append target l') with below | above
  · exact h.not_below below
  · exact h.not_above above

theorem Apart.concat (h : source.Apart target) (name : String) :
    source.Apart (target ++ [name]) := by
  refine ⟨fun below => ?_, fun above => h.not_above ((List.prefix_append _ _).trans above)⟩
  rcases List.prefix_concat_iff.1 below with rfl | below
  · exact h.not_above (List.prefix_append _ _)
  · exact h.not_below below

end Location

/-! ### Copying a file -/

/-- What is copied of the contents of a file: nothing, if the file is its own target. -/
def copied (source target : Location) (bytes : ByteArray) : ByteArray :=
  if source = target then .empty else bytes

theorem copied_self (l : Location) (bytes : ByteArray) : copied l l bytes = .empty := if_pos rfl

theorem copied_of_apart {source target : Location} (apart : source.Apart target) :
    copied source target = id := by
  funext bytes
  refine if_neg ?_
  rintro rfl
  exact apart.not_below (List.prefix_refl source)

theorem copied_append (source target l : Location) (bytes : ByteArray) :
    copied (source ++ l) (target ++ l) bytes = copied source target bytes := by
  rw [copied, copied]
  simp only [List.append_cancel_right_eq]

theorem preserves_copyFile {holds : FileTree → Prop} {kind : Error → Prop}
    (hfile : ∀ fault, kind (.file fault)) {p q : Path}
    (hwrite : ∀ {t t' : FileTree} {contents : ByteArray}, holds t →
      t.write q contents = .ok t' → holds t') : Change.Preserves holds kind (copyFile p q) := by
  have write (contents : ByteArray) : Change.Preserves holds kind (Change.write q contents) :=
    Change.preserves_write hfile hwrite
  rw [copyFile]
  refine Change.Preserves.bind ?_ fun _ => (write .empty).bind fun _ => ?_
  · exact Change.preserves_look_bind hfile fun _ _ _ _ => Change.preserves_pure ()
  · exact Change.preserves_look_bind hfile fun bytes _ _ _ => write bytes

theorem copyFile_eq (p q : Path) : copyFile p q = Change.look (fun t => t.read p) >>= fun _ =>
    Change.write q .empty >>= fun _ => Change.look (fun t => t.read p) >>= fun bytes =>
      Change.write q bytes := by
  have hdiscard (change : Change ByteArray) : discard change = change >>= fun _ => pure () :=
    (bind_pure_comp (Function.const ByteArray ()) change).symm
  rw [copyFile, hdiscard, bind_assoc]
  rfl

/-- A source that can be read can still be read when its target has been emptied. -/
theorem read_of_emptied {p q : Path} {bytes : ByteArray} (hread : t.read p = .ok bytes)
    (hempty : t.write q .empty = .ok t') :
    t.file? (t.placeOf p) = some bytes ∧
      t'.read p = .ok (copied (t.placeOf p) (t.placeOf q) bytes) := by
  obtain ⟨g, hg, hfile⟩ := FileTree.read_eq_ok hread
  have hplace := FileTree.place_of_target hg
  have grown := FileTree.grows_write hempty
  have kept : t'.file? g.place = some (copied (t.placeOf p) (t.placeOf q) bytes) := by
    rw [copied]
    by_cases same : t.placeOf p = t.placeOf q
    · rw [if_pos same, hplace, same]
      exact FileTree.file?_of_write hempty
    · rw [if_neg same, grown.file?_eq (hplace ▸ same)]
      exact hfile
  exact ⟨hplace ▸ hfile,
    FileTree.read_of_file (grown.target hg) (FileTree.wantsDirectory_of_read hread hg) kept⟩

/-- A copy of a file fails and changes nothing, or it leaves at the target what is copied. -/
theorem copyFile_cases (t : FileTree) (p q : Path) :
    (∃ fault, copyFile p q t = .error (.file fault) t) ∨
    ∃ bytes t', copyFile p q t = .ok () t' ∧ t.file? (t.placeOf p) = some bytes ∧
      Grows (· = t.placeOf q) t t' ∧
      t'.file? (t.placeOf q) = some (copied (t.placeOf p) (t.placeOf q) bytes) := by
  rw [copyFile_eq]
  cases hread : t.read p with
  | error fault => exact .inl ⟨fault, Change.bind_of_error (Change.look_of_error hread) _⟩
  | ok bytes =>
    rw [Change.bind_of_ok (Change.look_of_ok hread)]
    cases hempty : t.write q .empty with
    | error fault => exact .inl ⟨fault, Change.bind_of_error (Change.write_of_error hempty) _⟩
    | ok emptied =>
      obtain ⟨hfile, hagain⟩ := read_of_emptied hread hempty
      obtain ⟨t', hwrite, grown, hplace⟩ :=
        FileTree.write_again hempty (copied (t.placeOf p) (t.placeOf q) bytes)
      refine .inr ⟨bytes, t', ?_, hfile, grown, hplace⟩
      rw [Change.bind_of_ok (Change.write_of_ok hempty),
        Change.bind_of_ok (Change.look_of_ok hagain)]
      exact Change.write_of_ok hwrite

/-! ### Copying what is in a directory -/

/-- What each new directory and each copy of a file keeps is kept by a copy of what is in a
directory, for paths that are related and stay so below the same name. -/
theorem preserves_copyFrom {holds : FileTree → Prop} {kind : Error → Prop}
    {related : Path → Path → Prop} (hfile : ∀ fault, kind (.file fault))
    (hmake : ∀ {p : Path} {t t' : FileTree}, holds t → t.makeDirectory p = .ok t' → holds t')
    (hcopy : ∀ {p q : Path}, related p q → Change.Preserves holds kind (copyFile p q))
    (hentry : ∀ {p q : Path} {t : FileTree} {names : List String}, related p q → holds t →
      t.list p = .ok names → ∀ name ∈ names, related (p.join name) (q.join name))
    (fuel : Nat) {p q : Path} (h : related p q) :
    Change.Preserves holds kind (copyFrom fuel p q) := by
  induction fuel generalizing p q with
  | zero => exact Change.preserves_throw (hfile _)
  | succ fuel ih =>
    intro t
    rw [copyFrom, Change.get_bind]
    split
    · refine (Change.preserves_makeDirectories hfile hmake q).bind (fun _ => ?_) t
      refine Change.preserves_look_bind hfile fun names t' ht' hlist => ?_
      exact Change.preserves_forM fun name hname => ih (hentry h ht' hlist name hname)
    · exact hcopy h t

/-- Places of which neither is properly inside the other. -/
def Location.Unnested (source target : Location) : Prop :=
  source = target ∨ source.Apart target

namespace FileTree

/-- A place below `target` to which the file at the same place below `source` is copied; it holds
what is copied, unless one of the two is properly inside the other. -/
def IsCopyAt (t : FileTree) (source target l : Location) : Prop :=
  ∃ below bytes, l = target ++ below ∧ t.file? (source ++ below) = some bytes ∧
    (source.Unnested target → t.file? l = some (copied source target bytes))

/-- A tree that has grown by copies. -/
abbrev Copies (source target : Location) (t t' : FileTree) : Prop :=
  Grows (t'.IsCopyAt source target) t t'

variable {source target l below : Location} {bytes : ByteArray} {p q : Path}

/-- What is to be copied of a file is the same while copies go on. -/
theorem copied_of_copies (h : Copies source target t t') (unnested : source.Unnested target)
    (hfile : t.file? (source ++ below) = some bytes) :
    ∃ bytes', t'.file? (source ++ below) = some bytes' ∧
      copied source target bytes' = copied source target bytes := by
  rcases unnested with rfl | apart
  · obtain ⟨bytes', hfile'⟩ := h.exists_file? hfile
    exact ⟨bytes', hfile', by rw [copied_self, copied_self]⟩
  · refine ⟨bytes, ?_, rfl⟩
    rw [h.file?_eq]
    · exact hfile
    · rintro ⟨other, -, heq, -⟩
      exact apart.append_ne below other heq

theorem IsCopyAt.later (hl : t.IsCopyAt source target l) (h : Copies source target t t') :
    t'.IsCopyAt source target l := by
  by_cases now : t'.IsCopyAt source target l
  · exact now
  · obtain ⟨below, bytes, rfl, hfile, hcopy⟩ := hl
    obtain ⟨bytes', hfile'⟩ := h.exists_file? hfile
    refine ⟨below, bytes', rfl, hfile', fun unnested => ?_⟩
    obtain ⟨other, hother, same⟩ := copied_of_copies h unnested hfile
    obtain rfl := Option.some.inj (hfile'.symm.trans hother)
    rw [h.file?_eq now, same]
    exact hcopy unnested

theorem copies_trans (h : Copies source target t t') (h' : Copies source target t' t'') :
    Copies source target t t'' :=
  (h.mono fun _ hl => hl.later h').trans h'

theorem copies_makeDirectory (h : t.makeDirectory p = .ok t') : Copies source target t t' :=
  (onlyDirectories_of_makeDirectory h).mono fun _ => False.elim

/-- A copy of one file, from a place to the same place below another one. -/
theorem copies_copyFile (hp : t.placeOf p = source ++ below) (hq : t.placeOf q = target ++ below)
    (h : copyFile p q t = .ok () t') : Copies source target t t' := by
  obtain ⟨fault, herror⟩ | ⟨bytes, t'', hok, hfile, grown, hcopy⟩ := copyFile_cases t p q
  · cases herror.symm.trans h
  obtain ⟨-, rfl⟩ := EStateM.Result.ok.inj (hok.symm.trans h)
  rw [hp] at hfile hcopy
  rw [hq] at grown hcopy
  rw [copied_append] at hcopy
  obtain ⟨bytes', hfile'⟩ := grown.exists_file? hfile
  refine grown.mono fun l hl => ⟨below, bytes', hl, hfile', fun unnested => ?_⟩
  rw [hl, hcopy]
  -- The source is as it was, or it is the target.
  rcases unnested with rfl | apart
  · rw [copied_self, copied_self]
  · rw [grown.file?_eq (apart.append_ne below below), hfile] at hfile'
    rw [Option.some.inj hfile']

/-- Two paths that lead to the same place below two others. -/
def Aligned (t : FileTree) (source target : Location) (p q : Path) : Prop :=
  ∃ below, t.placeOf p = source ++ below ∧ t.placeOf q = target ++ below

theorem aligned_self (t : FileTree) (p q : Path) : t.Aligned (t.placeOf p) (t.placeOf q) p q :=
  ⟨[], (List.append_nil _).symm, (List.append_nil _).symm⟩

theorem Aligned.later {changed : Location → Prop} (h : t.Aligned source target p q)
    (grown : Grows changed t t') : t'.Aligned source target p q := by
  obtain ⟨below, hp, hq⟩ := h
  rw [← grown.placeOf_eq] at hp hq
  exact ⟨below, hp, hq⟩

theorem Aligned.join (h : t.Aligned source target p q) {name : String} (plain : Plain name) :
    t.Aligned source target (p.join name) (q.join name) := by
  obtain ⟨below, hp, hq⟩ := h
  refine ⟨below ++ [name], ?_, ?_⟩
  · rw [placeOf_join_plain plain, hp, List.append_assoc]
  · rw [placeOf_join_plain plain, hq, List.append_assoc]

end FileTree

open FileTree (Copies copies_trans copies_makeDirectory copies_copyFile)

/-- However it ends, a copy of what is in a directory has only copied. -/
theorem preserves_copies (t : FileTree) {source target : Location} (fuel : Nat) {p q : Path}
    (h : t.Aligned source target p q) :
    Change.Preserves (Copies source target t) (fun _ => True) (copyFrom fuel p q) := by
  refine preserves_copyFrom (fun _ => trivial) ?make ?copy ?entry fuel h
  case make =>
    intro _ t₁ t₂ copies made
    exact copies_trans copies (copies_makeDirectory made)
  case copy =>
    rintro p q ⟨below, hp, hq⟩ t₁ copies
    rw [← copies.placeOf_eq] at hp hq
    refine ⟨fun _ t₂ hok => copies_trans copies (copies_copyFile hp hq hok), fun e t₂ herror => ?_⟩
    obtain ⟨fault, herror'⟩ | ⟨_, _, hok, -⟩ := copyFile_cases t₁ p q
    · obtain ⟨rfl, rfl⟩ := EStateM.Result.error.inj (herror'.symm.trans herror)
      exact ⟨copies, trivial⟩
    · cases hok.symm.trans herror
  case entry =>
    intro p q t₁ names aligned _ hlist name hname
    exact aligned.join (FileTree.plain_of_list hlist hname)

theorem copies_of_copyFrom {source target : Location} {fuel : Nat} {p q : Path}
    (aligned : t.Aligned source target p q) (h : copyFrom fuel p q t = .ok () t') :
    Copies source target t t' :=
  (preserves_copies t fuel aligned).of_ok (.refl _ t) h

end ModelShelf
