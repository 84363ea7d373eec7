import ModelShelf.Proofs.Files.Change
import ModelShelf.Proofs.Files.Growth

/-!
Writing files that need not be there. The directories above a file are made first, which adds
directories and nothing else, also when it fails half-way; then one file is created or gets other
contents, or the change fails and no file is touched.
-/

namespace ModelShelf

open ModelShelf.Path (Plain)
open FileTree (OnlyDirectories Grows)

variable {t t' : FileTree}

namespace Change

theorem eq_ok_of_look {f : FileTree → Except FileFault α} {a : α} (h : look f t = .ok a t') :
    f t = .ok a ∧ t' = t := by
  rw [look, get_bind] at h
  cases hf : f t with
  | error fault =>
    rw [hf] at h
    cases h
  | ok b =>
    rw [hf] at h
    obtain ⟨rfl, rfl⟩ := EStateM.Result.ok.inj h
    exact ⟨rfl, rfl⟩

theorem look_of_error {f : FileTree → Except FileFault α} {fault : FileFault}
    (h : f t = .error fault) : look f t = .error (.file fault) t := by
  rw [look, get_bind, h]
  rfl

theorem write_of_ok {p : Path} {contents : ByteArray} (h : t.write p contents = .ok t') :
    write p contents t = .ok () t' :=
  bind_of_ok (look_of_ok h) set

theorem write_of_error {p : Path} {contents : ByteArray} {fault : FileFault}
    (h : t.write p contents = .error fault) : write p contents t = .error (.file fault) t :=
  bind_of_error (look_of_error h) set

/-- Whether it succeeds or fails, the change keeps what holds of a tree; each error with which it
fails is of a kind. -/
def Preserves (holds : FileTree → Prop) (kind : Error → Prop) (change : Change α) : Prop :=
  ∀ t, holds t → (∀ a t', change t = .ok a t' → holds t') ∧
    ∀ e t', change t = .error e t' → holds t' ∧ kind e

/-- The tree after a change, whether it succeeds or fails. -/
def treeAfter (change : Change α) (t : FileTree) : FileTree :=
  match change t with
  | .ok _ t' => t'
  | .error _ t' => t'

section Preserves

variable {holds : FileTree → Prop} {kind : Error → Prop}

theorem Preserves.of_ok {change : Change α} (hchange : Preserves holds kind change) (h : holds t)
    {a : α} (hok : change t = .ok a t') : holds t' :=
  (hchange t h).1 a t' hok

theorem Preserves.treeAfter {change : Change α} (hchange : Preserves holds kind change)
    (h : holds t) : holds (treeAfter change t) := by
  rw [Change.treeAfter]
  split
  · rename_i hok
    exact hchange.of_ok h hok
  · rename_i herror
    exact ((hchange t h).2 _ _ herror).1

theorem preserves_pure (a : α) : Preserves holds kind (pure a) := by
  refine fun t h => ⟨fun b t' hok => ?_, fun e t' herror => ?_⟩
  · obtain ⟨-, rfl⟩ := EStateM.Result.ok.inj hok
    exact h
  · cases herror

theorem preserves_throw {e : Error} (he : kind e) :
    Preserves holds kind (throw e : Change α) := by
  refine fun t h => ⟨fun a t' hok => ?_, fun e' t' herror => ?_⟩
  · cases hok
  · obtain ⟨rfl, rfl⟩ := EStateM.Result.error.inj herror
    exact ⟨h, he⟩

theorem Preserves.bind {change : Change α} {next : α → Change β}
    (hfirst : Preserves holds kind change) (hnext : ∀ a, Preserves holds kind (next a)) :
    Preserves holds kind (change >>= next) := by
  intro t h
  cases hchange : change t with
  | ok a between =>
    rw [bind_of_ok hchange]
    exact hnext a between ((hfirst t h).1 a between hchange)
  | error e between =>
    rw [bind_of_error hchange]
    refine ⟨fun b t' hok => ?_, fun e' t' herror => ?_⟩
    · cases hok
    · obtain ⟨rfl, rfl⟩ := EStateM.Result.error.inj herror
      exact (hfirst t h).2 e between hchange

theorem preserves_ofResult {r : Result α} (hr : ∀ e, r = .error e → kind e) :
    Preserves holds kind (ofResult r) := by
  cases r with
  | ok a => exact preserves_pure a
  | error e => exact preserves_throw (hr e rfl)

theorem preserves_forM {items : List α} {body : α → Change Unit}
    (h : ∀ item ∈ items, Preserves holds kind (body item)) :
    Preserves holds kind (items.forM body) := by
  induction items with
  | nil => exact preserves_pure ()
  | cons first rest ih =>
    obtain ⟨hfirst, hrest⟩ := List.forall_mem_cons.1 h
    exact hfirst.bind fun _ => ih hrest

variable (hfile : ∀ fault, kind (.file fault))

include hfile

/-- What goes on with something that was seen has to keep what holds for what can be seen. -/
theorem preserves_look_bind {f : FileTree → Except FileFault α} {next : α → Change β}
    (hnext : ∀ a t, holds t → f t = .ok a → Preserves holds kind (next a)) :
    Preserves holds kind (look f >>= next) := by
  intro t h
  cases hf : f t with
  | ok a =>
    rw [bind_of_ok (look_of_ok hf)]
    exact hnext a t h hf t h
  | error fault =>
    rw [bind_of_error (look_of_error hf)]
    exact preserves_throw (hfile fault) t h

theorem preserves_write {p : Path} {contents : ByteArray}
    (hwrite : ∀ {t t' : FileTree}, holds t → t.write p contents = .ok t' → holds t') :
    Preserves holds kind (write p contents) := by
  intro t h
  cases hwritten : t.write p contents with
  | ok written =>
    rw [write_of_ok hwritten]
    refine ⟨fun a t' hok => ?_, fun e t' herror => ?_⟩
    · obtain ⟨-, rfl⟩ := EStateM.Result.ok.inj hok
      exact hwrite h hwritten
    · cases herror
  | error fault =>
    rw [write_of_error hwritten]
    refine ⟨fun a t' hok => ?_, fun e t' herror => ?_⟩
    · cases hok
    · obtain ⟨rfl, rfl⟩ := EStateM.Result.error.inj herror
      exact ⟨h, hfile fault⟩

variable (hmake : ∀ {p : Path} {t t' : FileTree}, holds t → t.makeDirectory p = .ok t' → holds t')

include hmake

theorem preserves_ensureDirectory (p : Path) : Preserves holds kind (ensureDirectory p) := by
  intro t h
  rw [ensureDirectory, get_bind]
  cases hmade : t.makeDirectory p with
  | ok made =>
    refine ⟨fun a t' hok => ?_, fun e t' herror => ?_⟩
    · obtain ⟨-, rfl⟩ := EStateM.Result.ok.inj hok
      exact hmake h hmade
    · cases herror
  | error fault =>
    simp only
    split
    · exact preserves_throw (hfile fault) t h
    · exact preserves_pure _ t h

theorem preserves_makeDirectoriesFrom (fuel : Nat) (p : Path) :
    Preserves holds kind (makeDirectoriesFrom fuel p) := by
  induction fuel generalizing p with
  | zero => exact preserves_throw (hfile _)
  | succ fuel ih =>
    rw [makeDirectoriesFrom]
    split
    · intro t
      rw [get_bind]
      cases hmade : t.makeDirectory p with
      | ok made => exact preserves_ensureDirectory hfile hmake p t
      | error fault =>
        cases fault with
        | noEntry =>
          cases hparent : p.parent? with
          | none => exact preserves_throw (hfile _) t
          | some above =>
            exact (ih above).bind (fun _ => preserves_ensureDirectory hfile hmake p) t
        | _ => exact preserves_ensureDirectory hfile hmake p t
    · exact preserves_pure _

/-- What each new directory keeps is kept when a directory and those above it are made, and only the
file system makes this fail. -/
theorem preserves_makeDirectories (p : Path) : Preserves holds kind (makeDirectories p) :=
  preserves_makeDirectoriesFrom hfile hmake _ p

end Preserves

/-- Whether it succeeds or fails, the change adds directories only. -/
def OnlyAdds (change : Change α) : Prop :=
  ∀ t, (∀ a t', change t = .ok a t' → OnlyDirectories t t') ∧
    ∀ e t', change t = .error e t' → OnlyDirectories t t'

theorem preserves_onlyDirectories {kind : Error → Prop} (hfile : ∀ fault, kind (.file fault))
    (t : FileTree) (p : Path) : Preserves (OnlyDirectories t) kind (makeDirectories p) :=
  preserves_makeDirectories hfile
    (fun grown made => grown.trans (FileTree.onlyDirectories_of_makeDirectory made)) p

theorem onlyAdds_makeDirectories (p : Path) : OnlyAdds (makeDirectories p) := by
  intro t
  have kept : Preserves (OnlyDirectories t) (fun _ => True) (makeDirectories p) :=
    preserves_onlyDirectories (fun _ => trivial) t p
  exact ⟨(kept t (.refl _ t)).1, fun e t' h => ((kept t (.refl _ t)).2 e t' h).1⟩

theorem onlyDirectories_of_makeDirectories {p : Path} (h : makeDirectories p t = .ok () t') :
    OnlyDirectories t t' :=
  (onlyAdds_makeDirectories p t).1 () t' h

/-- Writing a file fails without a change, or it puts the file where the path leads. -/
theorem write_cases (p : Path) (contents : ByteArray) (t : FileTree) :
    (∃ fault, write p contents t = .error (.file fault) t) ∨
    ∃ g, t.target p = .ok g ∧ (∀ entries, t.get? g.place ≠ some (.directory entries)) ∧
      write p contents t = .ok () (t.put g.place (.file contents)) := by
  cases hwrite : t.write p contents with
  | error fault => exact .inl ⟨_, write_of_error hwrite⟩
  | ok written =>
    obtain ⟨g, htarget, notDirectory, rfl⟩ := FileTree.write_eq_ok hwrite
    exact .inr ⟨g, htarget, notDirectory, write_of_ok hwrite⟩

/-- Writing a file below new directories fails and adds directories at most, or it adds directories
and then puts the file where the path leads. -/
theorem writeBelow_adds (p : Path) (contents : ByteArray) (t : FileTree) :
    (∃ e t', writeBelow p contents t = .error e t' ∧ OnlyDirectories t t') ∨
    ∃ between g, OnlyDirectories t between ∧ between.target p = .ok g ∧
      (∀ entries, between.get? g.place ≠ some (.directory entries)) ∧
      writeBelow p contents t = .ok () (between.put g.place (.file contents)) := by
  have finish {between : FileTree} (grown : OnlyDirectories t between)
      (run : writeBelow p contents t = write p contents between) :
      (∃ e t', writeBelow p contents t = .error e t' ∧ OnlyDirectories t t') ∨
      ∃ between g, OnlyDirectories t between ∧ between.target p = .ok g ∧
        (∀ entries, between.get? g.place ≠ some (.directory entries)) ∧
        writeBelow p contents t = .ok () (between.put g.place (.file contents)) := by
    rw [run]
    obtain ⟨fault, herror⟩ | ⟨g, htarget, notDirectory, hok⟩ := write_cases p contents between
    · exact .inl ⟨_, between, herror, grown⟩
    · exact .inr ⟨between, g, grown, htarget, notDirectory, hok⟩
  cases hparent : p.parent? with
  | none =>
    have run : writeBelow p contents = write p contents := by
      rw [writeBelow, hparent]
    exact finish (.refl _ t) (by rw [run])
  | some above =>
    have run : writeBelow p contents = makeDirectories above >>= fun _ => write p contents := by
      rw [writeBelow, hparent]
    cases hmake : makeDirectories above t with
    | error e between =>
      refine .inl ⟨e, between, ?_, (onlyAdds_makeDirectories above t).2 e between hmake⟩
      rw [run, bind_of_error hmake]
    | ok _ between =>
      refine finish (onlyDirectories_of_makeDirectories hmake) ?_
      rw [run, bind_of_ok hmake]

end Change

end ModelShelf
