import ModelShelf.Proofs.Code.Bundling

/-!
Code that is refused. A source that is missing is found before anything is copied, wherever in the
list it is, and leaves all as it was. A source without a name to copy it under is found only when
its turn comes: by then the directory is there, with the copies of the sources before it.
-/

namespace ModelShelf

variable {t t' : FileTree} {sources : List Path} {model : Path} {name message : String}

/-! ### Errors of the file system -/

/-- A failure of the file system, and no refusal. -/
def Error.OfFiles (e : Error) : Prop := ∃ fault, e = .file fault

theorem not_ofFiles_invalidParameter (message : String) :
    ¬ Error.OfFiles (.invalidParameter message) := by
  rintro ⟨fault, h⟩
  cases h

theorem ofFiles_of_makeDirectories {p : Path} {e : Error}
    (h : Change.makeDirectories p t = .error e t') : e.OfFiles :=
  have made : Change.Preserves (fun _ => True) Error.OfFiles (Change.makeDirectories p) :=
    Change.preserves_makeDirectories (fun fault => ⟨fault, rfl⟩) (fun _ _ => trivial) p
  ((made t trivial).2 e t' h).2

theorem ofFiles_of_copyBelow {source target : Path} {e : Error}
    (h : copyBelow source target t = .error e t') : e.OfFiles := by
  have onlyFiles (fault : FileFault) : Error.OfFiles (.file fault) := ⟨fault, rfl⟩
  have copied : Change.Preserves (fun _ => True) Error.OfFiles (copyBelow source target) :=
    @preserves_copyFrom (fun _ => True) Error.OfFiles (fun _ _ => True) onlyFiles
      (fun _ _ => trivial) (fun _ => preserves_copyFile onlyFiles fun _ _ => trivial)
      (fun _ _ _ _ _ => trivial) _ source target trivial
  exact ((copied t trivial).2 e t' h).2

/-! ### Refusals -/

/-- A source is refused only for want of a name, and nothing is done for it. -/
theorem copyInto_refuses_iff {directory source : Path} :
    copyInto directory source t = .error (.invalidParameter message) t' ↔
      source.fileName? = none ∧ namelessSource source = .invalidParameter message ∧ t' = t := by
  rw [copyInto]
  cases source.fileName? with
  | some file =>
    constructor
    · intro h
      exact absurd (ofFiles_of_copyBelow h) (not_ofFiles_invalidParameter message)
    · rintro ⟨hname, -⟩
      cases hname
  | none =>
    constructor
    · intro h
      obtain ⟨herror, rfl⟩ := EStateM.Result.error.inj h
      exact ⟨rfl, herror, rfl⟩
    · rintro ⟨-, herror, rfl⟩
      rw [← herror]
      rfl

/-- Sources that are there are refused at the first one without a name, after the directory has been
made and the sources before it have been copied. -/
theorem copyCode_refuses_nameless_iff (hne : sources ≠ [])
    (there : ∀ source ∈ sources, t.exists? source = true) :
    copyCode sources model name t = .error (.invalidParameter message) t' ↔
      ∃ before nameless after, sources = before ++ nameless :: after ∧
        nameless.fileName? = none ∧ namelessSource nameless = .invalidParameter message ∧
        (Change.makeDirectories (model.join name) >>= fun _ =>
          before.forM (copyInto (model.join name))) t = .ok () t' := by
  rw [copyCode_of_there hne there]
  constructor
  · intro h
    rcases Change.error_of_bind h with hmake | ⟨_, made, hmake, hrest⟩
    · exact absurd (ofFiles_of_makeDirectories hmake) (not_ofFiles_invalidParameter message)
    rcases Change.error_of_bind hrest with hcopies | ⟨_, _, -, hdone⟩
    · obtain ⟨before, nameless, after, between, hsources, hbefore, hbad⟩ :=
        Change.forM_eq_error.1 hcopies
      obtain ⟨hname, herror, rfl⟩ := copyInto_refuses_iff.1 hbad
      exact ⟨before, nameless, after, hsources, hname, herror,
        (Change.bind_of_ok hmake _).trans hbefore⟩
    · cases hdone
  · rintro ⟨before, nameless, after, hsources, hname, herror, hrun⟩
    obtain ⟨_, made, hmake, hbefore⟩ := Change.eq_ok_of_bind hrun
    rw [Change.bind_of_ok hmake]
    refine Change.bind_of_error (Change.forM_eq_error.2 ?_) _
    exact ⟨before, nameless, after, t', hsources, hbefore,
      copyInto_refuses_iff.2 ⟨hname, herror, rfl⟩⟩

/-- Code is refused for the first source that is missing, and then the tree is as it was; or, when
all sources are there, for the first one without a name, and then the sources before it have been
copied. -/
theorem copyCode_refuses_iff :
    copyCode sources model name t = .error (.invalidParameter message) t' ↔
      (∃ missing, sources.find? (fun source => !t.exists? source) = some missing ∧
        missingSource missing = .invalidParameter message ∧ t' = t) ∨
      (∀ source ∈ sources, t.exists? source = true) ∧
        ∃ before nameless after, sources = before ++ nameless :: after ∧
          nameless.fileName? = none ∧ namelessSource nameless = .invalidParameter message ∧
          (Change.makeDirectories (model.join name) >>= fun _ =>
            before.forM (copyInto (model.join name))) t = .ok () t' := by
  cases hfind : sources.find? (fun source => !t.exists? source) with
  | some missing =>
    have absent := List.find?_some hfind
    have hmem := List.mem_of_find?_eq_some hfind
    rw [copyCode_of_missing hfind]
    constructor
    · intro h
      obtain ⟨herror, rfl⟩ := EStateM.Result.error.inj h
      exact .inl ⟨missing, rfl, herror, rfl⟩
    · rintro (⟨other, hother, herror, rfl⟩ | ⟨there, -⟩)
      · obtain rfl := Option.some.inj hother
        rw [herror]
      · simp [there missing hmem] at absent
  | none =>
    have there : ∀ source ∈ sources, t.exists? source = true := by simpa using hfind
    by_cases hne : sources = []
    · subst hne
      constructor
      · intro h
        cases h
      · rintro (⟨missing, hmissing, -⟩ | ⟨-, before, nameless, after, hnil, -⟩)
        · cases hmissing
        · cases before <;> cases hnil
    · rw [copyCode_refuses_nameless_iff hne there]
      constructor
      · exact fun h => .inr ⟨there, h⟩
      · rintro (⟨missing, hmissing, -⟩ | ⟨-, h⟩)
        · cases hmissing
        · exact h

/-- A directory with one file in it. -/
def loneFile : FileTree := ⟨.directory [("a.py", .file .empty)], [], rfl, rfl⟩

/-- Whether a change is refused and leaves a file at a place. -/
def refusedBehind (change : Change α) (l : Location) (t : FileTree) : Bool :=
  match change t with
  | .error (.invalidParameter _) t' => (t'.file? l).isSome
  | _ => false

theorem exists_of_refusedBehind {change : Change α} {l : Location}
    (h : refusedBehind change l t = true) : ∃ message t',
      change t = .error (.invalidParameter message) t' ∧ ∃ bytes, t'.file? l = some bytes := by
  rw [refusedBehind] at h
  split at h
  · rename_i message t' hrun
    exact ⟨message, t', hrun, Option.isSome_iff_exists.1 h⟩
  · cases h

/-- A directory that is itself a source, by a path that ends in no name, is refused when the file
before it has been copied. -/
theorem nameless_source_refused_late : loneFile.get? ["model"] = none ∧ ∃ message t',
    copyCode [⟨"a.py"⟩, ⟨"."⟩] ⟨"model"⟩ "code" loneFile = .error (.invalidParameter message) t' ∧
      ∃ bytes, t'.file? ["model", "code", "a.py"] = some bytes :=
  ⟨rfl, exists_of_refusedBehind (by decide +kernel)⟩

end ModelShelf
