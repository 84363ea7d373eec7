import ModelShelf.Proofs.Signature.RoundTrip
import ModelShelf.Proofs.Store.Manifests

/-!
Setting signatures of models in a tree. A call that succeeds replaces the signature in the one
manifest that its URI leads to and touches no other file, and a call that fails touches none. After
any run of calls each model has the signature that was last set on it, and is otherwise as it was.
-/

namespace ModelShelf

variable {t : FileTree}

/-! ### One call -/

/-- Writing the manifest of a repository that has one replaces its contents. -/
theorem Repository.write_eq {repository : Repository} {g : FileTree.Target} {old : ByteArray}
    (hg : t.target (repository.root.join manifestName) = .ok g)
    (hfile : t.file? g.place = some old) (new : ByteArray) :
    repository.write manifestName new t = .ok () (t.put g.place (.file new)) := by
  obtain ⟨before, hparts⟩ := Path.parts_join plain_manifestName repository.root
  rw [write, Change.ofResult_bind, Resolver.path_manifestName]
  exact Change.writeBelow_of_file plain_manifestName hparts new hg hfile
    (FileTree.wantsDirectory_join plain_manifestName hg)

namespace Resolver

/-- A call writes the manifest at its URI with another signature, or it fails and changes
nothing. -/
theorem setSignature_cases (r : Resolver) (uri : String) (signature : Signature) (t : FileTree) :
    (∃ l m text, r.manifestPlace t uri = .ok l ∧ t.manifest? l = some m ∧
      (m.setSignature (some signature)).toText = .ok text ∧
      r.setSignature uri signature t = .ok () (t.put l (.file text.toUTF8))) ∨
    ∃ e, r.setSignature uri signature t = .error e t := by
  rw [setSignature]
  split
  · exact .inr ⟨_, rfl⟩
  · dsimp only
    rw [Change.ofResult_bind]
    split
    · rename_i parsed hparsed
      rw [Change.get_bind, Change.ofResult_bind]
      split
      · rename_i repository hrepository
        rw [Change.get_bind, Change.ofResult_bind]
        split
        · rename_i m hmanifest
          rw [Change.ofResult_bind]
          split
          · rename_i text htext
            obtain ⟨g, htarget, hm⟩ := Manifest.ofRepository_eq_ok.1 hmanifest
            obtain ⟨bytes, _, hfile, -, -⟩ := FileTree.manifest?_eq_some.1 hm
            exact .inl ⟨g.place, m, text, manifestPlace_eq_ok.2
              ⟨parsed, repository, g, hparsed, hrepository, htarget, rfl⟩, hm, htext,
              Repository.write_eq htarget hfile text.toUTF8⟩
          · exact .inr ⟨_, rfl⟩
        · exact .inr ⟨_, rfl⟩
      · exact .inr ⟨_, rfl⟩
    · exact .inr ⟨_, rfl⟩

/-- A manifest that is written with another signature is read with it, and is otherwise the one that
was there. -/
theorem manifest?_put {l : Location} {m : Manifest} {signature : Signature} {text : String}
    (hm : t.manifest? l = some m)
    (faithful : (m.setSignature (some signature)).toValue.ReadsBack)
    (written : (m.setSignature (some signature)).toText = .ok text) :
    (t.put l (.file text.toUTF8)).manifest? l = some (m.setSignature (some signature)) := by
  obtain ⟨bytes, old, hfile, -, hold⟩ := FileTree.manifest?_eq_some.1 hm
  have unknown := Manifest.unknown_of_ofText hold
  have hread : Manifest.ofText text = .ok (m.setSignature (some signature)) :=
    Manifest.ofText_of_value (m := m.setSignature (some signature)) (fun e he => (unknown e he).1)
      (fun e he => (unknown e he).2) (faithful text (eq_ok_of_mapError written))
  exact FileTree.manifest?_eq_some.2
    ⟨text.toUTF8, text, FileTree.file?_put_self hfile _, Text.decodeUtf8_toUTF8 text, hread⟩

end Resolver

/-- A call that sets the signature of the model at a URI. -/
structure SignatureCall where
  resolver : Resolver
  uri : String
  signature : Signature

namespace SignatureCall

def run (c : SignatureCall) : Change Unit := c.resolver.setSignature c.uri c.signature

/-- The manifest that a call writes in the place of another one. -/
def rewritten (c : SignatureCall) (m : Manifest) : Manifest :=
  { m with signature := some c.signature.toTexts }

/-- What is asked of a call on a tree. If it succeeds, one manifest has another signature, which is
the one that is found at the URI, and no other file has changed; if it fails, no file has. -/
def Sound (c : SignatureCall) (t : FileTree) : Prop :=
  match c.run t with
  | .ok _ t' => ∃ l m, c.resolver.manifestPlace t c.uri = .ok l ∧ t.manifest? l = some m ∧
      t'.manifest? l = some (c.rewritten m) ∧
      (∀ other, other ≠ l → t'.file? other = t.file? other) ∧
      ∃ info, c.resolver.modelInfo t' c.uri = .ok info ∧ info.signature? = .ok (some c.signature)
  | .error _ t' => ∀ l, t'.file? l = t.file? l

/-- A call changes one manifest, or it fails and changes nothing. -/
theorem run_cases (c : SignatureCall) (t : FileTree)
    (faithful : ∀ l m, t.manifest? l = some m → (c.rewritten m).toValue.ReadsBack) :
    (∃ l m t', c.run t = .ok () t' ∧ c.resolver.manifestPlace t c.uri = .ok l ∧
      t.manifest? l = some m ∧ t'.manifest? l = some (c.rewritten m) ∧
      FileTree.SameBut (· = l) t t') ∨
    ∃ e, c.run t = .error e t := by
  refine (c.resolver.setSignature_cases c.uri c.signature t).imp_left ?_
  rintro ⟨l, m, text, hplace, hm, written, hrun⟩
  obtain ⟨bytes, _, hfile, -, -⟩ := FileTree.manifest?_eq_some.1 hm
  exact ⟨l, m, _, hrun, hplace, hm, Resolver.manifest?_put hm (faithful l m hm) written,
    FileTree.sameBut_put hfile _⟩

theorem signature?_rewritten (c : SignatureCall) (m : Manifest) (uri : String) :
    ((c.rewritten m).info uri).signature? = .ok (some c.signature) := by
  show SignatureTexts.decode? (some c.signature.toTexts) = _
  rw [SignatureTexts.decode?, Option.mapM_some, Signature.ofTexts_toTexts]
  rfl

theorem sound (c : SignatureCall) (t : FileTree)
    (faithful : ∀ l m, t.manifest? l = some m → (c.rewritten m).toValue.ReadsBack) : c.Sound t := by
  rw [Sound]
  obtain ⟨l, m, t', hrun, hplace, hm, hm', same⟩ | ⟨e, hrun⟩ := c.run_cases t faithful
  · have alike : FileTree.SameButManifests t t' := same.mono fun other hother =>
      hother ▸ Resolver.isManifest_of_manifestPlace hplace
    have hplace' := (Resolver.manifestPlace_eq alike c.resolver c.uri).trans hplace
    rw [hrun]
    exact ⟨l, m, hplace, hm, hm', fun other hother => same.file?_eq hother, _,
      Resolver.modelInfo_of_manifest? hplace' hm', c.signature?_rewritten m c.uri⟩
  · rw [hrun]
    exact fun _ => rfl

end SignatureCall

/-! ### Runs of calls -/

/-- The tree after some calls, and the signatures that they have set, the last ones first. -/
structure SignatureRun where
  tree : FileTree
  log : List (Location × Signature)

namespace SignatureRun

/-- One more call, whose signature is logged if it succeeds. -/
def step (s : SignatureRun) (c : SignatureCall) : SignatureRun :=
  match c.run s.tree with
  | .ok _ t =>
    match c.resolver.manifestPlace s.tree c.uri with
    | .ok l => ⟨t, (l, c.signature) :: s.log⟩
    | .error _ => ⟨t, s.log⟩
  | .error _ t => ⟨t, s.log⟩

/-- Calls made one after the other on a tree, whether they succeed or not. -/
def ofCalls (t : FileTree) (calls : List SignatureCall) : SignatureRun := calls.foldl step ⟨t, []⟩

/-- The signature that was last set on the manifest at a place. -/
def last? (s : SignatureRun) (l : Location) : Option Signature := s.log.lookup l

/-- What holds at any time of a run that began with the tree `t`: each manifest has the signature
that was last set on it, and all else is as it was. -/
structure Since (t : FileTree) (s : SignatureRun) : Prop where
  alike : FileTree.SameButManifests t s.tree
  untouched : ∀ l, s.last? l = none → s.tree.file? l = t.file? l
  changed : ∀ l signature, s.last? l = some signature → ∃ m, t.manifest? l = some m ∧
    s.tree.manifest? l = some { m with signature := some signature.toTexts }

namespace Since

variable {s : SignatureRun}

theorem start (t : FileTree) : Since t ⟨t, []⟩ where
  alike := .refl _ t
  untouched _ _ := rfl
  changed _ _ h := nomatch h

/-- A manifest in the tree is one that was there at first, with another signature at most. -/
theorem exists_manifest? (h : Since t s) {l : Location} {m : Manifest}
    (hm : s.tree.manifest? l = some m) :
    ∃ first, t.manifest? l = some first ∧
      ∀ c : SignatureCall, c.rewritten m = c.rewritten first := by
  cases hlast : s.last? l with
  | none =>
    rw [FileTree.manifest?, h.untouched l hlast] at hm
    exact ⟨m, hm, fun _ => rfl⟩
  | some signature =>
    obtain ⟨first, hfirst, hlater⟩ := h.changed l signature hlast
    obtain rfl := Option.some.inj (hm.symm.trans hlater)
    exact ⟨first, hfirst, fun _ => rfl⟩

/-- The texts that a call may write are read back at any time if they are at first. -/
theorem faithful (h : Since t s) {c : SignatureCall}
    (faithful : ∀ l m, t.manifest? l = some m → (c.rewritten m).toValue.ReadsBack) :
    ∀ l m, s.tree.manifest? l = some m → (c.rewritten m).toValue.ReadsBack := by
  intro l m hm
  obtain ⟨first, hfirst, same⟩ := h.exists_manifest? hm
  rw [same c]
  exact faithful l first hfirst

theorem step (h : Since t s) {c : SignatureCall}
    (faithful : ∀ l m, t.manifest? l = some m → (c.rewritten m).toValue.ReadsBack) :
    Since t (s.step c) := by
  rw [SignatureRun.step]
  obtain ⟨l, m, t', hrun, hplace, hm, hm', same⟩ | ⟨e, hrun⟩ :=
    c.run_cases s.tree (h.faithful faithful)
  · rw [hrun, hplace]
    have alike : FileTree.SameButManifests s.tree t' := same.mono fun other hother =>
      hother ▸ Resolver.isManifest_of_manifestPlace hplace
    refine ⟨h.alike.trans alike, fun other hlast => ?_, fun other signature hlast => ?_⟩
    · rw [last?, List.lookup_cons] at hlast
      split at hlast
      · cases hlast
      · rename_i hne
        rw [same.file?_eq fun heq => by simp [heq] at hne]
        exact h.untouched other hlast
    · rw [last?, List.lookup_cons] at hlast
      split at hlast
      · rename_i heq
        obtain rfl : other = l := eq_of_beq heq
        obtain rfl := Option.some.inj hlast
        obtain ⟨first, hfirst, hsame⟩ := h.exists_manifest? hm
        exact ⟨first, hfirst, hm'.trans (congrArg some (hsame c))⟩
      · rename_i hne
        obtain ⟨first, hfirst, hlater⟩ := h.changed other signature hlast
        have kept : t'.file? other = s.tree.file? other :=
          same.file?_eq fun heq => by simp [heq] at hne
        refine ⟨first, hfirst, ?_⟩
        rw [FileTree.manifest?, kept]
        exact hlater
  · rw [hrun]
    exact h

/-- From one call to the next, it holds after any number of calls. -/
theorem foldl (h : Since t s) {calls : List SignatureCall}
    (faithful : ∀ c ∈ calls, ∀ l m, t.manifest? l = some m → (c.rewritten m).toValue.ReadsBack) :
    Since t (calls.foldl SignatureRun.step s) := by
  induction calls generalizing s with
  | nil => exact h
  | cons c calls ih =>
    obtain ⟨first, others⟩ := List.forall_mem_cons.1 faithful
    exact ih (h.step first) others

theorem modelInfo (h : Since t s) {r : Resolver} {uri : String} {l : Location}
    {signature : Signature} (hplace : r.manifestPlace t uri = .ok l)
    (hlast : s.last? l = some signature) :
    ∃ info, r.modelInfo s.tree uri = .ok info ∧ info.signature? = .ok (some signature) := by
  obtain ⟨m, -, hm⟩ := h.changed l signature hlast
  have hplace' := (Resolver.manifestPlace_eq h.alike r uri).trans hplace
  exact ⟨_, Resolver.modelInfo_of_manifest? hplace' hm,
    SignatureCall.signature?_rewritten ⟨r, uri, signature⟩ m uri⟩

end Since

/-- Every call of a run succeeds with one manifest rewritten or fails without a change. After the
run, the manifests on which no signature was set, and all other files, are as they were; each other
manifest differs from what it was in its signature only, which is the one that was last set on it;
and this signature is reported of the model at every URI that leads there. -/
theorem ofCalls_sound {t : FileTree} {calls : List SignatureCall}
    (faithful : ∀ c ∈ calls, ∀ l m, t.manifest? l = some m → (c.rewritten m).toValue.ReadsBack) :
    (∀ before c after, calls = before ++ c :: after → c.Sound (ofCalls t before).tree) ∧
    (∀ l, (ofCalls t calls).last? l = none → (ofCalls t calls).tree.file? l = t.file? l) ∧
    (∀ l signature, (ofCalls t calls).last? l = some signature → ∃ m, t.manifest? l = some m ∧
      (ofCalls t calls).tree.manifest? l = some { m with signature := some signature.toTexts }) ∧
    ∀ (r : Resolver) (uri : String) (l : Location) (signature : Signature),
      r.manifestPlace t uri = .ok l → (ofCalls t calls).last? l = some signature →
        ∃ info, r.modelInfo (ofCalls t calls).tree uri = .ok info ∧
          info.signature? = .ok (some signature) := by
  have since : Since t (ofCalls t calls) := (Since.start t).foldl faithful
  refine ⟨fun before c after hcalls => ?_, since.untouched, since.changed,
    fun r uri l signature => since.modelInfo⟩
  have earlier : Since t (ofCalls t before) := (Since.start t).foldl fun c' hc' =>
    faithful c' (hcalls ▸ List.mem_append_left _ hc')
  exact c.sound _ (earlier.faithful
    (faithful c (hcalls ▸ List.mem_append_right _ List.mem_cons_self)))

/-- A manifest whose signature is no JSON, with an unknown member. -/
def sampleManifest : Manifest :=
  { Manifest.empty with signature := some ⟨"[", none⟩, extra := .ofList [("owner", .null)] }

def sampleText : String := "signature:\n  inputs: '['\nowner: null\n"

/-- A tree with one model, whose directory is the root. -/
def sampleTree : FileTree := ⟨.directory [(manifestName, .file sampleText.toUTF8)], [], rfl, rfl⟩

/-- The signature without columns, for that model. -/
def sampleCall : SignatureCall := ⟨.ofRuns ⟨⟨"runs"⟩⟩, ".", ⟨⟨[], by decide, by decide⟩, none⟩⟩

theorem eq_of_file?_sampleTree {l : Location} {bytes : ByteArray}
    (h : sampleTree.file? l = some bytes) : bytes = sampleText.toUTF8 := by
  have hget := FileTree.file?_eq_some.1 h
  cases l with
  | nil => cases hget
  | cons name rest =>
    have hchild : (FileNode.child? sampleTree.root name >>= fun n => n.get? rest) =
        some (.file bytes) := hget
    rw [sampleTree, FileNode.child?, List.lookup_cons] at hchild
    split at hchild
    · cases rest with
      | nil => exact (FileNode.file.inj (Option.some.inj hchild)).symm
      | cons next rest => cases hchild
    · cases hchild

/-- The manifest that the call writes. -/
def sampleWritten : String := "flavors: \x7b\x7d\nsignature:\n  inputs: '[]'\nowner: null\n"

theorem sample_runs : (Manifest.ofText sampleText).toOption = some sampleManifest ∧
    (sampleCall.rewritten sampleManifest).toValue.toText.toOption = some sampleWritten ∧
    (Yaml.Value.ofText sampleWritten).toOption =
      some (sampleCall.rewritten sampleManifest).toValue ∧
    (sampleCall.resolver.manifestPlace sampleTree ".").toOption = some [manifestName] ∧
    (ofCalls sampleTree [sampleCall]).last? [manifestName] = some sampleCall.signature := by
  decide +kernel

theorem eq_sampleManifest {l : Location} {m : Manifest} (h : sampleTree.manifest? l = some m) :
    m = sampleManifest := by
  obtain ⟨bytes, text, hfile, hdecode, hm⟩ := FileTree.manifest?_eq_some.1 h
  rw [eq_of_file?_sampleTree hfile, Text.decodeUtf8_toUTF8] at hdecode
  obtain rfl := Except.ok.inj hdecode
  exact Except.ok.inj (hm.symm.trans (eq_ok_of_toOption sample_runs.1))

theorem sample_faithful : ∀ c ∈ [sampleCall], ∀ l m, sampleTree.manifest? l = some m →
    (c.rewritten m).toValue.ReadsBack := by
  intro c hc l m hm text h
  obtain ⟨-, written, read, -⟩ := sample_runs
  obtain rfl := List.mem_singleton.1 hc
  obtain rfl := eq_sampleManifest hm
  obtain rfl := Except.ok.inj ((eq_ok_of_toOption written).symm.trans h)
  exact eq_ok_of_toOption read

theorem ofCalls_sample : (ofCalls sampleTree [sampleCall]).last? [manifestName] =
      some sampleCall.signature ∧
    ∃ info, sampleCall.resolver.modelInfo (ofCalls sampleTree [sampleCall]).tree "." = .ok info ∧
      info.signature? = .ok (some sampleCall.signature) := by
  obtain ⟨-, -, -, place, last⟩ := sample_runs
  exact ⟨last, (ofCalls_sound sample_faithful).2.2.2 _ _ _ _ (eq_ok_of_toOption place) last⟩

end SignatureRun

end ModelShelf
