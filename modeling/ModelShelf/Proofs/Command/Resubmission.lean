import ModelShelf.Command.Run
import ModelShelf.Proofs.Files.Spellings
import ModelShelf.Proofs.Json.Indented
import ModelShelf.Proofs.Manifest.UnknownMembers
import ModelShelf.Proofs.Store.Records
import ModelShelf.Proofs.Store.Routes
import ModelShelf.Proofs.Store.SetSignature

/-!
A signature that is shown, stored in a file and set again. What is shown is read as the signature
that the manifest has, however its texts are spelled; to set it writes these texts anew, and from
then on nothing changes. It fails only where the manifest holds a value that cannot be written.
-/

namespace ModelShelf

/-- The JSON of texts over several lines is read as these texts. -/
theorem Signature.ofJsonText_pretty (texts : SignatureTexts) :
    ofJsonText (Session.pretty texts.toJson ++ "\n") = ofTexts texts := by
  obtain ⟨members, hobject, hsorted, strings⟩ := texts.toJson_eq_object
  rw [Session.pretty, ofJsonText, hobject, Json.Reader.parse_indented strings, hsorted, ← hobject]
  show ofJson texts.toJson = _
  rw [ofJson, textsOfJson_toJson]
  rfl

namespace Resolver

variable {r : Resolver} {t t' : FileTree} {uri : String} {l : Location} {m : Manifest}

/-- A URI leads to the same manifest in a tree that has grown, if the artifacts of its run are still
found where they were. -/
theorem manifestPlace_of_grows {changed : Location → Prop} (h : FileTree.Grows changed t t')
    (run : ∀ runId path, ModelUri.parse uri = .ok (.run runId path) →
      r.runs.artifactUri t' runId = r.runs.artifactUri t runId)
    (hplace : r.manifestPlace t uri = .ok l) : r.manifestPlace t' uri = .ok l := by
  obtain ⟨parsed, repository, g, hparsed, hrepository, htarget, rfl⟩ := manifestPlace_eq_ok.1 hplace
  have same : r.resolve t' parsed = r.resolve t parsed := by
    cases parsed with
    | run runId path => rw [resolve, resolve, run runId path hparsed]
    | _ => rfl
  exact manifestPlace_eq_ok.2
    ⟨parsed, repository, g, hparsed, same.trans hrepository, h.target htarget, rfl⟩

/-- What leads to a manifest is no URI of a registry. -/
theorem stripScheme?_of_manifestPlace (hplace : r.manifestPlace t uri = .ok l) :
    ModelUri.stripScheme? ModelUri.registryScheme uri.toList = none := by
  rw [ModelUri.stripScheme?_eq_none]
  intro registry
  obtain ⟨parsed, repository, -, hparsed, hrepository, -⟩ := manifestPlace_eq_ok.1 hplace
  obtain ⟨e, herror⟩ | ⟨name, reference, hok⟩ := parse_of_registry registry
  · cases herror.symm.trans hparsed
  · obtain rfl := Except.ok.inj (hok.symm.trans hparsed)
    cases hrepository

/-- Setting the signature of a model writes its manifest with the signature, if that can be
written. -/
theorem setSignature_eq (hplace : r.manifestPlace t uri = .ok l) (hm : t.manifest? l = some m)
    (signature : Signature) : r.setSignature uri signature t =
      match (m.setSignature (some signature)).toText with
      | .ok text => .ok () (t.put l (.file text.toUTF8))
      | .error e => .error e t := by
  have notRegistry := stripScheme?_of_manifestPlace hplace
  obtain ⟨parsed, repository, g, hparsed, hrepository, htarget, rfl⟩ := manifestPlace_eq_ok.1 hplace
  have hmanifest := Manifest.ofRepository_eq_ok.2 ⟨g, htarget, hm⟩
  obtain ⟨bytes, _, hfile, -, -⟩ := FileTree.manifest?_eq_some.1 hm
  rw [setSignature, notRegistry]
  simp only [Option.isSome_none, Bool.false_eq_true, ↓reduceIte, Change.ofResult_bind, hparsed,
    Change.get_bind, hrepository, hmanifest]
  cases (m.setSignature (some signature)).toText with
  | error e => rfl
  | ok text => exact Repository.write_eq htarget hfile text.toUTF8

end Resolver

namespace Session

variable {s : Session} {r : Resolver} {uri : String} {l : Location} {m : Manifest}
  {signature : Signature}

/-- The session on other files. -/
def withFiles (s : Session) (files : FileTree) : Session := { s with files := files }

/-- The signature of a model is shown as JSON, stored in a file, and set from the file. -/
structure Resubmits (s : Session) (r : Resolver) (uri : String) (file : Path) (stored : FileTree)
    (report : Report) (after : FileTree) : Prop where
  written : ∃ output, s.showSignature r uri true = .ok ⟨output, none⟩ ∧
    s.files.write file output.toUTF8 = .ok stored
  set : (s.withFiles stored).setSignature r uri file = (report, after)

theorem resubmits_of_write {output : String} {file : Path} {stored : FileTree}
    (shown : s.showSignature r uri true = .ok ⟨output, none⟩)
    (written : s.files.write file output.toUTF8 = .ok stored) :
    s.Resubmits r uri file stored ((s.withFiles stored).setSignature r uri file).1
      ((s.withFiles stored).setSignature r uri file).2 :=
  ⟨⟨output, shown, written⟩, rfl⟩

/-- What was stored touched neither a manifest nor the record of the run that a URI may name. -/
structure Apart (s : Session) (r : Resolver) (uri : String) (l : Location) (stored : FileTree) :
    Prop where
  manifest : stored.file? l = s.files.file? l
  run : ∀ runId path, ModelUri.parse uri = .ok (.run runId path) →
    r.runs.artifactUri stored runId = r.runs.artifactUri s.files runId

/-- A file of its own is apart if it is no record of the run. -/
theorem apart_of_write {file : Path} {contents : ByteArray} {stored : FileTree}
    {g : FileTree.Target} (hplace : r.manifestPlace s.files uri = .ok l)
    (hg : s.files.target file = .ok g) (written : s.files.write file contents = .ok stored)
    (elsewhere : g.place ≠ l)
    (record : ∀ runId path, ModelUri.parse uri = .ok (.run runId path) →
      Path.Plain runId ∧ ¬ g.place.IsRecord runId) : s.Apart r uri l stored := by
  obtain ⟨g', hg', notDirectory, rfl⟩ := FileTree.write_eq_ok written
  obtain rfl := Except.ok.inj (hg.symm.trans hg')
  have grown := FileTree.grows_put_file contents notDirectory
  refine ⟨grown.file?_eq elsewhere.symm, fun runId path hparse => ?_⟩
  obtain ⟨parsed, _, _, hparsed, hrepository, -⟩ := Resolver.manifestPlace_eq_ok.1 hplace
  obtain rfl := Except.ok.inj (hparse.symm.trans hparsed)
  obtain ⟨root, huri, -⟩ := bind_eq_ok.1 hrepository
  obtain ⟨plain, notRecord⟩ := record runId path hparse
  rw [huri]
  exact RunStore.artifactUri_of_grows grown (fun other hother => hother ▸ notRecord) plain huri

theorem exists_texts (decodes : m.signature? = .ok (some signature)) :
    ∃ texts, m.signature = some texts ∧ Signature.ofTexts texts = .ok signature := by
  rw [Manifest.signature?, SignatureTexts.decode?] at decodes
  cases htexts : m.signature with
  | none =>
    rw [htexts] at decodes
    cases decodes
  | some texts =>
    rw [htexts, Option.mapM_some] at decodes
    obtain ⟨found, hfound, hsome⟩ := bind_eq_ok.1 decodes
    obtain rfl := Option.some.inj (Except.ok.inj hsome)
    exact ⟨texts, rfl, hfound⟩

theorem showSignature_eq (hplace : r.manifestPlace s.files uri = .ok l)
    (hm : s.files.manifest? l = some m) {texts : SignatureTexts}
    (htexts : m.signature = some texts) :
    s.showSignature r uri true = .ok ⟨pretty texts.toJson ++ "\n", none⟩ := by
  have hinfo := Resolver.modelInfo_of_manifest? hplace hm
  have line (text : String) : Report.ofLines [text] = ⟨text ++ "\n", none⟩ := by
    simp [Report.ofLines, String.join]
  rw [showSignature, hinfo]
  simp only [within, Except.mapError, bind, Except.bind, Manifest.info, htexts, textsJson,
    ↓reduceIte, line]
  rfl

/-- What a resubmission reports and leaves: the manifest with new texts of its signature, or the
failure to write it. -/
theorem Resubmits.outcome {file : Path} {stored after : FileTree} {report : Report}
    (h : s.Resubmits r uri file stored report after) (apart : s.Apart r uri l stored)
    (hplace : r.manifestPlace s.files uri = .ok l) (hm : s.files.manifest? l = some m)
    (decodes : m.signature? = .ok (some signature)) :
    r.manifestPlace stored uri = .ok l ∧ stored.manifest? l = some m ∧
    (report, after) = match (m.setSignature (some signature)).toText with
      | .ok text => (.ofLines [s.palette.done "Updated" ++ " signature of " ++ uri],
          stored.put l (.file text.toUTF8))
      | .error e => (.failed (.within ("Failed to set signature on " ++ uri) e), stored) := by
  obtain ⟨texts, htexts, hsignature⟩ := exists_texts decodes
  obtain ⟨output, hshown, hwritten⟩ := h.written
  obtain rfl : pretty texts.toJson ++ "\n" = output :=
    congrArg Report.output (Except.ok.inj ((showSignature_eq hplace hm htexts).symm.trans hshown))
  obtain ⟨g, -, notDirectory, hput⟩ := FileTree.write_eq_ok hwritten
  have grown : FileTree.Grows (· = g.place) s.files stored :=
    hput ▸ FileTree.grows_put_file _ notDirectory
  have hplace' := Resolver.manifestPlace_of_grows grown apart.run hplace
  have hm' : stored.manifest? l = some m := by
    rw [FileTree.manifest?, apart.manifest]
    exact hm
  refine ⟨hplace', hm', ?_⟩
  have hfile : signatureFile (s.withFiles stored) file = .ok signature := by
    rw [signatureFile]
    simp only [withFiles, FileTree.readText_of_write hwritten]
    simp only [Except.mapError, bind, Except.bind, within, Signature.ofJsonText_pretty, hsignature]
  rw [← h.set, setSignature, hfile]
  simp only [withFiles, EStateM.run, Resolver.setSignature_eq hplace' hm' signature]
  cases (m.setSignature (some signature)).toText <;> rfl

/-- What a resubmission leaves that succeeds: the manifest with new texts of the signature that it
had. To do the same once more keeps the bytes of the manifest. -/
structure Settled (s : Session) (r : Resolver) (uri : String) (l : Location) (m : Manifest)
    (signature : Signature) (stored : FileTree) (report : Report) (after : FileTree) : Prop where
  succeeds : report = .ofLines [s.palette.done "Updated" ++ " signature of " ++ uri]
  manifest : after.manifest? l = some { m with signature := some signature.toTexts }
  decodes : Manifest.signature? { m with signature := some signature.toTexts } =
    .ok (some signature)
  others : ∀ other, other ≠ l → after.file? other = stored.file? other
  shown : ∃ output, (s.withFiles after).showSignature r uri true = .ok ⟨output, none⟩
  again : ∀ file' stored' report' after',
    (s.withFiles after).Resubmits r uri file' stored' report' after' →
      (s.withFiles after).Apart r uri l stored' →
        report' = report ∧ after'.file? l = after.file? l

/-- Where the manifest can be written, a resubmission settles its signature. -/
theorem Resubmits.settled {file : Path} {stored after : FileTree} {report : Report}
    (h : s.Resubmits r uri file stored report after) (apart : s.Apart r uri l stored)
    (hplace : r.manifestPlace s.files uri = .ok l) (hm : s.files.manifest? l = some m)
    (decodes : m.signature? = .ok (some signature))
    (faithful : (m.setSignature (some signature)).toValue.ReadsBack) {text : String}
    (written : (m.setSignature (some signature)).toText = .ok text) :
    s.Settled r uri l m signature stored report after := by
  obtain ⟨hplace₁, hm₁, hout⟩ := h.outcome apart hplace hm decodes
  rw [written] at hout
  obtain ⟨rfl, rfl⟩ := Prod.mk.inj hout
  obtain ⟨bytes, _, hfile, -, -⟩ := FileTree.manifest?_eq_some.1 hm₁
  have same : FileTree.SameBut (· = l) stored (stored.put l (.file text.toUTF8)) :=
    FileTree.sameBut_put hfile _
  have hplace₂ : r.manifestPlace (stored.put l (.file text.toUTF8)) uri = .ok l := by
    rw [Resolver.manifestPlace_eq (same.mono fun other hother =>
      hother ▸ Resolver.isManifest_of_manifestPlace hplace₁), hplace₁]
  have hm₂ := Resolver.manifest?_put hm₁ faithful written
  have decodes₂ : (m.setSignature (some signature)).signature? = .ok (some signature) :=
    SignatureCall.signature?_rewritten ⟨r, uri, signature⟩ m uri
  refine ⟨rfl, hm₂, decodes₂, fun other hother => same.file?_eq hother,
    ⟨_, showSignature_eq (s := s.withFiles _) hplace₂ hm₂ rfl⟩,
    fun file' stored' report' after' h' apart' => ?_⟩
  -- The manifest has the texts already that are written to it once more.
  obtain ⟨-, hm₃, hout'⟩ := h'.outcome apart' hplace₂ hm₂ decodes₂
  have written' : ((m.setSignature (some signature)).setSignature (some signature)).toText =
      .ok text := written
  rw [written'] at hout'
  obtain ⟨rfl, rfl⟩ := Prod.mk.inj hout'
  obtain ⟨bytes', _, hfile', -, -⟩ := FileTree.manifest?_eq_some.1 hm₃
  exact ⟨rfl, (FileTree.file?_put_self hfile' _).trans (FileTree.file?_put_self hfile _).symm⟩

/-- The signature of a model is shown as JSON if it decodes. To set what was shown, from a file of
its own, keeps the signature and all else that the manifest says if the manifest can be written, and
from then on it keeps its bytes. Otherwise it fails and changes nothing. -/
theorem resubmission_settles (hplace : r.manifestPlace s.files uri = .ok l)
    (hm : s.files.manifest? l = some m) (decodes : m.signature? = .ok (some signature))
    (faithful : (m.setSignature (some signature)).toValue.ReadsBack) :
    (∃ output, s.showSignature r uri true = .ok ⟨output, none⟩) ∧
    ∀ file stored report after, s.Resubmits r uri file stored report after →
      s.Apart r uri l stored →
        (m.toValue.isWritable = true → s.Settled r uri l m signature stored report after) ∧
        (m.toValue.isWritable = false → after = stored ∧ ∃ message, report =
          .failed (.within ("Failed to set signature on " ++ uri) (.serialization message))) := by
  obtain ⟨texts, htexts, -⟩ := exists_texts decodes
  refine ⟨⟨_, showSignature_eq hplace hm htexts⟩, fun file stored report after h apart => ?_⟩
  rw [← m.isWritable_setSignature (some signature)]
  obtain ⟨writable, text, written⟩ | ⟨notWritable, message, fault⟩ :=
    (m.setSignature (some signature)).toText_cases
  · refine ⟨fun _ => h.settled apart hplace hm decodes faithful written, fun notWritable => ?_⟩
    cases writable.symm.trans notWritable
  · refine ⟨fun writable => (nomatch writable.symm.trans notWritable), fun _ => ?_⟩
    obtain ⟨-, -, hout⟩ := h.outcome apart hplace hm decodes
    rw [fault] at hout
    obtain ⟨rfl, rfl⟩ := Prod.mk.inj hout
    exact ⟨rfl, message, rfl⟩

/-- A tree with one model, among the artifacts of a run. -/
def shownTree (manifest : String) : FileTree :=
  ⟨.directory [("runs", .directory [("0", .directory [("abc", .directory [(RunStore.recordName,
    .file ("run_id: abc\nexperiment_id: '0'\nartifact_uri: runs/0/abc/artifacts\n" ++
      "start_time: 1970-01-01T00:00:00Z\n").toUTF8), (RunStore.artifactsName, .directory
    [("m", .directory [(manifestName, .file manifest.toUTF8)])])])])])], [], rfl, rfl⟩

def shownPlace : Location := ["runs", "0", "abc", "artifacts", "m", manifestName]

/-- The URI of the model by its run, and by its directory. -/
def shownUri : String := "runs:/abc/m"
def shownDirectory : String := "runs/0/abc/artifacts/m"

def shownResolver : Resolver := .ofRuns ⟨⟨"runs"⟩⟩

/-- A session on that tree, without colours. -/
def shownSession (manifest : String) : Session := ⟨⟨false⟩, .builtin, shownTree manifest⟩

/-- A manifest whose signature has a list in the place of an object. -/
def oldManifest : Manifest :=
  { Manifest.empty with
    signature := some ⟨"[[\"long\"]]", none⟩
    extra := .ofList [("owner", .null)] }

def oldText : String := "signature:\n  inputs: '[[\"long\"]]'\nowner: null\n"

def oldSignature : Signature := ⟨⟨[.column ⟨.long, none⟩], by decide, by decide⟩, none⟩

/-- What is shown of that signature, and the manifest that is written for it. -/
def oldShown : String := "\x7b\n  \"inputs\": \"[[\\\"long\\\"]]\"\n\x7d\n"
def oldWritten : String :=
  "flavors: \x7b\x7d\nsignature:\n  inputs: '[\x7b\"type\": \"long\", \"name\": null\x7d]'\n" ++
    "owner: null\n"

/-- A manifest with a signature and with a value that cannot be written. -/
def keyManifest : Manifest :=
  { Manifest.empty with
    signature := some ⟨"[[\"binary\"]]", none⟩
    extra := .ofList [("custom",
      .mapping [(.mapping [(.string "a", .string "b")], .string "c")])] }

def keyText : String :=
  "signature:\n  inputs: '[[\"binary\"]]'\ncustom:\n  ? \x7ba: b\x7d\n  : c\n"

def keySignature : Signature := ⟨⟨[.column ⟨.binary, none⟩], by decide, by decide⟩, none⟩

/-- The place of the run's record, and the tree with what is shown stored there. -/
def shownRecord : Location := ["runs", "0", "abc", RunStore.recordName]
def recordless : FileTree := (shownTree oldText).put shownRecord (.file oldShown.toUTF8)

theorem shown_runs :
    (ModelUri.parse shownUri).toOption = some (.run "abc" "m") ∧
    (shownResolver.manifestPlace (shownTree oldText) shownUri).toOption = some shownPlace ∧
    (ModelUri.parse shownDirectory).toOption = some (.directory ⟨shownDirectory⟩) ∧
    (shownResolver.manifestPlace (shownTree oldText) shownDirectory).toOption = some shownPlace ∧
    (Manifest.ofText oldText).toOption = some oldManifest ∧
    oldManifest.signature?.toOption = some (some oldSignature) ∧
    (oldManifest.setSignature (some oldSignature)).toValue.toText.toOption = some oldWritten ∧
    (Yaml.Value.ofText oldWritten).toOption =
      some (oldManifest.setSignature (some oldSignature)).toValue ∧
    oldManifest.toValue.isWritable = true ∧
    oldManifest.extra.names = ["owner"] ∧
    (Manifest.ofText keyText).toOption = some keyManifest ∧
    keyManifest.signature?.toOption = some (some keySignature) ∧
    keyManifest.toValue.isWritable = false ∧
    (((shownSession oldText).withFiles recordless).setSignature shownResolver shownUri
      shownRecord.path).1.failure.isSome = true ∧
    ((((shownSession oldText).withFiles (shownTree oldShown)).setSignature shownResolver
      shownDirectory shownPlace.path).2.manifest? shownPlace).map (fun m => m.extra.names) =
        some ["inputs"] := by
  decide +kernel

theorem manifest?_shownTree {text : String} {m : Manifest}
    (h : (Manifest.ofText text).toOption = some m) :
    (shownTree text).manifest? shownPlace = some m :=
  FileTree.manifest?_eq_some.2
    ⟨text.toUTF8, text, rfl, Text.decodeUtf8_toUTF8 text, eq_ok_of_toOption h⟩

/-- The URI leads to the manifest whatever it holds. -/
theorem manifestPlace_shownTree (text : String) :
    shownResolver.manifestPlace (shownTree text) shownUri = .ok shownPlace := by
  have alike : FileTree.SameButManifests (shownTree oldText) (shownTree text) :=
    (FileTree.sameBut_put (l := shownPlace) (t := shownTree oldText) rfl text.toUTF8).mono
      fun l hl => hl ▸ rfl
  rw [Resolver.manifestPlace_eq alike]
  exact eq_ok_of_toOption shown_runs.2.1

/-- A file beside the runs can be written, and it is apart. -/
theorem exists_stored (manifest output : String) :
    ∃ stored, (shownTree manifest).write ⟨"shown.json"⟩ output.toUTF8 = .ok stored ∧
      (shownSession manifest).Apart shownResolver shownUri shownPlace stored := by
  have target : (shownTree manifest).target ⟨"shown.json"⟩ =
    .ok ⟨["shown.json"], false, true⟩ := rfl
  have written : (shownTree manifest).write ⟨"shown.json"⟩ output.toUTF8 =
      .ok ((shownTree manifest).put ["shown.json"] (.file output.toUTF8)) := rfl
  refine ⟨_, written,
    apart_of_write (manifestPlace_shownTree manifest) target written (by decide) ?_⟩
  intro runId path hparse
  obtain ⟨rfl, rfl⟩ := ModelUri.run.inj
    (Except.ok.inj ((eq_ok_of_toOption shown_runs.1).symm.trans hparse))
  refine ⟨⟨by decide, by decide, by decide⟩, fun record => ?_⟩
  exact absurd record.length_le (by decide)

theorem resubmission_settles_old : ∃ stored report after,
      (shownSession oldText).Resubmits shownResolver shownUri ⟨"shown.json"⟩ stored report after ∧
      (shownSession oldText).Apart shownResolver shownUri shownPlace stored ∧
      (shownSession oldText).Settled shownResolver shownUri shownPlace oldManifest oldSignature
        stored report after := by
  obtain ⟨-, -, -, -, hm, decodes, written, read, writable, -⟩ := shown_runs
  obtain ⟨⟨output, shown⟩, settles⟩ := resubmission_settles (s := shownSession oldText)
    (manifestPlace_shownTree oldText) (manifest?_shownTree hm) (eq_ok_of_toOption decodes)
    (readsBack_of_toOption written read)
  obtain ⟨stored, hstored, apart⟩ := exists_stored oldText output
  have resubmits := resubmits_of_write shown hstored
  exact ⟨stored, _, _, resubmits, apart, (settles _ _ _ _ resubmits apart).1 writable⟩

/-- Whether each signature that decodes is settled by a resubmission that meets a condition. -/
def SettlesIf (condition : Session → Resolver → String → Location → Manifest → FileTree → Prop) :
    Prop :=
  ∀ (s : Session) (r : Resolver) (uri : String) (l : Location) (m : Manifest)
    (signature : Signature), r.manifestPlace s.files uri = .ok l →
      s.files.manifest? l = some m → m.signature? = .ok (some signature) →
        (m.setSignature (some signature)).toValue.ReadsBack →
          ∀ file stored report after, s.Resubmits r uri file stored report after →
            condition s r uri l m stored → s.Settled r uri l m signature stored report after

theorem SettlesIf.mono
    {condition other : Session → Resolver → String → Location → Manifest → FileTree → Prop}
    (h : SettlesIf condition)
    (himp : ∀ s r uri l m stored, other s r uri l m stored → condition s r uri l m stored) :
    SettlesIf other := by
  intro s r uri l m signature hplace hm decodes faithful file stored report after resubmits
    hother
  exact h s r uri l m signature hplace hm decodes faithful file stored report after resubmits
    (himp s r uri l m stored hother)

/-- It is not enough that the file is apart: a value that cannot be written stops the call. -/
theorem not_settlesIf_apart : ¬ SettlesIf fun s r uri l _ stored => s.Apart r uri l stored := by
  intro settles
  obtain ⟨-, -, -, -, -, -, -, -, -, -, hm, decodes, notWritable, -⟩ := shown_runs
  have hplace := manifestPlace_shownTree keyText
  have hm := manifest?_shownTree hm
  have decodes := eq_ok_of_toOption decodes
  rw [← keyManifest.isWritable_setSignature (some keySignature)] at notWritable
  obtain ⟨writable, -⟩ | ⟨-, message, fault⟩ :=
    (keyManifest.setSignature (some keySignature)).toText_cases
  · cases writable.symm.trans notWritable
  have faithful : (keyManifest.setSignature (some keySignature)).toValue.ReadsBack := by
    intro text written
    rw [Manifest.toText, written] at fault
    cases fault
  have shown := showSignature_eq (s := shownSession keyText) hplace hm rfl
  obtain ⟨stored, hstored, apart⟩ := exists_stored keyText _
  have resubmits := resubmits_of_write shown hstored
  have settled := settles (shownSession keyText) shownResolver shownUri shownPlace keyManifest
    keySignature hplace hm decodes faithful _ _ _ _ resubmits apart
  obtain ⟨-, -, hout⟩ := resubmits.outcome apart hplace hm decodes
  rw [fault] at hout
  have failure := congrArg (fun result => result.1.failure) hout
  have noFailure := congrArg Report.failure settled.succeeds
  cases failure.symm.trans noFailure

/-- Nor that the file is not the manifest: it may be the record of the run. -/
theorem not_settlesIf_manifest : ¬ SettlesIf fun s _ _ l m stored =>
    m.toValue.isWritable = true ∧ stored.file? l = s.files.file? l := by
  intro settles
  obtain ⟨-, -, -, -, hm, decodes, written, read, writable, -, -, -, -, failed, -⟩ := shown_runs
  have hplace := manifestPlace_shownTree oldText
  have hm := manifest?_shownTree hm
  have shown := showSignature_eq (s := shownSession oldText) hplace hm rfl
  have hstored : (shownTree oldText).write shownRecord.path oldShown.toUTF8 = .ok recordless := rfl
  have kept : recordless.file? shownPlace = (shownTree oldText).file? shownPlace :=
    (FileTree.sameBut_put (t := shownTree oldText) (l := shownRecord) rfl _).file?_eq (by decide)
  have settled := settles (shownSession oldText) shownResolver shownUri shownPlace oldManifest
    oldSignature hplace hm (eq_ok_of_toOption decodes) (readsBack_of_toOption written read)
    _ _ _ _ (resubmits_of_write shown hstored) ⟨writable, kept⟩
  rw [settled.succeeds] at failed
  cases failed

/-- Nor that it is no record of the run: it may be the manifest. -/
theorem not_settlesIf_run : ¬ SettlesIf fun s r uri _ m stored =>
    m.toValue.isWritable = true ∧ ∀ runId path, ModelUri.parse uri = .ok (.run runId path) →
      r.runs.artifactUri stored runId = r.runs.artifactUri s.files runId := by
  intro settles
  obtain ⟨-, -, hparse, hplace, hm, decodes, written, read, writable, names, -, -, -, -,
    overwritten⟩ := shown_runs
  have hplace := eq_ok_of_toOption hplace
  have hm := manifest?_shownTree hm
  have shown := showSignature_eq (s := shownSession oldText) hplace hm rfl
  have hstored : (shownTree oldText).write shownPlace.path oldShown.toUTF8 =
    .ok (shownTree oldShown) := rfl
  have settled := settles (shownSession oldText) shownResolver shownDirectory shownPlace oldManifest
    oldSignature hplace hm (eq_ok_of_toOption decodes) (readsBack_of_toOption written read)
    _ _ _ _ (resubmits_of_write shown hstored)
    ⟨writable, fun runId path hrun => nomatch (eq_ok_of_toOption hparse).symm.trans hrun⟩
  rw [settled.manifest] at overwritten
  exact absurd (names.symm.trans (Option.some.inj overwritten)) (by decide)

theorem resubmission_unsettled : ¬ SettlesIf (fun _ _ _ _ _ _ => True) ∧
    ¬ SettlesIf (fun s r uri l _ stored => s.Apart r uri l stored) ∧
    ¬ SettlesIf (fun s _ _ l m stored =>
      m.toValue.isWritable = true ∧ stored.file? l = s.files.file? l) ∧
    ¬ SettlesIf (fun s r uri _ m stored =>
      m.toValue.isWritable = true ∧ ∀ runId path, ModelUri.parse uri = .ok (.run runId path) →
        r.runs.artifactUri stored runId = r.runs.artifactUri s.files runId) :=
  ⟨fun settles => not_settlesIf_apart (settles.mono fun _ _ _ _ _ _ _ => trivial),
    not_settlesIf_apart, not_settlesIf_manifest, not_settlesIf_run⟩

end Session

end ModelShelf
