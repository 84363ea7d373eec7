import ModelShelf.Identifier
import ModelShelf.Proofs.Files.Names
import ModelShelf.Proofs.Files.Writing
import ModelShelf.Proofs.Store.Manifests
import ModelShelf.Proofs.Text.Quoted
import ModelShelf.Proofs.Time.RoundTrip

/-!
Records of runs. A run that is created under an identifier that is not in use has one record, from
which the place of its artifacts is read; and a run that is found stays found while the tree grows
and no record of this run changes.
-/

namespace ModelShelf

open Yaml (Value Node Route Read)
open Yaml.Read
open ModelShelf.Path (Plain isIdle)
open FileTree (OnlyDirectories Grows)

variable {t t' : FileTree}

/-! ### Identifiers -/

namespace Identifier

/-- A character that leads nowhere else in a path. -/
def IsNeutral (c : Char) : Prop := c ≠ '/' ∧ c ≠ '.' ∧ c ≠ '\\'

theorem isNeutral_digitChar : ∀ n < 16, IsNeutral (Nat.digitChar n) := by
  simp only [IsNeutral]
  decide

theorem isNeutral_of_mem_toDigits {n : Nat} {c : Char} (h : c ∈ Nat.toDigits 16 n) :
    IsNeutral c := by
  obtain ⟨d, hd, rfl⟩ := Text.exists_digitChar_of_mem (n := n) h
  exact isNeutral_digitChar d hd

theorem isNeutral_of_mem_ofRandom {bits : Nat} {c : Char} (h : c ∈ (ofRandom bits).toList) :
    IsNeutral c := by
  rw [ofRandom, String.toList_ofList] at h
  rcases List.mem_or_eq_of_mem_set h with h | rfl
  · rcases List.mem_or_eq_of_mem_set h with h | rfl
    · rcases List.mem_append.1 h with h | h
      · rw [List.eq_of_mem_replicate h]
        exact isNeutral_digitChar 0 (by decide)
      · exact isNeutral_of_mem_toDigits h
    · exact isNeutral_digitChar 4 (by decide)
  · exact isNeutral_digitChar _ (by omega)

theorem ofRandom_ne_empty (bits : Nat) : ofRandom bits ≠ "" := by
  intro h
  have hlength := congrArg String.length h
  rw [ofRandom, String.length_ofList, List.length_set, List.length_set, Text.hexPadded,
    List.length_append, List.length_replicate, String.length_empty] at hlength
  omega

theorem ofRandom_ne_of_mem {bits : Nat} {text : String} (hdot : '.' ∈ text.toList) :
    ofRandom bits ≠ text := by
  rintro rfl
  exact (isNeutral_of_mem_ofRandom hdot).2.1 rfl

/-- A random identifier is a name of an entry. -/
theorem plain_ofRandom (bits : Nat) : Plain (ofRandom bits) := by
  refine ⟨?_, ofRandom_ne_of_mem (by decide), fun hslash => ?_⟩
  · rw [isIdle, Bool.or_eq_false_iff]
    exact ⟨decide_eq_false (ofRandom_ne_empty bits),
      decide_eq_false (ofRandom_ne_of_mem (by decide))⟩
  · exact (isNeutral_of_mem_ofRandom hslash).1 rfl

theorem isRunId_ofRandom (bits : Nat) : RunStore.isRunId (ofRandom bits) = true := by
  have hslash : '/' ∉ (ofRandom bits).toList := fun h => (isNeutral_of_mem_ofRandom h).1 rfl
  have hback : '\\' ∉ (ofRandom bits).toList := fun h => (isNeutral_of_mem_ofRandom h).2.2 rfl
  have hup : ofRandom bits ≠ ".." := ofRandom_ne_of_mem (by decide)
  simp [RunStore.isRunId, ofRandom_ne_empty, hslash, hback, hup]

end Identifier

/-! ### Texts of records -/

namespace RunInfo

theorem membersAgree_names (run : RunInfo) :
    MembersAgree (fun _ => member) ⟨none, none, none, none⟩
      [(.string "run_id", .string run.runId), (.string "experiment_id", .string run.experimentId),
        (.string "artifact_uri", .string run.artifactUri)]
      ⟨some run.runId, some run.experimentId, some run.artifactUri, none⟩ :=
  .cons (agrees_text run.runId).once.map
    (.cons (agrees_text run.experimentId).once.map
      (.cons (agrees_text run.artifactUri).once.map .nil))

theorem agrees_instant {t : Time.Instant} (valid : t.IsValid) :
    Agrees (fun _ => instant) (.string t.toText) t := by
  refine ⟨fun h => ?_⟩
  obtain ⟨place, p, style, hfollow, -⟩ := scalar_of_value h
  refine yields_atNode.2 ⟨_, _, hfollow, ?_⟩
  simp only [Time.Instant.parse_toText valid]
  exact yields_pure.2 ⟨rfl, rfl⟩

theorem agrees_record {run : RunInfo} (valid : run.startTime.IsValid) :
    Agrees (fun depth route node => recordThen "struct RunInfo" depth route node
      (⟨none, none, none, none⟩ : Fields) (fun _ => member) ofFields) run.toValue run := by
  refine agrees_recordThen
    (run.membersAgree_names.append (.cons (agrees_instant valid).once.map .nil)) ?_
  exact yields_pure.2 ⟨rfl, rfl⟩

/-- A record is read from the text of its value. -/
theorem ofText_of_value {run : RunInfo} {text : String} (valid : run.startTime.IsValid)
    (h : Value.ofText text = .ok run.toValue) : ofText text = .ok run := by
  have hread : Yaml.read ofNode text = .ok run := (agrees_record valid).read h
  rw [ofText, hread]
  rfl

end RunInfo

/-! ### Finding runs -/

/-- A place where a record of a run may be, in a directory that is called like the run. -/
def Location.IsRecord (runId : String) (l : Location) : Prop :=
  [runId, RunStore.recordName] <:+ l

theorem Location.not_isRecord_of_isManifest {l : Location} (h : l.IsManifest) (runId : String) :
    ¬ l.IsRecord runId := by
  rintro ⟨base, rfl⟩
  have hlast : (base ++ [runId, RunStore.recordName]).getLast? = some RunStore.recordName := by simp
  exact absurd (Option.some.inj (h.symm.trans hlast)) (by decide)

theorem Location.IsRecord.eq {l : Location} {runId other : String} (h : l.IsRecord runId)
    (hother : l.IsRecord other) : runId = other := by
  obtain ⟨base, rfl⟩ := h
  obtain ⟨base', heq⟩ := hother
  have hback := List.append_inj_right' heq rfl
  exact (List.cons.inj hback).1.symm

namespace RunStore

/-- The record that a run has in an experiment. -/
def recordPath (store : RunStore) (experiment runId : String) : Path :=
  ((store.root.join experiment).join runId).join recordName

theorem find_eq_some {store : RunStore} {runId : String} {path : Path} :
    store.find t runId = .ok (some path) ↔ isRunId runId = true ∧ t.isDirectory store.root = true ∧
      ∃ experiments, t.list store.root = .ok experiments ∧
        (experiments.map fun experiment => store.recordPath experiment runId).find? t.isFile =
          some path := by
  rw [find]
  by_cases named : isRunId runId = true
  · by_cases there : t.isDirectory store.root = true
    · rw [if_neg (by simp [named]), if_neg (by simp [there])]
      simp only [named, there, true_and]
      constructor
      · intro h
        obtain ⟨experiments, hlist, h⟩ := bind_eq_ok.1 h
        exact ⟨experiments, eq_ok_of_mapError hlist, Except.ok.inj h⟩
      · rintro ⟨experiments, hlist, h⟩
        rw [hlist]
        exact congrArg Except.ok h
    · rw [if_neg (by simp [named]), if_pos (by simp [there])]
      simp [there, pure, Except.pure]
  · rw [if_pos (by simp [named])]
    simp [named]

theorem get_eq_ok {store : RunStore} {runId : String} {run : RunInfo} :
    store.get t runId = .ok run ↔ ∃ path text, store.find t runId = .ok (some path) ∧
      t.readText path = .ok text ∧ RunInfo.ofText text = .ok run := by
  rw [get]
  constructor
  · intro h
    obtain ⟨found, hfind, h⟩ := bind_eq_ok.1 h
    cases found with
    | none => cases h
    | some path =>
      obtain ⟨text, htext, h⟩ := bind_eq_ok.1 h
      exact ⟨path, text, hfind, eq_ok_of_mapError htext, h⟩
  · rintro ⟨path, text, hfind, htext, h⟩
    rw [hfind]
    simp only [bind, Except.bind, htext]
    exact h

/-- A record lies below a directory that is called like the run. -/
theorem placeOf_recordPath {store : RunStore} {experiment runId : String} (plain : Plain runId)
    (t : FileTree) : t.placeOf (store.recordPath experiment runId) =
      t.placeOf (store.root.join experiment) ++ [runId, recordName] := by
  rw [recordPath, FileTree.placeOf_join_plain plain_recordName, FileTree.placeOf_join_plain plain,
    List.append_assoc]
  rfl

theorem place_of_record {store : RunStore} {experiment runId : String} (plain : Plain runId)
    {g : FileTree.Target} (hg : t.target (store.recordPath experiment runId) = .ok g) :
    g.place = t.placeOf (store.root.join experiment) ++ [runId, recordName] :=
  (FileTree.place_of_target hg).trans (placeOf_recordPath plain t)

/-- The words of a record's path, and where it starts. -/
theorem words_recordPath (store : RunStore) (t : FileTree) {experiment runId : String}
    (plain : Plain runId) (relative : (Path.mk experiment).isAbsolute = false) :
    (store.recordPath experiment runId).words =
      store.root.words ++ ((Path.mk experiment).words ++ [runId]) ++ [recordName] ∧
    t.start (store.recordPath experiment runId) = t.start store.root := by
  constructor
  · rw [recordPath, (Path.join_of_plain plain_recordName _).1, (Path.join_of_plain plain _).1,
      (Path.join_of_relative relative).1, ← List.append_assoc]
  · rw [recordPath, FileTree.start_join plain_recordName.isRelative,
      FileTree.start_join plain.isRelative, FileTree.start_join relative]

theorem isRecord_of_record {store : RunStore} {experiment runId : String} (plain : Plain runId)
    {g : FileTree.Target} (hg : t.target (store.recordPath experiment runId) = .ok g) :
    g.place.IsRecord runId :=
  ⟨_, (place_of_record plain hg).symm⟩

/-! ### Creating runs -/

/-- Creating a run makes directories and then puts its record where none was before. -/
theorem create_eq_ok {store : RunStore} {experimentId runId : String} {now : Time.Instant}
    {run : RunInfo} (h : store.create experimentId runId now t = .ok run t') :
    run = ⟨runId, experimentId,
        (((store.root.join experimentId).join runId).join artifactsName).text, now⟩ ∧
      ∃ between record g, OnlyDirectories t between ∧ run.toText = .ok record ∧
        between.target (store.recordPath experimentId runId) = .ok g ∧
        (∀ entries, between.get? g.place ≠ some (.directory entries)) ∧
        t' = between.put g.place (.file record.toUTF8) := by
  rw [create] at h
  obtain ⟨_, between, hmake, hrest⟩ := Change.eq_ok_of_bind h
  obtain ⟨record, _, hrecord, hlast⟩ := Change.eq_ok_of_bind hrest
  obtain ⟨written, rfl⟩ := Change.eq_ok_of_ofResult hrecord
  obtain ⟨_, _, hwrite, hrun⟩ := Change.eq_ok_of_bind hlast
  obtain ⟨rfl, rfl⟩ := EStateM.Result.ok.inj hrun
  obtain ⟨e, herror⟩ | ⟨g, htarget, notDirectory, hok⟩ := Change.write_cases
    (store.recordPath experimentId runId) record.toUTF8 between
  · cases herror.symm.trans hwrite
  · obtain ⟨-, rfl⟩ := EStateM.Result.ok.inj (hok.symm.trans hwrite)
    exact ⟨rfl, between, record, g,
      Change.onlyDirectories_of_makeDirectories hmake, written, htarget, notDirectory, rfl⟩

/-- What a run that is created adds to the tree: its record, and directories. -/
theorem create_adds {store : RunStore} {experimentId runId : String} {now : Time.Instant}
    {run : RunInfo} (created : store.create experimentId runId now t = .ok run t') :
    ∃ record g, run.toText = .ok record ∧
      t'.target (store.recordPath experimentId runId) = .ok g ∧
      t'.file? g.place = some record.toUTF8 ∧ Grows (· = g.place) t t' := by
  obtain ⟨-, between, record, g, grown, written, htarget, notDirectory, rfl⟩ :=
    create_eq_ok created
  have put := FileTree.grows_put_file record.toUTF8 notDirectory
  exact ⟨record, g, written, put.target htarget,
    FileTree.file?_put_place htarget notDirectory record.toUTF8,
    (grown.mono fun _ => False.elim).trans put⟩

/-- Where no run had an identifier, the record that was added is the only one of it. -/
theorem eq_of_record {runId : String} {place l : Location} {bytes : ByteArray}
    (unused : ∀ l : Location, t.file? (l ++ [runId, recordName]) = none)
    (grown : Grows (· = place) t t') (h : t'.file? (l ++ [runId, recordName]) = some bytes) :
    l ++ [runId, recordName] = place := by
  refine Decidable.byContradiction fun elsewhere => ?_
  rw [grown.file?_eq elsewhere, unused] at h
  cases h

/-- A run that is created under an identifier that no run has is found by its own record. -/
theorem record_of_isFile {store : RunStore} {experimentId runId experiment : String}
    {now : Time.Instant} {run : RunInfo} (plain : Plain runId)
    (unused : ∀ l : Location, t.file? (l ++ [runId, recordName]) = none)
    (created : store.create experimentId runId now t = .ok run t')
    (hfile : t'.isFile (store.recordPath experiment runId) = true) :
    ∃ record, run.toText = .ok record ∧
      t'.readText (store.recordPath experiment runId) = .ok record := by
  obtain ⟨record, g, written, -, hrecord, grown⟩ := create_adds created
  obtain ⟨g', bytes, hg', hbytes⟩ := (FileTree.isFile_join plain_recordName).1 hfile
  have here : g'.place = g.place := by
    rw [place_of_record plain hg'] at hbytes ⊢
    exact eq_of_record unused grown hbytes
  rw [here, hrecord] at hbytes
  obtain rfl := Option.some.inj hbytes
  exact ⟨record, written, FileTree.readText_of_text
    (FileTree.read_join plain_recordName hg' (here ▸ hrecord))⟩

section Growth

variable {changed : Location → Prop} {store : RunStore} {runId : String}

/-- A record that is there after the tree has grown was there before. -/
theorem isFile_recordPath (h : Grows changed t t') (kept : ∀ l, changed l → ¬ l.IsRecord runId)
    {experiment : String} (plainExperiment : Plain experiment) (plain : Plain runId)
    (there : t.isDirectory store.root = true) :
    t'.isFile (store.recordPath experiment runId) =
      t.isFile (store.recordPath experiment runId) := by
  rw [Bool.eq_iff_iff]
  refine ⟨fun hfile => ?_, h.isFile⟩
  obtain ⟨g, bytes, hg, hfile⟩ := (FileTree.isFile_join plain_recordName).1 hfile
  rw [h.file?_eq fun allowed => kept _ allowed (isRecord_of_record plain hg)] at hfile
  rw [FileTree.isDirectory] at there
  split at there
  · rename_i l entries hroot
    obtain ⟨hwords, hstart⟩ := words_recordPath store t plain plainExperiment.isRelative
    rw [Path.words_of_name plainExperiment, List.append_assoc] at hwords
    have hplain : ∀ name ∈ [experiment] ++ [runId] ++ [recordName], Plain name := by
      simp [plainExperiment, plain, plain_recordName]
    have hwalk := FileTree.walk_of_find hroot
    rw [← hstart] at hwalk
    have hback := h.target_of_get? hwords hplain hwalk hg (FileTree.file?_eq_some.1 hfile)
    exact (FileTree.isFile_join plain_recordName).2 ⟨g, bytes, hback, hfile⟩
  · cases there

theorem find_of_grows (h : Grows changed t t') (kept : ∀ l, changed l → ¬ l.IsRecord runId)
    (plain : Plain runId) {path : Path}
    (hfind : store.find t runId = .ok (some path)) : store.find t' runId = .ok (some path) := by
  obtain ⟨named, there, experiments, hlist, hpath⟩ := find_eq_some.1 hfind
  have hsame : ∀ path ∈ experiments.map fun experiment => store.recordPath experiment runId,
      t'.isFile path = t.isFile path := by
    intro path hmem
    obtain ⟨experiment, hexperiment, rfl⟩ := List.mem_map.1 hmem
    exact isFile_recordPath h kept (FileTree.plain_of_list hlist hexperiment) plain there
  obtain ⟨there', _, hlist', more, rfl⟩ := h.list_of_isDirectory there hlist
  obtain ⟨hfile, before, after, hsplit, hbefore⟩ := List.find?_eq_some_iff_append.1 hpath
  have hsplit' : ((experiments ++ more).map fun experiment => store.recordPath experiment runId) =
      before ++
        path :: (after ++ more.map fun experiment => store.recordPath experiment runId) := by
    rw [List.map_append, hsplit, List.append_assoc, List.cons_append]
  have hbefore' : ∀ other ∈ before, (!t'.isFile other) = true := by
    intro other hother
    rw [hsame other (hsplit ▸ List.mem_append_left _ hother)]
    exact hbefore other hother
  exact find_eq_some.2 ⟨named, there', _, hlist',
    List.find?_eq_some_iff_append.2 ⟨h.isFile hfile, before, _, hsplit', hbefore'⟩⟩

/-- A run that is found stays found with its record. -/
theorem get_of_grows (h : Grows changed t t') (kept : ∀ l, changed l → ¬ l.IsRecord runId)
    (plain : Plain runId) {run : RunInfo}
    (hrun : store.get t runId = .ok run) : store.get t' runId = .ok run := by
  obtain ⟨path, text, hfind, htext, hread⟩ := get_eq_ok.1 hrun
  have hfind' := find_of_grows h kept plain hfind
  obtain ⟨-, -, experiments, -, hpath⟩ := find_eq_some.1 hfind
  obtain ⟨experiment, -, rfl⟩ := List.mem_map.1 (List.mem_of_find?_eq_some hpath)
  have htext' : t'.readText (store.recordPath experiment runId) = .ok text := by
    obtain ⟨bytes, hbytes, hdecode⟩ := bind_eq_ok.1 htext
    obtain ⟨g, hg, hfile⟩ := FileTree.read_eq_ok hbytes
    rw [← h.file?_eq fun allowed => kept _ allowed (isRecord_of_record plain hg)] at hfile
    rw [FileTree.readText, recordPath, FileTree.read_join plain_recordName (h.target hg) hfile]
    exact hdecode
  exact get_eq_ok.2 ⟨_, text, hfind', htext', hread⟩

theorem artifactUri_of_grows (h : Grows changed t t') (kept : ∀ l, changed l → ¬ l.IsRecord runId)
    (plain : Plain runId) {uri : String}
    (huri : store.artifactUri t runId = .ok uri) : store.artifactUri t' runId = .ok uri := by
  obtain ⟨run, hrun, huri⟩ := bind_eq_ok.1 huri
  rw [artifactUri, get_of_grows h kept plain hrun]
  exact huri

end Growth

end RunStore

end ModelShelf
