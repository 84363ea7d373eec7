import ModelShelf.Proofs.Files.Names
import ModelShelf.Proofs.Store.Logging

/-!
Runs that are created one after the other. A call that creates a run adds one record to the tree and
changes no other file, whatever the name of the experiment. Runs are looked for one level below the
root: if the experiment is there, the run is found with its record as long as runs are created, and
if it is elsewhere, the run is not found.
-/

namespace ModelShelf

open ModelShelf.Path (Plain isIdle)
open FileTree (OnlyDirectories Grows)
open Resolver (succeeds eq_ok_of_succeeds sampleRun)

variable {t t' : FileTree}

/-! ### One call -/

/-- Whether a file is new in a tree, and all other files are as they were. -/
structure FileTree.AddsFile (t t' : FileTree) (l : Location) (contents : ByteArray) : Prop where
  absent : t.file? l = none
  there : t'.file? l = some contents
  elsewhere : ∀ other, other ≠ l → t'.file? other = t.file? other

namespace RunStore

variable {store : RunStore} {experimentId runId : String} {now : Time.Instant}

/-- What a new directory and a new record keep is kept when a run is created, or is not. -/
theorem preserves_create {holds : FileTree → Prop}
    (hmake : ∀ {p : Path} {t t' : FileTree}, holds t → t.makeDirectory p = .ok t' → holds t')
    (hwrite : ∀ {contents : ByteArray} {t t' : FileTree}, holds t →
      t.write (store.recordPath experimentId runId) contents = .ok t' → holds t') :
    Change.Preserves holds (fun _ => True) (store.create experimentId runId now) := by
  rw [create]
  refine (Change.preserves_makeDirectories (fun _ => trivial) hmake _).bind fun _ => ?_
  refine (Change.preserves_ofResult fun _ _ => trivial).bind fun record => ?_
  exact (Change.preserves_write (fun _ => trivial) hwrite).bind fun _ => Change.preserves_pure _

theorem grows_create (plain : Plain runId) (start : FileTree) :
    Change.Preserves (Grows (·.IsRecord runId) start) (fun _ => True)
      (store.create experimentId runId now) := by
  apply preserves_create
  · intro p t t' grown made
    exact grown.trans ((FileTree.onlyDirectories_of_makeDirectory made).mono fun _ => False.elim)
  · intro contents t t' grown written
    obtain ⟨g, hg, notDirectory, rfl⟩ := FileTree.write_eq_ok written
    refine grown.trans ((FileTree.grows_put_file contents notDirectory).mono ?_)
    rintro _ rfl
    exact isRecord_of_record plain hg

theorem addsFile_of_create {run : RunInfo} (plain : Plain runId)
    (unused : ∀ l : Location, t.file? (l ++ [runId, recordName]) = none)
    (created : store.create experimentId runId now t = .ok run t') :
    ∃ text, run.toText = .ok text ∧ t.AddsFile t'
      (t.placeOf (store.root.join experimentId) ++ [runId, recordName]) text.toUTF8 := by
  obtain ⟨record, g, written, hg, hfile, grown⟩ := create_adds created
  rw [place_of_record plain hg, grown.placeOf_eq] at hfile
  refine ⟨record, written, unused _, hfile, fun other elsewhere => grown.file?_eq ?_⟩
  rwa [place_of_record plain hg, grown.placeOf_eq]

/-! ### Looking for a run -/

/-- Whether an experiment has its directory right below the root. -/
def IsExperiment (store : RunStore) (t : FileTree) (experimentId : String) : Prop :=
  ∃ name, t.placeOf (store.root.join experimentId) = t.placeOf store.root ++ [name]

theorem isExperiment_of_grows {changed : Location → Prop} (h : Grows changed t t') :
    store.IsExperiment t' experimentId ↔ store.IsExperiment t experimentId := by
  rw [IsExperiment, IsExperiment, h.placeOf_eq, h.placeOf_eq]

theorem toList_recordPath {experiment : String} (plain : Plain runId) :
    (store.recordPath experiment runId).text.toList =
      (store.root.join experiment).opening ++ runId.toList ++ ['/'] ++ recordName.toList := by
  rw [recordPath, Path.toList_join plain_recordName.isRelative, Path.opening_join plain]

section IsExperiment

variable {name : String} {g : FileTree.Target} {bytes : ByteArray}

/-- The name of the directory of an experiment is one of the words of the experiment. -/
theorem plain_of_isExperiment (relative : (Path.mk experimentId).isAbsolute = false)
    (hplace : t.placeOf (store.root.join experimentId) = t.placeOf store.root ++ [name]) :
    name ∈ (Path.mk experimentId).words ∧ Plain name := by
  rw [FileTree.placeOf_join relative] at hplace
  obtain ⟨hword, hsolid, hup⟩ := Location.mem_of_follow hplace
  exact ⟨hword, hsolid, hup, Path.not_mem_parts (List.mem_filter.1 hword).1⟩

/-- Where the record of an experiment can be reached, the root can be walked. -/
theorem walk_of_record (plain : Plain runId) (relative : (Path.mk experimentId).isAbsolute = false)
    (hg : t.target (store.recordPath experimentId runId) = .ok g) :
    t.walk (t.start store.root) store.root.words = .ok (t.placeOf store.root) ∧
      ∀ word ∈ (Path.mk experimentId).words ++ [runId], Plain word →
        word.utf8ByteSize ≤ FileTree.greatestName := by
  obtain ⟨hwords, hstart⟩ := words_recordPath store t plain relative
  obtain ⟨dir, hdir, -, -⟩ :=
    (FileTree.aim_eq_ok plain_recordName hwords).1 (FileTree.aim_of_target hg)
  rw [hstart, FileTree.walk_append] at hdir
  obtain ⟨base, hbase, hrest⟩ := bind_eq_ok.1 hdir
  have hplace : base = t.placeOf store.root := by
    rw [FileTree.placeOf_eq]
    exact FileTree.eq_follow_of_walk hbase
  rw [hplace] at hbase
  exact ⟨hbase, fun word hword hplain => FileTree.size_of_walk hrest hword hplain⟩

/-- The directory of an experiment whose record can be reached is an entry of the root. -/
theorem find_root_of_record (plain : Plain runId) (hroot : store.root.text ≠ "")
    (relative : (Path.mk experimentId).isAbsolute = false)
    (hg : t.target (store.recordPath experimentId runId) = .ok g)
    (there : t.get? (t.placeOf store.root ++ [name, runId, recordName]) = some (.file bytes)) :
    ∃ entries, t.find store.root = .ok (t.placeOf store.root, .directory entries) ∧
      name ∈ entries.map Prod.fst := by
  obtain ⟨hwalk, -⟩ := walk_of_record plain relative hg
  obtain ⟨entries, hentries⟩ := FileNode.directory_of_get?_append there
  obtain ⟨g₀, haim, hplace⟩ := FileTree.place_of_walk hwalk
  have hpart : store.root.text.toList <+: (store.recordPath experimentId runId).text.toList := by
    have habove := Path.isPrefix_join (p := store.root) relative
    have hbelow := Path.isPrefix_join (p := store.root.join experimentId) plain.isRelative
    exact (habove.trans hbelow).trans (Path.isPrefix_join plain_recordName.isRelative)
  have htarget := FileTree.target_of_aim hg hroot hpart.sublist haim
  refine ⟨entries, ?_, FileNode.mem_of_get? hentries there⟩
  rw [← hplace] at hentries ⊢
  exact FileTree.find_of_directory htarget hentries

/-- A record that can be reached by the experiment can be reached by the name of its directory. -/
theorem target_of_record (plain : Plain runId)
    (relative : (Path.mk experimentId).isAbsolute = false)
    (hword : name ∈ (Path.mk experimentId).words) (plainName : Plain name)
    (hg : t.target (store.recordPath experimentId runId) = .ok g)
    (there : t.get? (t.placeOf store.root ++ [name, runId, recordName]) = some (.file bytes)) :
    ∃ g', t.target (store.recordPath name runId) = .ok g' := by
  obtain ⟨hroot, hsize⟩ := walk_of_record plain relative hg
  obtain ⟨hwords, hstart⟩ := words_recordPath store t plain plainName.isRelative
  have hpart : (store.recordPath name runId).text.toList.Sublist
      (store.recordPath experimentId runId).text.toList := by
    rw [toList_recordPath plain, toList_recordPath plain]
    exact (((Path.opening_sublist relative hword plainName).append (.refl _)).append
      (.refl _)).append (.refl _)
  have hwalk : t.walk (t.placeOf store.root) [name, runId] =
      .ok (t.placeOf store.root ++ [name, runId]) := by
    refine FileTree.walk_of_names ?_ ?_ (by simpa using there)
    · simp [plainName, plain]
    · simp [hsize name (List.mem_append_left _ hword) plainName, hsize runId (by simp) plain]
  rw [Path.words_of_name plainName, List.singleton_append] at hwords
  have hall : t.walk (t.start (store.recordPath name runId)) (store.root.words ++ [name, runId]) =
      .ok (t.placeOf store.root ++ [name, runId]) := by
    rw [hstart, FileTree.walk_append, hroot]
    exact hwalk
  have hne : (store.recordPath name runId).text ≠ "" :=
    Path.join_ne_empty plain_recordName.isRelative plain_recordName.ne_empty
  have haim := (FileTree.aim_eq_ok plain_recordName hwords).2 ⟨_, hall, by decide, rfl⟩
  exact ⟨_, FileTree.target_of_aim hg hne hpart haim⟩

end IsExperiment

/-- A run is found with what was recorded of it, if its experiment is right below the root. -/
theorem get_of_create {run : RunInfo} {name : String} (plain : Plain runId)
    (hid : isRunId runId = true) (hroot : store.root.text ≠ "")
    (relative : (Path.mk experimentId).isAbsolute = false)
    (hplace : t.placeOf (store.root.join experimentId) = t.placeOf store.root ++ [name])
    (unused : ∀ l : Location, t.file? (l ++ [runId, recordName]) = none)
    (valid : now.IsValid) (faithful : run.toValue.ReadsBack)
    (created : store.create experimentId runId now t = .ok run t') :
    store.get t' runId = .ok run := by
  obtain ⟨hrun, -⟩ := create_eq_ok created
  have valid' : run.startTime.IsValid := hrun ▸ valid
  obtain ⟨record, g, -, hg, hfile, grown⟩ := create_adds created
  obtain ⟨hword, plainName⟩ := plain_of_isExperiment relative hplace
  rw [← grown.placeOf_eq, ← grown.placeOf_eq] at hplace
  have there := FileTree.file?_eq_some.1 hfile
  rw [place_of_record plain hg, hplace, List.append_assoc, List.singleton_append] at there
  -- The scan spells the path with the name of the entry, not as the experiment is written.
  obtain ⟨entries, hfind, hmem⟩ := find_root_of_record plain hroot relative hg there
  obtain ⟨g', hg'⟩ := target_of_record plain relative hword plainName hg there
  have hfound : t'.isFile (store.recordPath name runId) = true := by
    refine (FileTree.isFile_join plain_recordName).2 ⟨g', record.toUTF8, hg', ?_⟩
    rw [place_of_record plain hg', FileTree.placeOf_join_plain plainName, List.append_assoc]
    exact FileTree.file?_eq_some.2 there
  -- An earlier entry may lead to a record too, but all that it can lead to is the same record.
  obtain ⟨path, hpath⟩ : ∃ path, ((entries.map Prod.fst).map fun experiment =>
      store.recordPath experiment runId).find? t'.isFile = some path := by
    apply Option.isSome_iff_exists.1
    exact List.find?_isSome.2 ⟨_, List.mem_map_of_mem hmem, hfound⟩
  obtain ⟨experiment, -, rfl⟩ := List.mem_map.1 (List.mem_of_find?_eq_some hpath)
  obtain ⟨text, written, hread⟩ := record_of_isFile plain unused created (List.find?_some hpath)
  have hdirectory : t'.isDirectory store.root = true := by
    rw [FileTree.isDirectory, hfind]
  have hlist : t'.list store.root = .ok (entries.map Prod.fst) := by
    rw [FileTree.list, hfind]
    rfl
  exact get_eq_ok.2 ⟨_, text, find_eq_some.2 ⟨hid, hdirectory, _, hlist, hpath⟩, hread,
    RunInfo.ofText_of_value valid' (faithful text (eq_ok_of_mapError written))⟩

/-- However the tree has grown since a run was created, it is found only if its experiment is right
below the root. -/
theorem isExperiment_of_get {t'' : FileTree} {changed : Location → Prop} {run found : RunInfo}
    (plain : Plain runId) (unused : ∀ l : Location, t.file? (l ++ [runId, recordName]) = none)
    (created : store.create experimentId runId now t = .ok run t')
    (further : Grows changed t' t'') (kept : ∀ l, changed l → ¬ l.IsRecord runId)
    (h : store.get t'' runId = .ok found) :
    store.IsExperiment t experimentId := by
  obtain ⟨record, g, -, hg, -, grown⟩ := create_adds created
  obtain ⟨path, text, hfind, htext, -⟩ := get_eq_ok.1 h
  obtain ⟨-, -, experiments, hlist, hpath⟩ := find_eq_some.1 hfind
  obtain ⟨name, hname, rfl⟩ := List.mem_map.1 (List.mem_of_find?_eq_some hpath)
  have plainName := FileTree.plain_of_list hlist hname
  obtain ⟨bytes, hbytes, -⟩ := bind_eq_ok.1 htext
  obtain ⟨g', hg', hfile⟩ := FileTree.read_eq_ok hbytes
  rw [place_of_record plain hg', further.file?_eq fun h => kept _ h ⟨_, rfl⟩] at hfile
  -- The record that is found is the one that was added, so its directory is the experiment's.
  have here := eq_of_record unused grown hfile
  rw [place_of_record plain hg] at here
  refine (isExperiment_of_grows grown).1 ⟨name, ?_⟩
  rw [← List.append_cancel_right here, further.placeOf_eq, FileTree.placeOf_join_plain plainName]

end RunStore

/-! ### Calls one after the other -/

/-- A call that creates a run. -/
structure RunCall where
  experimentId : String
  /-- The random bits of the identifier. -/
  bits : Nat
  now : Time.Instant

namespace RunCall

def runId (c : RunCall) : String := Identifier.ofRandom c.bits

def run (c : RunCall) (store : RunStore) : Change RunInfo :=
  store.create c.experimentId c.runId c.now

end RunCall

namespace RunStore

variable {store : RunStore}

/-- Whether a run is found with exactly what is known of it. -/
structure Finds (store : RunStore) (t : FileTree) (run : RunInfo) : Prop where
  record : store.get t run.runId = .ok run
  artifacts : store.artifactUri t run.runId = .ok run.artifactUri

/-- The tree after calls that are made one after the other, whether they succeed or not. -/
def after (store : RunStore) (t : FileTree) (calls : List RunCall) : FileTree :=
  calls.foldl (fun t c => Change.treeAfter (c.run store) t) t

theorem after_cons (store : RunStore) (t : FileTree) (c : RunCall) (calls : List RunCall) :
    store.after t (c :: calls) = store.after (Change.treeAfter (c.run store) t) calls := by
  rw [after, List.foldl_cons, ← after]

theorem grows_after (store : RunStore) (t : FileTree) (calls : List RunCall) :
    Grows (fun l => ∃ c ∈ calls, l.IsRecord c.runId) t (store.after t calls) := by
  induction calls generalizing t with
  | nil => exact .refl _ t
  | cons c calls ih =>
    have first : Grows (·.IsRecord c.runId) t (Change.treeAfter (c.run store) t) :=
      (grows_create (Identifier.plain_ofRandom c.bits) t).treeAfter (.refl _ t)
    rw [after_cons]
    refine (first.mono fun l hl => ?_).trans ((ih _).mono fun l hl => ?_)
    · exact ⟨c, List.mem_cons_self, hl⟩
    · obtain ⟨c', hc', hl⟩ := hl
      exact ⟨c', List.mem_cons_of_mem c hc', hl⟩

/-- Calls of other identifiers leave the records of a run alone. -/
theorem kept_of_not_mem {calls : List RunCall} {runId : String}
    (other : runId ∉ calls.map RunCall.runId) :
    ∀ l : Location, (∃ c ∈ calls, l.IsRecord c.runId) → ¬ l.IsRecord runId := by
  rintro l ⟨c, hc, hl⟩ hrecord
  apply other
  rw [hrecord.eq hl]
  exact List.mem_map_of_mem hc

/-- A call that creates a run, among any others on any tree, adds one record below the directory of
its experiment and changes no other file. If this directory is right below the root, the run is from
then on found with exactly what was returned, and its artifacts where this says, however many runs
are created later; if it is elsewhere, nothing is ever found under the identifier. -/
theorem created_stays_found {before later : List RunCall} {c : RunCall} {run : RunInfo}
    (distinct : ((before ++ c :: later).map RunCall.runId).Nodup)
    (unused : ∀ c' ∈ before ++ c :: later, ∀ l : Location,
      t.file? (l ++ [c'.runId, recordName]) = none)
    (valid : c.now.IsValid) (faithful : run.toValue.ReadsBack)
    (created : c.run store (store.after t before) = .ok run t') :
    (∃ l text, run.toText = .ok text ∧ (store.after t before).AddsFile t' l text.toUTF8 ∧
      l = t.placeOf (store.root.join c.experimentId) ++ [run.runId, recordName] ∧
      (store.IsExperiment t c.experimentId → t.placeOf store.root <+: l)) ∧
    (store.IsExperiment t c.experimentId → store.root.text ≠ "" →
      (Path.mk c.experimentId).isAbsolute = false → store.Finds (store.after t' later) run) ∧
    ∀ found, store.get (store.after t' later) run.runId = .ok found →
      store.IsExperiment t c.experimentId := by
  have plain : Plain c.runId := Identifier.plain_ofRandom c.bits
  rw [List.map_append, List.map_cons, List.nodup_append, List.nodup_cons] at distinct
  obtain ⟨-, ⟨notLater, -⟩, apart⟩ := distinct
  have notBefore : c.runId ∉ before.map RunCall.runId := fun h => apart _ h _ List.mem_cons_self rfl
  have earlier := grows_after store t before
  have further := grows_after store t' later
  have unused' (l : Location) :
      (store.after t before).file? (l ++ [c.runId, recordName]) = none := by
    rw [earlier.file?_eq fun h => kept_of_not_mem notBefore _ h ⟨l, rfl⟩]
    exact unused c (by simp) l
  obtain ⟨hrun, -⟩ := create_eq_ok created
  have hid : run.runId = c.runId := by rw [hrun]
  rw [hid]
  refine ⟨?added, ?stays, ?found⟩
  case added =>
    obtain ⟨text, written, added⟩ := addsFile_of_create plain unused' created
    rw [earlier.placeOf_eq] at added
    refine ⟨_, text, written, added, rfl, ?_⟩
    rintro ⟨name, hname⟩
    rw [hname, List.append_assoc]
    exact List.prefix_append _ _
  case stays =>
    intro isExperiment hroot relative
    obtain ⟨name, hname⟩ := (isExperiment_of_grows earlier).2 isExperiment
    have hget := get_of_create plain (Identifier.isRunId_ofRandom c.bits) hroot relative hname
      unused' valid faithful created
    have hlater := get_of_grows further (kept_of_not_mem notLater) plain hget
    rw [← hid] at hlater
    refine ⟨hlater, ?_⟩
    rw [artifactUri, hlater]
    rfl
  case found =>
    intro found hget
    have there :=
      isExperiment_of_get plain unused' created further (kept_of_not_mem notLater) hget
    exact (isExperiment_of_grows earlier).1 there

def sampleStore : RunStore := ⟨⟨"runs"⟩⟩

/-- A run of an experiment right below the root. -/
def sampleCall : RunCall := ⟨"0", 0, ⟨0, 0⟩⟩

/-- Runs of experiments further below and beside the root. -/
def nestedCall : RunCall := ⟨"team/a", 1, ⟨0, 0⟩⟩
def besideCall : RunCall := ⟨"../b", 2, ⟨0, 0⟩⟩

theorem sample_runs :
    (succeeds (sampleCall.run sampleStore (sampleStore.after .empty [nestedCall]))
      fun run _ => run = sampleRun) = true ∧
    (succeeds (nestedCall.run sampleStore .empty)
      fun run t => (sampleStore.find t run.runId).toOption = some none) = true ∧
    (([nestedCall] ++ sampleCall :: [besideCall]).map RunCall.runId).Nodup := by
  decide +kernel

theorem created_sample : ∃ t',
    sampleCall.run sampleStore (sampleStore.after .empty [nestedCall]) = .ok sampleRun t' ∧
    sampleStore.IsExperiment .empty sampleCall.experimentId ∧
    sampleStore.Finds (sampleStore.after t' [besideCall]) sampleRun := by
  obtain ⟨succeeded, -, distinct⟩ := sample_runs
  obtain ⟨run, t', created, hrun⟩ := eq_ok_of_succeeds succeeded
  obtain rfl := of_decide_eq_true hrun
  have faithful : sampleRun.toValue.ReadsBack :=
    readsBack_of_toOption Resolver.sample_runs.2.1 Resolver.sample_runs.2.2.1
  have unused : ∀ c ∈ [nestedCall] ++ sampleCall :: [besideCall], ∀ l : Location,
      FileTree.empty.file? (l ++ [c.runId, recordName]) = none := by
    intro c _ l
    cases l <;> rfl
  have valid : sampleCall.now.IsValid := ⟨by decide, by decide, by decide⟩
  have isExperiment : sampleStore.IsExperiment .empty sampleCall.experimentId := ⟨"0", by decide⟩
  obtain ⟨-, found, -⟩ := created_stays_found distinct unused valid faithful created
  exact ⟨t', created, isExperiment, found isExperiment (by decide) (by decide)⟩

/-- A run of an experiment further below the root is created, but not found. -/
theorem nested_run_not_found : ∃ run t', nestedCall.run sampleStore .empty = .ok run t' ∧
    sampleStore.get t' run.runId = .error (.notFound ("Run '" ++ run.runId ++ "' not found")) := by
  obtain ⟨run, t', created, hfind⟩ := eq_ok_of_succeeds sample_runs.2.1
  refine ⟨run, t', created, ?_⟩
  rw [get, eq_ok_of_toOption (of_decide_eq_true hfind)]
  rfl

end RunStore

end ModelShelf
