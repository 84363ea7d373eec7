import ModelShelf.Proofs.Store.Logging
import ModelShelf.Proofs.Store.SetSignature

/-!
Two ways to a file of a run. One looks for the repository of the run and goes on below it; the other
puts the texts of the root and of the path together, and looks for the repository of that. They
meet unless the texts that are put together are taken apart at another place, which happens if the
root is nothing but a scheme, or is a path while the path below it has the mark of a scheme.
-/

namespace ModelShelf

open Text
open ModelUri (Unmarked frontOf isSlash splitScheme?)
open ModelShelf.Path (Plain)

variable {t t' : FileTree}

/-! ### Texts without the slashes at their end -/

theorem eq_slash_of_mem_takeWhile {s : List Char} {c : Char} (h : c ∈ s.takeWhile isSlash) :
    c = '/' :=
  of_decide_eq_true (List.all_eq_true.1 List.all_takeWhile c h)

theorem exists_slashes (s : List Char) : ∃ n, s = frontOf s ++ List.replicate n '/' := by
  refine ⟨(s.reverse.takeWhile isSlash).length, ?_⟩
  have hsplit := congrArg List.reverse
    (List.takeWhile_append_dropWhile (p := isSlash) (l := s.reverse))
  rw [List.reverse_append, List.reverse_reverse,
    List.eq_replicate_of_mem fun _ => eq_slash_of_mem_takeWhile, List.reverse_replicate] at hsplit
  rw [frontOf]
  exact hsplit.symm

theorem frontOf_append {s t : List Char} (h : ∃ c ∈ t, c ≠ '/') :
    frontOf (s ++ t) = s ++ frontOf t := by
  obtain ⟨c, hc, hslash⟩ := h
  have hne : (t.reverse.dropWhile isSlash).isEmpty = false := by
    rw [Bool.eq_false_iff]
    intro hempty
    have hall := List.takeWhile_append_dropWhile (p := isSlash) (l := t.reverse)
    rw [List.isEmpty_iff.1 hempty, List.append_nil] at hall
    apply hslash
    apply eq_slash_of_mem_takeWhile
    rw [hall]
    exact List.mem_reverse.2 hc
  rw [frontOf, frontOf, List.reverse_append, List.dropWhile_append, hne]
  simp

theorem below_append {front rest : List Char} (h : ∃ c ∈ rest, c ≠ '/') (path : String) :
    (Resolver.below (String.ofList (front ++ rest)) path).toList =
      front ++ (Resolver.below (String.ofList rest) path).toList := by
  rw [ModelUri.toList_below, ModelUri.toList_below, String.toList_ofList, String.toList_ofList,
    frontOf_append h, List.append_assoc]

namespace Path

theorem wordsOf_append_slashes (s : List Char) (n : Nat) :
    wordsOf (s ++ List.replicate n '/') = wordsOf s := by
  induction n with
  | zero => rw [List.replicate_zero, List.append_nil]
  | succ n ih =>
    have hslashes : wordsOf (List.replicate n '/') = [] := by
      clear ih
      induction n with
      | zero => rfl
      | succ n ih => rw [List.replicate_succ, wordsOf_slash, ih]
    rw [List.replicate_succ, wordsOf_append_cons, hslashes, List.append_nil]

theorem join_front {front q below : String} (hq : q ≠ "")
    (relative : (Path.mk below).isAbsolute = false) :
    (Path.mk (front ++ q)).join below = ⟨front ++ ((Path.mk q).join below).text⟩ := by
  have hlast : (front ++ q).toList.getLast? = q.toList.getLast? := getLast?_toList_append hq
  have hempty : (front ++ q).isEmpty = false := by simp [hq]
  have hempty' : q.isEmpty = false := by simp [hq]
  simp only [join, relative, hempty, hempty', hlast, Bool.or_self, Bool.false_eq_true, ↓reduceIte]
  split
  · rw [String.append_assoc]
  · simp only [String.append_assoc]

/-! ### Paths that are written more shortly -/

/-- The first path has the words of the second one, and its text is part of the other text; both end
in words. -/
structure Tightens (a b : Path) : Prop where
  solid : a.text ≠ ""
  words : a.words = b.words
  isAbsolute : a.isAbsolute = b.isAbsolute
  part : a.text.toList.Sublist b.text.toList
  last_ne : a.text.toList.getLast? ≠ some '/'
  last_ne' : b.text.toList.getLast? ≠ some '/'

namespace Tightens

variable {a b : Path}

theorem solid' (h : Tightens a b) : b.text ≠ "" := by
  intro hempty
  have hpart := h.part
  rw [hempty] at hpart
  exact h.solid (String.toList_eq_nil_iff.1 (List.sublist_nil.1 hpart))

theorem join (h : Tightens a b) {name : String} (plain : Plain name) :
    Tightens (a.join name) (b.join name) := by
  have ha : a.join name = ⟨a.text ++ "/" ++ name⟩ := by
    rw [Path.join, plain.isRelative, if_neg (by simpa using h.solid), if_neg h.last_ne]
  have hb : b.join name = ⟨b.text ++ "/" ++ name⟩ := by
    rw [Path.join, plain.isRelative, if_neg (by simpa using h.solid'), if_neg h.last_ne']
  refine ⟨by simp [ha], ?_, ?_, ?_, getLast?_join plain a, getLast?_join plain b⟩
  · rw [(join_of_plain plain a).1, (join_of_plain plain b).1, h.words]
  · rw [(join_of_plain plain a).2, (join_of_plain plain b).2, h.isAbsolute]
  · rw [ha, hb]
    simp only [String.toList_append]
    exact (h.part.append_right _).append_right _

/-- Wherever the longer path leads, the shorter one leads too. -/
theorem target (h : Tightens a b) {g : FileTree.Target} (hg : t.target b = .ok g) :
    t.target a = .ok g := by
  have haim : t.aim a = t.aim b := by
    rw [FileTree.aim, FileTree.aim, FileTree.start, FileTree.start, h.words, h.isAbsolute]
    simp only [h.last_ne, h.last_ne']
  exact FileTree.target_of_aim hg h.solid h.part (haim.trans (FileTree.aim_of_target hg))

end Tightens

end Path

namespace ArtifactPath

variable {path : String} (h : ArtifactPath path)

include h

/-- A path that is put below a root keeps the slashes at the end of the root. -/
theorem toList_join {root : String} (hroot : root ≠ "") :
    ∃ k, ((Path.mk root).join path).text.toList =
      frontOf root.toList ++ List.replicate k '/' ++ '/' :: path.toList := by
  obtain ⟨n, hsplit⟩ := exists_slashes root.toList
  rw [Path.join, h.isRelative, if_neg (by simpa using hroot)]
  cases n with
  | zero =>
    have hfront : root.toList = frontOf root.toList := by
      conv => lhs; rw [hsplit, List.replicate_zero, List.append_nil]
    have hlast : root.toList.getLast? ≠ some '/' := by
      rw [hfront]
      exact ModelUri.getLast?_frontOf root.toList
    rw [if_neg hlast]
    refine ⟨0, ?_⟩
    simp [← hfront]
  | succ k =>
    have hlast : root.toList.getLast? = some '/' := by
      rw [hsplit, List.getLast?_append, List.getLast?_replicate]
      rfl
    rw [if_pos hlast]
    refine ⟨k, ?_⟩
    rw [String.toList_append]
    conv => lhs; rw [hsplit]
    rw [List.replicate_succ', List.append_assoc, List.append_assoc, List.append_assoc]
    rfl

/-- A path that is put below a root as a text, and as a path. -/
theorem tightens_below {root : String} (hroot : root ≠ "") :
    Path.Tightens ⟨Resolver.below root path⟩ ((Path.mk root).join path) := by
  have hbelow := h.toList_below root
  obtain ⟨k, hjoin⟩ := h.toList_join hroot
  have hlast (s : List Char) : (s ++ '/' :: path.toList).getLast? ≠ some '/' := by
    have htext : s ++ '/' :: path.toList = (String.ofList (s ++ ['/']) ++ path).toList := by simp
    rw [htext, Path.getLast?_toList_append h.solid]
    exact h.last_ne
  refine ⟨?_, ?_, ?_, ?_, ?_, ?_⟩
  · intro hempty
    have hempty : Resolver.below root path = "" := hempty
    simp [hempty] at hbelow
  · rw [Path.words_eq, Path.words_eq, hbelow, hjoin, Path.wordsOf_append_cons,
      Path.wordsOf_append_cons, Path.wordsOf_append_slashes]
  · rw [Path.isAbsolute, Path.isAbsolute, hbelow, hjoin]
    cases hfront : frontOf root.toList with
    | nil => cases k <;> rfl
    | cons c s => rfl
  · rw [hbelow, hjoin, List.append_assoc]
    exact List.Sublist.append_left (List.sublist_append_right _ _) _
  · rw [hbelow]
    exact hlast _
  · rw [hjoin]
    exact hlast _

/-- The same below a base that a scheme stands for. -/
theorem tightens_base (base : Path) {rest : String} (hrest : rest ≠ "") :
    Path.Tightens (base.join (Resolver.below rest path)) ((base.join rest).join path) := by
  have hbelow := h.tightens_below hrest
  have hjoin := Path.join_of_relative (p := ⟨rest⟩) h.isRelative
  by_cases absolute : (Path.mk rest).isAbsolute = true
  · have habsolute : (Path.mk (Resolver.below rest path)).isAbsolute = true := by
      rw [hbelow.isAbsolute, hjoin.2, absolute]
    rw [Path.join, habsolute, Bool.true_or, if_pos rfl]
    have hbase : base.join rest = ⟨rest⟩ := by
      rw [Path.join, absolute, Bool.true_or, if_pos rfl]
    rwa [hbase]
  · have relative : (Path.mk rest).isAbsolute = false := Bool.eq_false_iff.2 absolute
    have relative' : (Path.mk (Resolver.below rest path)).isAbsolute = false := by
      rw [hbelow.isAbsolute, hjoin.2, relative]
    obtain ⟨front, hfront⟩ := base.exists_front
    have hlong := Path.join_of_relative (p := base.join rest) h.isRelative
    have htext : (base.join rest).join path = ⟨front ++ ((Path.mk rest).join path).text⟩ := by
      rw [hfront relative]
      exact Path.join_front hrest h.isRelative
    refine ⟨?_, ?_, ?_, ?_, ?_, ?_⟩
    · rw [hfront relative']
      simpa using fun _ => hbelow.solid
    · rw [hlong.1, (Path.join_of_relative relative).1, (Path.join_of_relative relative').1,
        hbelow.words, hjoin.1, List.append_assoc]
    · rw [hlong.2, (Path.join_of_relative relative).2, (Path.join_of_relative relative').2]
    · rw [hfront relative', htext]
      simp only [String.toList_append]
      exact hbelow.part.append_left _
    · rw [hfront relative', Path.getLast?_toList_append hbelow.solid]
      exact hbelow.last_ne
    · rw [htext, Path.getLast?_toList_append hbelow.solid']
      exact hbelow.last_ne'

end ArtifactPath

/-! ### Roots with schemes -/

namespace Resolver

variable {r : Resolver} {root path : String} {scheme rest : List Char}

theorem withoutFileScheme_eq (h : root.toList = "file://".toList ++ rest) :
    Config.withoutFileScheme root = String.ofList rest := by
  rw [Config.withoutFileScheme, stripPrefix?_eq_some.2 h]

theorem ofRoot_file (h : splitScheme? root.toList = some ("file".toList, rest)) :
    r.ofRoot root = .ok ⟨⟨String.ofList rest⟩⟩ := by
  have hroot := eq_of_splitFirst? h
  rw [ofRoot, h]
  simp only [↓reduceIte, Repository.ofUri]
  rw [withoutFileScheme_eq hroot]

theorem ofRoot_factory {factory : RepositoryFactory}
    (h : splitScheme? root.toList = some (scheme, rest)) (hfile : scheme ≠ "file".toList)
    (hfactory : r.schemes.lookup (String.ofList (ModelUri.lowered scheme)) = some factory) :
    r.ofRoot root = factory root := by
  rw [ofRoot, h]
  simp only [if_neg hfile, hfactory]

theorem ofRoot_unregistered (h : splitScheme? root.toList = some (scheme, rest))
    (hfile : scheme ≠ "file".toList)
    (hfactory : r.schemes.lookup (String.ofList (ModelUri.lowered scheme)) = none) :
    ∃ text, r.ofRoot root = .error (.unsupportedUri text) := by
  rw [ofRoot, h]
  simp only [if_neg hfile, hfactory]
  exact ⟨_, rfl⟩

/-- What stands behind a scheme gets longer, and the scheme stays. -/
theorem splitScheme?_below (h : splitScheme? root.toList = some (scheme, rest))
    (solid : ∃ c ∈ rest, c ≠ '/') (path : String) :
    splitScheme? (below root path).toList =
      some (scheme, (below (String.ofList rest) path).toList) := by
  have hroot := eq_of_splitFirst? h
  rw [← List.append_assoc] at hroot
  have htext : root = String.ofList (scheme ++ ModelUri.schemeMark.toList ++ rest) := by
    rw [← hroot, String.ofList_toList]
  rw [htext, below_append solid, List.append_assoc]
  exact splitFirst?_behind h _

/-- Each registered factory puts what follows the mark of the scheme below a base of its own. -/
def FactoriesJoin (r : Resolver) : Prop :=
  ∀ entry ∈ r.schemes, ∃ base : Path, ∀ {uri : String} {scheme rest : List Char},
    splitScheme? uri.toList = some (scheme, rest) →
      entry.2 uri = .ok ⟨base.join (String.ofList rest)⟩

/-- A root and a path that can be put together as texts: the root is there, it is more than a
scheme, and a path without a scheme gets none from the path below it. -/
structure Joinable (root path : String) : Prop where
  solid : root ≠ ""
  unmarked : Unmarked root → Unmarked path
  named : ∀ {scheme rest}, splitScheme? root.toList = some (scheme, rest) → ∃ c ∈ rest, c ≠ '/'

/-- The repository of a root and a path that are put together is the place of the path below the
repository of the root; or neither has one. -/
theorem ofRoot_below (factories : r.FactoriesJoin) (h : Joinable root path)
    (hpath : ArtifactPath path) :
    (∃ a b : Path, r.ofRoot (below root path) = .ok ⟨a⟩ ∧ r.ofRoot root = .ok ⟨b⟩ ∧
      Path.Tightens a (b.join path)) ∨
    ∃ text text', r.ofRoot (below root path) = .error (.unsupportedUri text) ∧
      r.ofRoot root = .error (.unsupportedUri text') := by
  cases hsplit : splitScheme? root.toList with
  | none =>
    have hroot := ModelUri.splitScheme?_eq_none.1 hsplit
    have hbelow := ModelUri.unmarked_below hroot (h.unmarked hroot)
    exact .inl ⟨_, _, ofRoot_of_unmarked hbelow r, ofRoot_of_unmarked hroot r,
      hpath.tightens_below h.solid⟩
  | some parts =>
    obtain ⟨scheme, rest⟩ := parts
    have named := h.named hsplit
    have hbelow := splitScheme?_below hsplit named path
    have hrest : String.ofList rest ≠ "" := by
      obtain ⟨c, hc, -⟩ := named
      intro hempty
      rw [String.ofList_eq_empty_iff.1 hempty] at hc
      cases hc
    by_cases hfile : scheme = "file".toList
    · subst hfile
      have htight := hpath.tightens_below hrest
      refine .inl ⟨_, _, ofRoot_file hbelow, ofRoot_file hsplit, ?_⟩
      rwa [String.ofList_toList]
    · cases hfactory : r.schemes.lookup (String.ofList (ModelUri.lowered scheme)) with
      | none =>
        obtain ⟨text, htext⟩ := ofRoot_unregistered hbelow hfile hfactory
        obtain ⟨text', htext'⟩ := ofRoot_unregistered hsplit hfile hfactory
        exact .inr ⟨text, text', htext, htext'⟩
      | some factory =>
        obtain ⟨before, after, hentries, -⟩ := List.lookup_eq_some_iff.1 hfactory
        obtain ⟨base, hbase⟩ := factories _ (hentries ▸ List.mem_append_right _ List.mem_cons_self)
        have htight := hpath.tightens_base base hrest
        refine .inl ⟨_, _, (ofRoot_factory hbelow hfile hfactory).trans (hbase hbelow),
          (ofRoot_factory hsplit hfile hfactory).trans (hbase hsplit), ?_⟩
        rwa [String.ofList_toList]

/-! ### Files of runs -/

/-- A file of the repository that the URI of a run leads to. -/
def uriFile (r : Resolver) (t : FileTree) (runId path name : String) : Result Path := do
  (← r.resolve t (.run runId path)).path name

/-- The same file, below the repository of the run. -/
def runFile (r : Resolver) (t : FileTree) (runId path name : String) : Result Path := do
  (← r.ofRun t runId).path (path ++ "/" ++ name)

/-- Both paths name the same file: they have the same components, and wherever the second one leads
in a tree, the first one leads there too. -/
structure SameFile (a b : Path) : Prop where
  components : a.components = b.components
  target : ∀ {t : FileTree} {g : FileTree.Target}, t.target b = .ok g → t.target a = .ok g

/-- Errors that say the same, up to the URI that is named. -/
def FailAlike (e e' : Error) : Prop :=
  e = e' ∨ ∃ text text', e = .unsupportedUri text ∧ e' = .unsupportedUri text'

theorem sameFile_of_tightens {a b : Path} (h : Path.Tightens a b) : SameFile a b :=
  ⟨Path.components_eq h.words h.isAbsolute, h.target⟩

theorem uriFile_runFile {r : Resolver} {runId path name : String} (factories : r.FactoriesJoin)
    (recorded : ∀ root, r.runs.artifactUri t runId = .ok root → Joinable root path)
    (hpath : ArtifactPath path) (inside : ∀ word ∈ (Path.mk path).words, word ≠ "..")
    (plain : Plain name) :
    (∃ a b, r.uriFile t runId path name = .ok a ∧ r.runFile t runId path name = .ok b ∧
      SameFile a b) ∨
    ∃ e e', r.uriFile t runId path name = .error e ∧ r.runFile t runId path name = .error e' ∧
      FailAlike e e' := by
  rw [uriFile, runFile]
  cases huri : r.runs.artifactUri t runId with
  | error e =>
    rw [resolve, ofRun, huri]
    exact .inr ⟨e, e, rfl, rfl, .inl rfl⟩
  | ok root =>
    rw [resolve_run huri, ofRun, huri]
    simp only [bind, Except.bind]
    obtain ⟨a, b, ha, hb, htight⟩ | ⟨text, text', ha, hb⟩ :=
      ofRoot_below factories (recorded root huri) hpath
    · have hname : (Repository.mk a).path name = .ok (a.join name) := by
        apply Repository.path_of_words _ plain.isRelative
        intro word hword
        rw [Path.words_of_name plain] at hword
        rw [List.mem_singleton.1 hword]
        exact plain.notParent
      have hbelow : (Repository.mk b).path (path ++ "/" ++ name) =
          .ok ((b.join path).join name) := by
        obtain ⟨hwords, hrelative⟩ := hpath.words_name plain
        rw [Repository.path_of_words _ hrelative, hpath.join_below plain]
        intro word hword
        rw [hwords] at hword
        rcases List.mem_append.1 hword with hword | hword
        · exact inside word hword
        · rw [List.mem_singleton.1 hword]
          exact plain.notParent
      rw [ha, hb]
      exact .inl ⟨_, _, hname, hbelow, sameFile_of_tightens (htight.join plain)⟩
    · rw [ha, hb]
      exact .inr ⟨_, _, rfl, rfl, .inr ⟨text, text', rfl, rfl⟩⟩

/-- What is asked of a URI once a model was logged there: it leads to the one file that was written,
which holds the stamped manifest, and reports and signatures go by that file. -/
structure LeadsTo (r : Resolver) (t t' : FileTree) (uri : String) (stored : Manifest)
    (l : Location) : Prop where
  place : r.manifestPlace t' uri = .ok l
  written : ∃ text, stored.toText = .ok text ∧ t'.file? l = some text.toUTF8
  others : ∀ other, other ≠ l → t'.file? other = t.file? other
  reported : ∀ {info}, r.modelInfo t' uri = .ok info →
    ∃ m, t'.manifest? l = some m ∧ info = m.info uri
  signed : ∀ signature,
    (∃ contents, r.setSignature uri signature t' = .ok () (t'.put l (.file contents))) ∨
    ∃ e, r.setSignature uri signature t' = .error e t'

theorem leadsTo_of_logModel {r : Resolver} {runId artifactPath : String} {m : Manifest}
    {info : ModelInfo} (factories : r.FactoriesJoin)
    (recorded : ∀ root, r.runs.artifactUri t runId = .ok root →
      Joinable root (loggedPath artifactPath))
    (plain : Plain runId) (hlog : r.logModel runId artifactPath m t = .ok info t') :
    ∃ l, r.LeadsTo t t' info.uri (m.stamped runId (loggedPath artifactPath)) l := by
  obtain ⟨e, _, herror, -⟩ |
    ⟨repository, text, g, _, hok, hpath, hrepository, written, inside, grown, htarget, hfile⟩ :=
    r.logModel_cases runId artifactPath m t
  · cases hlog.symm.trans herror
  obtain ⟨rfl, rfl⟩ := EStateM.Result.ok.inj (hlog.symm.trans hok)
  obtain ⟨root, huri, hrepository⟩ := ofRun_eq_ok.1 hrepository
  obtain ⟨a, b, ha, hb, htight⟩ | ⟨_, _, -, hb⟩ := ofRoot_below factories (recorded root huri) hpath
  · obtain rfl := Except.ok.inj (hb.symm.trans hrepository)
    have notRecord := Location.not_isRecord_of_isManifest
      (FileTree.getLast?_of_target plain_manifestName htarget) runId
    have huri' := RunStore.artifactUri_of_grows grown (fun l hl => hl ▸ notRecord) plain huri
    have hparse := ModelUri.parse_runUri plain.ne_empty plain.oneName hpath.solid hpath.trimmed
    have hresolve := (resolve_run huri' (loggedPath artifactPath)).trans ha
    have hplace := manifestPlace_eq_ok.2 ⟨_, _, g, hparse, hresolve,
      (htight.join plain_manifestName).target htarget, rfl⟩
    refine ⟨g.place, hplace, ⟨text, written, hfile⟩, fun other => grown.file?_eq, ?_, ?_⟩
    · intro info hinfo
      obtain ⟨l, stored, hl, hstored, hreport⟩ := manifest?_of_modelInfo hinfo
      obtain rfl := Except.ok.inj (hplace.symm.trans hl)
      exact ⟨stored, hstored, hreport⟩
    · intro signature
      refine (r.setSignature_cases _ signature t').imp_left ?_
      rintro ⟨l, _, contents, hl, -, -, hset⟩
      obtain rfl := Except.ok.inj (hplace.symm.trans hl)
      exact ⟨_, hset⟩
  · cases hb.symm.trans hrepository

/-- The URI of a run leads to the files below the run's repository if the recorded root and the path
can be put together as texts; then it also leads to whatever is logged there. -/
theorem runUri_leads {r : Resolver} {runId path name : String} (factories : r.FactoriesJoin)
    (recorded : ∀ root, r.runs.artifactUri t runId = .ok root → Joinable root path)
    (hpath : ArtifactPath path) (inside : ∀ word ∈ (Path.mk path).words, word ≠ "..")
    (plain : Plain name) :
    ((∃ a b, r.uriFile t runId path name = .ok a ∧ r.runFile t runId path name = .ok b ∧
      SameFile a b) ∨
    ∃ e e', r.uriFile t runId path name = .error e ∧ r.runFile t runId path name = .error e' ∧
      FailAlike e e') ∧
    ∀ {artifactPath m info t'}, loggedPath artifactPath = path → Plain runId →
      r.logModel runId artifactPath m t = .ok info t' →
      ∃ l, r.LeadsTo t t' info.uri (m.stamped runId path) l := by
  refine ⟨uriFile_runFile factories recorded hpath inside plain, ?_⟩
  intro artifactPath m info t' hlogged plainId hlog
  subst hlogged
  exact leadsTo_of_logModel factories recorded plainId hlog

/-- The factory that puts what follows the mark below a base. -/
def joiningFactory (base : Path) : RepositoryFactory := fun uri =>
  ((splitScheme? uri.toList).map fun (_, rest) => ⟨base.join (String.ofList rest)⟩).elim
    (.error (.unsupportedUri uri)) .ok

/-- A store with one scheme. -/
def schemeResolver : Resolver := (ofRuns ⟨⟨"runs"⟩⟩).register "mem" (joiningFactory ⟨"store"⟩)

theorem schemeResolver_factoriesJoin : schemeResolver.FactoriesJoin := by
  intro entry hentry
  obtain rfl := List.mem_singleton.1 hentry
  refine ⟨⟨"store"⟩, ?_⟩
  intro uri scheme rest hsplit
  show joiningFactory ⟨"store"⟩ uri = _
  rw [joiningFactory, hsplit]
  rfl

/-- A tree with one run, whose artifacts are at a URI. -/
def runTree (artifactUri : String) : FileTree :=
  ⟨.directory [("runs", .directory [("0", .directory [("abc", .directory [(RunStore.recordName,
    .file ("run_id: abc\nexperiment_id: '0'\nartifact_uri: " ++ artifactUri ++
      "\nstart_time: 1970-01-01T00:00:00Z\n").toUTF8)])])])], [], rfl, rfl⟩

theorem scheme_runs :
    (schemeResolver.runs.artifactUri (runTree "mem://a") "abc").toOption = some "mem://a" ∧
    succeeds (schemeResolver.logModel "abc" "b//c" .empty (runTree "mem://a")) (fun _ _ => true) =
      true ∧
    (schemeResolver.runs.artifactUri (runTree "mem://") "abc").toOption = some "mem://" ∧
    (schemeResolver.ofRoot "mem://").toOption = some ⟨⟨"store/"⟩⟩ := by
  decide +kernel

theorem joinable_sample : Joinable "mem://a" "b//c" := by
  refine ⟨by decide, by decide, ?_⟩
  intro scheme rest hsplit
  obtain ⟨-, rfl⟩ := Prod.mk.inj (Option.some.inj hsplit)
  exact ⟨'a', by decide, by decide⟩

theorem runUri_sample :
    ((∃ a b, schemeResolver.uriFile (runTree "mem://a") "abc" "b//c" manifestName = .ok a ∧
      schemeResolver.runFile (runTree "mem://a") "abc" "b//c" manifestName = .ok b ∧
      SameFile a b) ∨
    ∃ e e', schemeResolver.uriFile (runTree "mem://a") "abc" "b//c" manifestName = .error e ∧
      schemeResolver.runFile (runTree "mem://a") "abc" "b//c" manifestName = .error e' ∧
      FailAlike e e') ∧
    ∃ info t' l, schemeResolver.logModel "abc" "b//c" .empty (runTree "mem://a") = .ok info t' ∧
      schemeResolver.LeadsTo (runTree "mem://a") t' info.uri
        (Manifest.empty.stamped "abc" "b//c") l := by
  obtain ⟨huri, logged, -⟩ := scheme_runs
  obtain ⟨info, t', hok, -⟩ := eq_ok_of_succeeds logged
  have recorded : ∀ root, schemeResolver.runs.artifactUri (runTree "mem://a") "abc" = .ok root →
      Joinable root "b//c" := by
    intro root hroot
    obtain rfl := Except.ok.inj ((eq_ok_of_toOption huri).symm.trans hroot)
    exact joinable_sample
  have hpath : ArtifactPath "b//c" := ⟨by decide, trimmed_loggedPath "b//c"⟩
  obtain ⟨same, leads⟩ := runUri_leads schemeResolver_factoriesJoin recorded hpath (by decide)
    plain_manifestName
  obtain ⟨l, hl⟩ := leads (by decide) (by decide) hok
  exact ⟨same, info, t', l, hok, hl⟩

/-- At a root that is nothing but a scheme, the URI of the run leads to another file than the one
below the run's repository. -/
theorem bareScheme_leads_elsewhere :
    ∃ a b, schemeResolver.uriFile (runTree "mem://") "abc" "b" manifestName = .ok a ∧
      schemeResolver.runFile (runTree "mem://") "abc" "b" manifestName = .ok b ∧
      a.components ≠ b.components := by
  obtain ⟨-, -, huri, hroot⟩ := scheme_runs
  have huri := eq_ok_of_toOption huri
  refine ⟨⟨"mem:/b/MLmodel"⟩, ⟨"store/b/MLmodel"⟩, ?_, ?_, by decide⟩
  · rw [uriFile, resolve_run huri]
    rfl
  · rw [runFile, ofRun, huri]
    simp only [bind, Except.bind, eq_ok_of_toOption hroot]
    rfl

end Resolver

end ModelShelf
