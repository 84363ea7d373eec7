import ModelShelf.Proofs.Store.RunPaths
import ModelShelf.Proofs.Uri.Schemes

/-!
URIs of files. A model, a repository, the place where runs are tracked and the root of a run may all
be named by one. The reader of URIs takes the scheme in any case. The other places take it in lower
case only: to them another spelling is a path of its own, or a scheme that somebody may register.
-/

namespace ModelShelf

open ModelUri (lowered fileScheme schemeMark)
open Text

variable {scheme : String}

/-! ### Spellings of the scheme -/

namespace ModelUri

theorem lowered_eq_self {s : List Char} (h : ∀ c ∈ lowered s, c.isAlpha = false) :
    lowered s = s := by
  refine (List.map_congr_left fun c hc => ?_).trans (List.map_id s)
  obtain hself | ⟨-, hlower⟩ := toLower_cases c
  · exact hself
  · have letter := isAlpha_iff.2 (.inr hlower)
    rw [h _ (List.mem_map_of_mem hc)] at letter
    cases letter

theorem length_of_file (h : lowered scheme.toList = fileScheme.toList) :
    scheme.toList.length = fileScheme.toList.length := by
  rw [← h, lowered, List.length_map]

/-- Any spelling of the scheme of files ends at the first mark of a URI that begins with it. -/
theorem splitScheme?_file (h : lowered scheme.toList = fileScheme.toList) (path : String) :
    ∃ name, splitScheme? (scheme ++ path).toList = some (name, path.toList) ∧
      lowered name = "file".toList ∧ (name = "file".toList ↔ scheme = fileScheme) := by
  have split : scheme.toList.map Char.toLower = "file".toList ++ schemeMark.toList := h
  obtain ⟨name, mark, hscheme, hname, hmark⟩ := List.map_eq_append_iff.1 split
  have solid : ∀ c ∈ lowered mark, c.isAlpha = false := by
    rw [show lowered mark = schemeMark.toList from hmark]
    exact List.all_iff_forall_prop.1 (by decide)
  obtain rfl : mark = schemeMark.toList := (lowered_eq_self solid).symm.trans hmark
  have behind : ':' ∉ name := by
    apply mark_not_mem_of_isScheme
    rw [← isScheme_lowered, show lowered name = "file".toList from hname]
    rfl
  refine ⟨name, ?_, hname, ?_⟩
  · rw [String.toList_append, hscheme, List.append_assoc]
    exact splitFirst?_behind_not_mem behind path.toList
  · rw [← String.toList_inj, hscheme]
    exact (List.append_left_inj (t := schemeMark.toList)).symm

end ModelUri

/-- The scheme of files is taken away in lower case only. -/
theorem Config.withoutFileScheme_append (h : lowered scheme.toList = fileScheme.toList)
    (path : String) :
    withoutFileScheme (scheme ++ path) = if scheme = fileScheme then path else scheme ++ path := by
  have size := ModelUri.length_of_file h
  split
  · rename_i heq
    have text : (scheme ++ path).toList = "file://".toList ++ path.toList := by
      rw [String.toList_append, heq]
      rfl
    rw [Resolver.withoutFileScheme_eq text, String.ofList_toList]
  · rename_i hne
    have hnone : stripPrefix? "file://".toList (scheme ++ path).toList = none := by
      rw [stripPrefix?_eq_none, String.toList_append]
      intro hprefix
      have hsame : fileScheme.toList <+: scheme.toList :=
        List.prefix_of_prefix_length_le hprefix (List.prefix_append _ _) size.ge
      exact hne (String.toList_inj.1 (hsame.eq_of_length size.symm).symm)
    rw [withoutFileScheme, hnone]

/-! ### All places -/

/-- All places that take the URI of a directory are at the directory `p` for this one. -/
structure UriAddresses (uri : String) (p : Path) : Prop where
  parsed : ModelUri.parse uri = .ok (.directory p)
  repository : Repository.ofUri uri = ⟨p⟩
  tracked : ∀ config : Config, config.trackingUri = uri → config.trackingRoot = p
  run : ∀ (r : Resolver) (t : FileTree) (runId : String),
    r.runs.artifactUri t runId = .ok uri → r.ofRun t runId = .ok ⟨p⟩

namespace Resolver

variable {r : Resolver} {t : FileTree} {runId root : String}

theorem ofRun_eq (recorded : r.runs.artifactUri t runId = .ok root) :
    r.ofRun t runId = r.ofRoot root := by
  rw [ofRun, recorded]
  rfl

/-- A run whose root has the scheme of files in another case is left to the factory of that name. -/
theorem ofRun_of_file (h : lowered scheme.toList = fileScheme.toList) (hne : scheme ≠ fileScheme)
    {path : String} (recorded : r.runs.artifactUri t runId = .ok (scheme ++ path)) :
    (∀ make, r.schemes.lookup "file" = some make → r.ofRun t runId = make (scheme ++ path)) ∧
    (r.schemes.lookup "file" = none →
      ∃ message, r.ofRun t runId = .error (.unsupportedUri message)) := by
  obtain ⟨name, hsplit, hname, hsame⟩ := ModelUri.splitScheme?_file h path
  have hother : name ≠ "file".toList := hne ∘ hsame.1
  have hkey : String.ofList (lowered name) = "file" := by rw [hname, String.ofList_toList]
  rw [ofRun_eq recorded]
  refine ⟨fun make hmake => ofRoot_factory hsplit hother (hkey ▸ hmake),
    fun hnone => ofRoot_unregistered hsplit hother (hkey ▸ hnone)⟩

end Resolver

/-- A URI of a file addresses the directory behind the scheme everywhere if the scheme is in lower
case. In any other case the reader of URIs still takes it away, while repositories and the place of
runs are at the path that the whole text is, and the root of a run is left to a factory or
refused. -/
theorem uriAddresses_iff (h : lowered scheme.toList = fileScheme.toList) (path : String) :
    (UriAddresses (scheme ++ path) ⟨path⟩ ↔ scheme = fileScheme) ∧
    ModelUri.parse (scheme ++ path) = .ok (.directory ⟨path⟩) ∧
    (scheme ≠ fileScheme →
      Repository.ofUri (scheme ++ path) = ⟨⟨scheme ++ path⟩⟩ ∧
      (∀ config : Config, config.trackingUri = scheme ++ path →
        config.trackingRoot = ⟨scheme ++ path⟩) ∧
      ∀ (r : Resolver) (t : FileTree) (runId : String),
        r.runs.artifactUri t runId = .ok (scheme ++ path) →
          (∀ make, r.schemes.lookup "file" = some make →
            r.ofRun t runId = make (scheme ++ path)) ∧
          (r.schemes.lookup "file" = none →
            ∃ message, r.ofRun t runId = .error (.unsupportedUri message))) := by
  have parsed : ModelUri.parse (scheme ++ path) = .ok (.directory ⟨path⟩) := by
    have text : (scheme ++ path).toList = scheme.toList ++ path.toList := String.toList_append
    rw [ModelUri.parse_file text h, String.ofList_toList]
  have without := Config.withoutFileScheme_append h path
  refine ⟨⟨fun all => ?_, ?_⟩, parsed, fun hne => ⟨?_, fun config hconfig => ?_, ?_⟩⟩
  · by_contra hne
    have whole : scheme ++ path = path := by
      rw [if_neg hne] at without
      have root := congrArg (fun repository => repository.root.text) all.repository
      exact without.symm.trans root
    have longer := congrArg (fun text => text.toList.length) whole
    have size : fileScheme.toList.length = 7 := rfl
    simp only [String.toList_append, List.length_append, ModelUri.length_of_file h] at longer
    omega
  · rintro rfl
    rw [if_pos rfl] at without
    refine ⟨parsed, ?_, fun config hconfig => ?_, fun r t runId recorded => ?_⟩
    · rw [Repository.ofUri, without]
    · rw [Config.trackingRoot, hconfig, without]
    · obtain ⟨name, hsplit, -, hsame⟩ := ModelUri.splitScheme?_file h path
      rw [hsame.2 rfl] at hsplit
      rw [Resolver.ofRun_eq recorded, Resolver.ofRoot_file hsplit, String.ofList_toList]
  · rw [Repository.ofUri, without, if_neg hne]
  · rw [Config.trackingRoot, hconfig, without, if_neg hne]
  · intro r t runId recorded
    exact Resolver.ofRun_of_file h hne recorded

theorem upperRun_runs :
    ((Resolver.ofRuns ⟨⟨"runs"⟩⟩).runs.artifactUri (Resolver.runTree "FILE:///x") "abc").toOption =
      some "FILE:///x" := by
  decide +kernel

theorem uriAddresses_iff_upper : lowered "FILE://".toList = fileScheme.toList ∧
    ModelUri.parse "FILE:///x" = .ok (.directory ⟨"/x"⟩) ∧
    Repository.ofUri "FILE:///x" = ⟨⟨"FILE:///x"⟩⟩ ∧
    ∃ message, (Resolver.ofRuns ⟨⟨"runs"⟩⟩).ofRun (Resolver.runTree "FILE:///x") "abc" =
      .error (.unsupportedUri message) := by
  have upper : lowered "FILE://".toList = fileScheme.toList := by decide
  obtain ⟨-, parsed, elsewhere⟩ := uriAddresses_iff upper "/x"
  obtain ⟨repository, -, run⟩ := elsewhere (by decide)
  exact ⟨upper, parsed, repository, (run _ _ _ (eq_ok_of_toOption upperRun_runs)).2 rfl⟩

theorem fileUri_places_disagree : ¬ ∀ scheme path : String,
    lowered scheme.toList = fileScheme.toList → UriAddresses (scheme ++ path) ⟨path⟩ := by
  intro always
  have all := always "FILE://" "/x" (by decide)
  exact absurd all.repository (by decide)

end ModelShelf
