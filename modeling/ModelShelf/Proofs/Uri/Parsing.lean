import ModelShelf.Proofs.Uri.Marks

/-!
Places and their texts. What is read from a URI is read again from its own text: case, slashes and
the rest of what the text leaves out do not matter. A directory does not tell whether it was named
by a URI. Its text is the path alone, and such a text may be a URI of its own.
-/

namespace ModelShelf.ModelUri

open Text

variable {uri : String} {s rest : List Char} {x : ModelUri}

/-- A text that is read as a path because it has no scheme. -/
structure Bare (path : String) : Prop where
  solid : path ≠ ""
  unowned : ∀ scheme ∈ [runScheme, registryScheme, fileScheme],
    ¬ scheme.toList <+: lowered path.toList
  unschemed : ∀ scheme rest, path.toList = scheme ++ (schemeMark.toList ++ rest) →
    isScheme scheme = false

/-! ### Schemes -/

theorem stripScheme?_eq_none {scheme : String} :
    stripScheme? scheme s = none ↔ ¬ scheme.toList <+: lowered s := by
  rw [stripScheme?, List.prefix_iff_eq_take, lowered, List.map_take, lowered,
    Eq.comm (a := scheme.toList)]
  split <;> simp_all

theorem drop_of_stripScheme? {scheme : String} (h : stripScheme? scheme s = some rest) :
    s.drop scheme.toList.length = rest := by
  rw [stripScheme?] at h
  split at h
  · exact Option.some.inj h
  · cases h

theorem prefix_of_stripScheme? {scheme : String} (h : stripScheme? scheme s = some rest) :
    scheme.toList <+: lowered s := by
  by_contra hnone
  rw [stripScheme?_eq_none.2 hnone] at h
  cases h

theorem stripScheme?_append {scheme : String} (low : lowered scheme.toList = scheme.toList) :
    stripScheme? scheme (scheme.toList ++ rest) = some rest := by
  rw [stripScheme?, List.take_left, if_pos low, List.drop_left]

theorem mark_not_mem_of_isScheme (h : isScheme s = true) : ':' ∉ s := by
  intro hmem
  cases s with
  | nil => cases hmem
  | cons first more =>
    rw [isScheme, Bool.and_eq_true] at h
    rcases List.mem_cons.1 hmem with rfl | hmore
    · exact absurd h.1 (by decide)
    · exact absurd (List.all_eq_true.1 h.2 _ hmore) (by decide)

theorem remoteScheme?_eq_none :
    remoteScheme? s = none ↔
      ∀ scheme rest, s = scheme ++ (schemeMark.toList ++ rest) → isScheme scheme = false := by
  rw [remoteScheme?]
  constructor
  · rintro h scheme rest rfl
    by_contra hscheme
    rw [Bool.not_eq_false] at hscheme
    have hsplit : splitScheme? (scheme ++ (schemeMark.toList ++ rest)) = some (scheme, rest) :=
      splitFirst?_behind_not_mem (mark_not_mem_of_isScheme hscheme) rest
    simp [hsplit, hscheme] at h
  · intro h
    cases hsplit : splitScheme? s with
    | none => rfl
    | some parts =>
      obtain ⟨scheme, rest⟩ := parts
      simp [h scheme rest (eq_of_splitFirst? hsplit)]

/-! ### What the parts of a URI say -/

theorem run_of_run? (h : run? rest = some x) :
    ∃ runId path, x = .run runId path ∧ runId ≠ "" ∧ '/' ∉ runId.toList ∧ path ≠ "" ∧
      Trimmed isSlash path.toList := by
  rw [run?] at h
  split at h
  · cases h
  · rename_i runId path hsplit
    simp only at h
    split at h
    · cases h
    · rename_i hsolid
      rw [Bool.or_eq_true, not_or, List.isEmpty_iff, List.isEmpty_iff] at hsolid
      refine ⟨_, _, (Option.some.inj h).symm, ?_, ?_, ?_, ?_⟩
      · exact fun hempty => hsolid.1 (String.ofList_eq_empty_iff.1 hempty)
      · rw [String.toList_ofList]
        exact (splitFirst?_single.1 hsplit).2
      · exact fun hempty => hsolid.2 (String.ofList_eq_empty_iff.1 hempty)
      · rw [String.toList_ofList]
        exact trimmed_trim isSlash path

theorem registered?_trim : registered? (trim isSlash rest) = registered? rest := by
  rw [registered?, registered?, trim_of_trimmed (trimmed_trim isSlash rest)]

/-- The text of a registered model is what was read of it, without the slashes around. -/
theorem display_of_registered? (h : registered? rest = some x) :
    x.isRegistered ∧ x.display.toList = registryScheme.toList ++ trim isSlash rest := by
  rw [registered?] at h
  split at h
  · rename_i name version hsplit
    split at h
    · cases h
    · obtain rfl := Option.some.inj h
      refine ⟨rfl, ?_⟩
      rw [eq_of_splitFirst? hsplit]
      simp [display, String.toList_append]
  · split at h
    · rename_i name pointer hsplit
      split at h
      · cases h
      · obtain rfl := Option.some.inj h
        refine ⟨rfl, ?_⟩
        rw [eq_of_splitLast? hsplit]
        simp [display, String.toList_append]
    · cases h

/-- The forms of a URI: with a scheme of the library, with another one, or with none. -/
theorem parse_cases (h : parse uri = .ok x) :
    (∃ rest, run? rest = some x) ∨
    (∃ rest, registered? rest = some x) ∨
    (∃ path, stripScheme? fileScheme uri.toList = some path ∧
      x = .directory ⟨String.ofList path⟩) ∨
    (∃ scheme, x = .remote scheme uri) ∨
    (Bare uri ∧ x = .directory ⟨uri⟩) := by
  rw [parse] at h
  split at h
  · rename_i rest _
    cases hrun : run? rest with
    | none =>
      rw [hrun] at h
      cases h
    | some found =>
      rw [hrun] at h
      exact .inl ⟨rest, hrun.trans (congrArg some (Except.ok.inj h))⟩
  · rename_i hrun
    split at h
    · rename_i rest _
      cases hregistered : registered? rest with
      | none =>
        rw [hregistered] at h
        cases h
      | some found =>
        rw [hregistered] at h
        exact .inr (.inl ⟨rest, hregistered.trans (congrArg some (Except.ok.inj h))⟩)
    · rename_i hregistry
      split at h
      · rename_i path hfile
        exact .inr (.inr (.inl ⟨path, hfile, (Except.ok.inj h).symm⟩))
      · rename_i hfile
        split at h
        · rename_i scheme _
          exact .inr (.inr (.inr (.inl ⟨_, (Except.ok.inj h).symm⟩)))
        · rename_i hremote
          split at h
          · cases h
          · rename_i hsolid
            have unowned : ∀ scheme ∈ [runScheme, registryScheme, fileScheme],
                ¬ scheme.toList <+: lowered uri.toList := by
              simp only [List.forall_mem_cons, ← stripScheme?_eq_none]
              exact ⟨hrun, hregistry, hfile, List.forall_mem_nil _⟩
            have bare : Bare uri := {
              solid := fun hempty => hsolid (by rw [hempty]; rfl)
              unowned := unowned
              unschemed := remoteScheme?_eq_none.1 hremote }
            exact .inr (.inr (.inr (.inr ⟨bare, (Except.ok.inj h).symm⟩)))

/-- A text is read as the path it is exactly if it is bare. -/
theorem parse_eq_directory_self {path : String} :
    parse path = .ok (.directory ⟨path⟩) ↔ Bare path := by
  constructor
  · intro h
    rcases parse_cases h with ⟨_, hrun⟩ | ⟨_, hregistered⟩ | ⟨rest, hfile, heq⟩ | ⟨_, hremote⟩ |
      ⟨bare, -⟩
    · obtain ⟨_, _, heq, -⟩ := run_of_run? hrun
      cases heq
    · exact absurd (display_of_registered? hregistered).1 Bool.false_ne_true
    · obtain rfl : path = String.ofList rest := congrArg Path.text (ModelUri.directory.inj heq)
      have shorter := congrArg List.length (drop_of_stripScheme? hfile)
      have longer := (prefix_of_stripScheme? hfile).length_le
      rw [lowered, List.length_map] at longer
      have size : fileScheme.toList.length = 7 := rfl
      rw [String.toList_ofList] at shorter longer
      rw [List.length_drop] at shorter
      omega
    · cases hremote
    · exact bare
  · intro h
    have unowned := h.unowned
    simp only [List.forall_mem_cons, ← stripScheme?_eq_none] at unowned
    have hsolid : ¬ path.isEmpty = true := by
      rw [String.isEmpty_iff]
      exact h.solid
    rw [parse]
    simp only [unowned.1, unowned.2.1, unowned.2.2.1, remoteScheme?_eq_none.2 h.unschemed]
    rw [if_neg hsolid]

theorem parse_display_of_registered? (h : registered? rest = some x) :
    parse x.display = .ok x := by
  have text := (display_of_registered? h).2
  have hrun : stripScheme? runScheme (registryScheme.toList ++ trim isSlash rest) = none := by
    rw [stripScheme?_eq_none, lowered, List.map_append]
    intro hfront
    exact absurd (List.cons_prefix_cons.1 hfront).1 (by decide)
  have hregistry : stripScheme? registryScheme (registryScheme.toList ++ trim isSlash rest) =
      some (trim isSlash rest) := stripScheme?_append (by decide)
  rw [parse, text]
  simp only [hrun, hregistry, registered?_trim, h]
  rfl

/-- Whatever is read from a URI is read again from its text, save for a directory whose path has
the form of a URI; such a path stands behind the scheme of files only. -/
theorem parse_display (h : parse uri = .ok x) :
    (¬ fileScheme.toList <+: lowered uri.toList → parse x.display = .ok x) ∧
    (parse x.display = .ok x ↔ ∀ path, x = .directory path → Bare path.text) := by
  rcases parse_cases h with ⟨_, hrun⟩ | ⟨_, hregistered⟩ | ⟨path, hfile, rfl⟩ | ⟨_, rfl⟩ |
    ⟨bare, rfl⟩
  · obtain ⟨runId, path, rfl, named, single, solid, trimmed⟩ := run_of_run? hrun
    have again : parse (display (.run runId path)) = .ok (.run runId path) :=
      parse_runUri named single solid trimmed
    exact ⟨fun _ => again, ⟨fun _ _ heq => (by cases heq), fun _ => again⟩⟩
  · have again := parse_display_of_registered? hregistered
    refine ⟨fun _ => again, fun _ path heq => ?_, fun _ => again⟩
    rw [heq] at hregistered
    exact absurd (display_of_registered? hregistered).1 Bool.false_ne_true
  · refine ⟨fun hnot => absurd (prefix_of_stripScheme? hfile) hnot, fun again _ heq => ?_, ?_⟩
    · obtain rfl := ModelUri.directory.inj heq
      exact parse_eq_directory_self.1 again
    · intro bare
      exact parse_eq_directory_self.2 (bare _ rfl)
  · exact ⟨fun _ => h, ⟨fun _ _ heq => (by cases heq), fun _ => h⟩⟩
  · refine ⟨fun _ => h, fun _ _ heq => ?_, fun _ => h⟩
    obtain rfl := ModelUri.directory.inj heq
    exact bare

theorem parse_display_sample :
    parse "Models://clf@a@b/" = .ok (.registered "clf@a" (.pointer "b")) ∧
    parse "models:/clf@a@b" = .ok (.registered "clf@a" (.pointer "b")) := by
  have parsed : parse "Models://clf@a@b/" = .ok (.registered "clf@a" (.pointer "b")) :=
    eq_ok_of_toOption (by decide)
  exact ⟨parsed, (parse_display parsed).1 (by decide)⟩

/-- Behind the scheme of files a path may look like the URI of a run. -/
theorem display_of_file_names_run :
    parse "file://runs:/abc/model" = .ok (.directory ⟨"runs:/abc/model"⟩) ∧
    parse (display (.directory ⟨"runs:/abc/model"⟩)) = .ok (.run "abc" "model") :=
  ⟨eq_ok_of_toOption (by decide), eq_ok_of_toOption (by decide)⟩

end ModelShelf.ModelUri
