import ModelShelf.Proofs.Uri.Parsing

/-!
Schemes in any case. The letters of a scheme may be written in upper or lower case, with the same
outcome: a URI whose scheme is written in another way names the same place, and one with a scheme
that the library does not own keeps its own text.
-/

namespace ModelShelf.ModelUri

open Text

variable {uri uri' : String} {s t rest : List Char}

/-! ### Lower case -/

theorem isAlpha_iff {c : Char} : c.isAlpha = true ↔
    (65 ≤ c.val.toNat ∧ c.val.toNat ≤ 90) ∨ 97 ≤ c.val.toNat ∧ c.val.toNat ≤ 122 := by
  delta Char.isAlpha Char.isUpper Char.isLower
  simp only [Bool.or_eq_true, Bool.and_eq_true, decide_eq_true_eq, UInt32.le_iff_toNat_le,
    ge_iff_le]
  exact Iff.rfl

/-- Only letters change, and they become letters of lower case. -/
theorem toLower_cases (c : Char) : c.toLower = c ∨
    c.isAlpha = true ∧ 97 ≤ c.toLower.val.toNat ∧ c.toLower.val.toNat ≤ 122 := by
  delta Char.toLower
  split
  · rename_i h
    have upper : 65 ≤ c.val.toNat ∧ c.val.toNat ≤ 90 := h
    have offset : UInt32.toNat 32 = 32 := rfl
    have small : (c.val + 32).toNat = c.val.toNat + 32 := by
      rw [UInt32.toNat_add, offset]
      exact Nat.mod_eq_of_lt (by omega)
    refine .inr ⟨isAlpha_iff.2 (.inl upper), ?_⟩
    show 97 ≤ (c.val + 32).toNat ∧ (c.val + 32).toNat ≤ 122
    omega
  · exact .inl rfl

theorem toLower_toLower (c : Char) : c.toLower.toLower = c.toLower := by
  obtain h | ⟨-, h, -⟩ := toLower_cases c
  · rw [h, h]
  · have notUpper : ¬ (c.toLower.val ≥ 'A'.val ∧ c.toLower.val ≤ 'Z'.val) := by
      rintro ⟨-, hle⟩
      have bound : c.toLower.val.toNat ≤ 90 := hle
      omega
    generalize c.toLower = d at notUpper
    exact dif_neg notUpper

theorem lowered_lowered (s : List Char) : lowered (lowered s) = lowered s := by
  rw [lowered, lowered, List.map_map]
  exact List.map_congr_left fun c _ => toLower_toLower c

theorem isScheme_lowered (s : List Char) : isScheme (lowered s) = isScheme s := by
  have same (p : Char → Bool) (alpha : ∀ c : Char, c.isAlpha = true → p c = true) (c : Char) :
      p c.toLower = p c := by
    obtain h | ⟨h, h'⟩ := toLower_cases c
    · rw [h]
    · rw [alpha _ h, alpha _ (isAlpha_iff.2 (.inr h'))]
  cases s with
  | nil => rfl
  | cons first rest =>
    show isScheme (first.toLower :: rest.map Char.toLower) = _
    rw [isScheme, isScheme, same _ (fun _ h => h), List.all_map]
    congr 2
    funext c
    exact same (fun c => c.isAlphanum || c = '+' || c = '-' || c = '.')
      (fun c h => by simp [Char.isAlphanum, h]) c

theorem isScheme_of_lowered (same : lowered s = lowered t) : isScheme s = isScheme t := by
  rw [← isScheme_lowered, same, isScheme_lowered]

theorem lowered_append (s t : List Char) : lowered (s ++ t) = lowered s ++ lowered t :=
  List.map_append

/-! ### The scheme of a URI -/

/-- A scheme of the library is found in any case. -/
theorem stripScheme?_own {scheme : String} {front : List Char}
    (h : lowered front = scheme.toList) : stripScheme? scheme (front ++ rest) = some rest := by
  have size : scheme.toList.length = front.length := by rw [← h, lowered, List.length_map]
  rw [stripScheme?, size, List.take_left, if_pos h, List.drop_left]

/-- Where one scheme is found, one that is neither shorter nor longer is not. -/
theorem stripScheme?_other {scheme : String} (other : String) {front : List Char}
    (h : lowered front = scheme.toList) (hne : ¬ other.toList <+: scheme.toList)
    (hne' : ¬ scheme.toList <+: other.toList) : stripScheme? other (front ++ rest) = none := by
  rw [stripScheme?_eq_none, lowered_append, h]
  intro hother
  obtain hprefix | hprefix := List.prefix_or_prefix_of_prefix hother (List.prefix_append _ _)
  · exact hne hprefix
  · exact hne' hprefix

/-- A scheme with another name is not found. -/
theorem stripScheme?_named {scheme : String} {name more head : List Char}
    (hscheme : scheme.toList = name ++ ':' :: more) (hname : ':' ∉ name)
    (hhead : isScheme head = true) (hne : lowered head ≠ name) :
    stripScheme? scheme (head ++ schemeMark.toList ++ rest) = none := by
  rw [stripScheme?_eq_none, hscheme, lowered_append, lowered_append]
  rintro ⟨after, hafter⟩
  have single : lowered schemeMark.toList = [':', '/', '/'] := rfl
  rw [single, List.append_assoc, List.append_assoc, List.cons_append, List.cons_append] at hafter
  have hmark : ':' ∉ lowered head :=
    mark_not_mem_of_isScheme ((isScheme_lowered head).trans hhead)
  have split := splitFirst?_of_not_mem hname (more ++ after)
  rw [hafter, splitFirst?_of_not_mem hmark] at split
  exact hne (Prod.mk.inj (Option.some.inj split)).1

section Parsing

variable {front : List Char} (text : uri.toList = front ++ rest)

include text

theorem parse_runs (h : lowered front = runScheme.toList) :
    parse uri = (run? rest).elim (.error (improperRun uri)) .ok := by
  rw [parse]
  simp only [text, stripScheme?_own h]

theorem parse_registry (h : lowered front = registryScheme.toList) :
    parse uri = (registered? rest).elim (.error (improperRegistered uri)) .ok := by
  rw [parse]
  simp only [text, stripScheme?_own h,
    stripScheme?_other runScheme h (by decide) (by decide)]

theorem parse_file (h : lowered front = fileScheme.toList) :
    parse uri = .ok (.directory ⟨String.ofList rest⟩) := by
  rw [parse]
  simp only [text, stripScheme?_own h,
    stripScheme?_other runScheme h (by decide) (by decide),
    stripScheme?_other registryScheme h (by decide) (by decide)]

end Parsing

/-- The schemes that the library owns, and their names. -/
def ownSchemes : List String := [runScheme, registryScheme, fileScheme]
def ownNames : List String := ["runs", "models", "file"]

/-- Where one of these names stands before a mark, one of the schemes is found. -/
theorem exists_own {name : List Char} (h : String.ofList (lowered name) ∈ ownNames) :
    ∃ scheme ∈ ownSchemes, ∃ more others, schemeMark.toList = more ++ others ∧
      lowered (name ++ more) = scheme.toList := by
  have back {own : String} (h : String.ofList (lowered name) = own) :
      lowered name = own.toList := by rw [← h, String.toList_ofList]
  simp only [ownNames, List.mem_cons, List.not_mem_nil, or_false] at h
  rcases h with h | h | h
  · refine ⟨runScheme, by decide, [':', '/'], ['/'], rfl, ?_⟩
    rw [lowered_append, back h]
    rfl
  · refine ⟨registryScheme, by decide, [':', '/'], ['/'], rfl, ?_⟩
    rw [lowered_append, back h]
    rfl
  · refine ⟨fileScheme, by decide, schemeMark.toList, [], rfl, ?_⟩
    rw [lowered_append, back h]
    rfl

theorem parse_remote {head : List Char} (text : uri.toList = head ++ schemeMark.toList ++ rest)
    (hhead : isScheme head = true) (foreign : String.ofList (lowered head) ∉ ownNames) :
    parse uri = .ok (.remote (String.ofList (lowered head)) uri) := by
  have missing (scheme name : String) {more : List Char} (hname : name ∈ ownNames)
      (hscheme : scheme.toList = name.toList ++ ':' :: more) (hmark : ':' ∉ name.toList) :
      stripScheme? scheme uri.toList = none := by
    rw [text]
    refine stripScheme?_named hscheme hmark hhead fun heq => foreign ?_
    rw [heq, String.ofList_toList]
    exact hname
  have hrun := missing runScheme "runs" (by decide) rfl (by decide)
  have hregistry := missing registryScheme "models" (by decide) rfl (by decide)
  have hfile := missing fileScheme "file" (by decide) rfl (by decide)
  have hremote : remoteScheme? uri.toList = some head := by
    have hsplit : splitScheme? (head ++ (schemeMark.toList ++ rest)) = some (head, rest) :=
      splitFirst?_behind_not_mem (mark_not_mem_of_isScheme hhead) rest
    rw [remoteScheme?, text, List.append_assoc, hsplit]
    exact if_pos hhead
  rw [parse]
  simp only [hrun, hregistry, hfile, hremote]

theorem ne_remote_of_run? {x : ModelUri} (h : run? rest = some x) (scheme text : String) :
    x ≠ .remote scheme text := by
  obtain ⟨_, _, rfl, -⟩ := run_of_run? h
  nofun

theorem ne_remote_of_registered? {x : ModelUri} (h : registered? rest = some x)
    (scheme text : String) : x ≠ .remote scheme text := by
  rintro rfl
  exact Bool.false_ne_true (display_of_registered? h).1

theorem ne_remote_of_elim {found : Option ModelUri} {e : Error} {scheme text : String}
    (owned : ∀ x, found = some x → x ≠ .remote scheme text) :
    found.elim (.error e) .ok ≠ (.ok (.remote scheme text) : Result ModelUri) := by
  cases found with
  | none => nofun
  | some x =>
    intro h
    exact owned x rfl (Except.ok.inj h)

theorem not_own_of_unowned {head : List Char}
    (unowned : ∀ scheme ∈ ownSchemes, stripScheme? scheme uri.toList = none)
    (hsplit : splitScheme? uri.toList = some (head, rest)) :
    String.ofList (lowered head) ∉ ownNames := by
  intro hown
  obtain ⟨scheme, hscheme, more, others, hmark, hfront⟩ := exists_own hown
  apply stripScheme?_eq_none.1 (unowned scheme hscheme)
  rw [eq_of_splitFirst? hsplit, hmark, List.append_assoc, ← List.append_assoc head, lowered_append,
    hfront]
  exact List.prefix_append _ _

/-- A place that only its scheme knows has the whole URI as its text. Its scheme is the name before
the first mark in lower case, and none of the library's. -/
theorem remote_of_parse {scheme text : String} (h : parse uri = .ok (.remote scheme text)) :
    text = uri ∧ ∃ head rest, splitScheme? uri.toList = some (head, rest) ∧
      scheme = String.ofList (lowered head) ∧ scheme ∉ ownNames := by
  rw [parse] at h
  split at h
  · exact absurd h (ne_remote_of_elim fun x hx => ne_remote_of_run? hx scheme text)
  · rename_i hrun
    split at h
    · exact absurd h (ne_remote_of_elim fun x hx => ne_remote_of_registered? hx scheme text)
    · rename_i hregistry
      split at h
      · cases h
      · rename_i hfile
        split at h
        · rename_i head hhead
          obtain ⟨hscheme, htext⟩ := ModelUri.remote.inj (Except.ok.inj h)
          rw [remoteScheme?] at hhead
          split at hhead
          · rename_i first rest hsplit
            split at hhead
            · obtain rfl := Option.some.inj hhead
              refine ⟨htext.symm, first, rest, hsplit, hscheme.symm, ?_⟩
              rw [← hscheme]
              refine not_own_of_unowned ?_ hsplit
              simp only [ownSchemes, List.forall_mem_cons]
              exact ⟨hrun, hregistry, hfile, List.forall_mem_nil _⟩
            · cases hhead
          · cases hhead
        · split at h
          · cases h
          · cases h

/-! ### URIs that differ in the case of the scheme -/

/-- The second text is the first one with its scheme in another case. The scheme is one of the
library's with a single slash, or a name before the first mark. -/
inductive Recased : String → String → Prop
  | own {scheme front front' : String} (rest : String)
      (hscheme : scheme ∈ [runScheme, registryScheme])
      (hfront : lowered front.toList = scheme.toList)
      (hfront' : lowered front'.toList = scheme.toList) : Recased (front ++ rest) (front' ++ rest)
  | named {name name' : String} (rest : String) (hname : isScheme name.toList = true)
      (same : lowered name'.toList = lowered name.toList) :
      Recased (name ++ schemeMark ++ rest) (name' ++ schemeMark ++ rest)

/-- What is read from two texts: nothing, the same place, or places of one scheme in lower case,
each with its own text. -/
inductive ReadAlike (uri uri' : String) : Result ModelUri → Result ModelUri → Prop
  | refused {e e' : Error} (code : e.code = e'.code) : ReadAlike uri uri' (.error e) (.error e')
  | same {x : ModelUri} (owned : ∀ scheme text, x ≠ .remote scheme text) :
      ReadAlike uri uri' (.ok x) (.ok x)
  | remote {scheme : String} (low : lowered scheme.toList = scheme.toList) :
      ReadAlike uri uri' (.ok (.remote scheme uri)) (.ok (.remote scheme uri'))

theorem readAlike_elim {found : Option ModelUri} {e e' : Error} (code : e.code = e'.code)
    (owned : ∀ x, found = some x → ∀ scheme text, x ≠ .remote scheme text) :
    ReadAlike uri uri' (found.elim (.error e) .ok) (found.elim (.error e') .ok) := by
  cases found with
  | none => exact .refused code
  | some x => exact .same (owned x rfl)

theorem readAlike_own {scheme : String} {front front' : List Char} (hscheme : scheme ∈ ownSchemes)
    (text : uri.toList = front ++ rest) (text' : uri'.toList = front' ++ rest)
    (hfront : lowered front = scheme.toList) (hfront' : lowered front' = scheme.toList) :
    ReadAlike uri uri' (parse uri) (parse uri') := by
  simp only [ownSchemes, List.mem_cons, List.not_mem_nil, or_false] at hscheme
  rcases hscheme with rfl | rfl | rfl
  · rw [parse_runs text hfront, parse_runs text' hfront']
    exact readAlike_elim rfl fun x hx => ne_remote_of_run? hx
  · rw [parse_registry text hfront, parse_registry text' hfront']
    exact readAlike_elim rfl fun x hx => ne_remote_of_registered? hx
  · rw [parse_file text hfront, parse_file text' hfront']
    exact .same nofun

/-- What a URI is read as does not depend on the case of its scheme. -/
theorem readAlike_of_recased (h : Recased uri uri') :
    ReadAlike uri uri' (parse uri) (parse uri') := by
  cases h with
  | own rest hscheme hfront hfront' =>
    exact readAlike_own (List.mem_append_left [fileScheme] hscheme) String.toList_append
      String.toList_append hfront hfront'
  | named rest hname same =>
    rename_i name name'
    have text (n : String) :
        (n ++ schemeMark ++ rest).toList = n.toList ++ schemeMark.toList ++ rest.toList := by
      rw [String.toList_append, String.toList_append]
    by_cases hown : String.ofList (lowered name.toList) ∈ ownNames
    · obtain ⟨scheme, hscheme, more, others, hmark, hfront⟩ := exists_own hown
      have split (n : String) :
          (n ++ schemeMark ++ rest).toList = (n.toList ++ more) ++ (others ++ rest.toList) := by
        rw [text, hmark, List.append_assoc, List.append_assoc, List.append_assoc]
      refine readAlike_own hscheme (split name) (split name') hfront ?_
      rw [lowered_append, same, ← lowered_append, hfront]
    · have hname' := (isScheme_of_lowered same).trans hname
      have hother : String.ofList (lowered name'.toList) ∉ ownNames := by rwa [same]
      rw [parse_remote (text name) hname hown, parse_remote (text name') hname' hother, same]
      refine .remote ?_
      rw [String.toList_ofList, lowered_lowered]

end ModelShelf.ModelUri
