import ModelShelf.Proofs.Files.Names
import ModelShelf.Proofs.Files.Writing

/-!
Paths that spell the same names in different ways, with more slashes or with dots that mean nothing.
From a directory, dots lead nowhere else, so all spellings of a path lead to the same place. A file
that was written is at the place where its path leads, however it is spelled.
-/

namespace ModelShelf

open Text

/-- The text of a component that is a name. -/
def Component.name? : Component → Option String
  | .name text => some text
  | _ => none

namespace Path

/-! ### The names in a path -/

/-- The names in a path. -/
def names (p : Path) : List String := p.components.filterMap Component.name?

theorem filterMap_componentOf {words : List String} (h : ∀ word ∈ words, word ≠ "..") :
    (words.map componentOf).filterMap Component.name? = words := by
  induction words with
  | nil => rfl
  | cons word words ih =>
    rw [List.map_cons, componentOf, if_neg (h word List.mem_cons_self), List.filterMap_cons]
    exact congrArg (word :: ·) (ih fun other hother => h other (List.mem_cons_of_mem word hother))

theorem names_eq {p : Path} (h : ∀ word ∈ p.words, word ≠ "..") :
    p.names = p.words.filter fun word => !isIdle word := by
  have hlead : p.lead.filterMap Component.name? = [] := by
    rw [lead]
    split
    · rfl
    · split <;> rfl
  rw [names, components, filter_parts, List.filterMap_append, hlead, List.nil_append]
  exact filterMap_componentOf fun word hword => h word (List.mem_filter.1 hword).1

theorem words_eq_of_parts {p : Path} {front : List String} {last : String}
    (h : p.parts = front ++ [last]) (solid : last ≠ "") :
    ∃ before, p.words = before ++ [last] := by
  refine ⟨front.filter fun part => part ≠ "", ?_⟩
  rw [words, h, List.filter_append, List.filter_cons_of_pos (by simpa using solid),
    List.filter_nil]

/-- The last part is empty only if there is no text behind the last mark. -/
theorem getLast?_of_splitAll {s : List Char} (h : (splitAll '/' s).getLast? = some []) :
    s = [] ∨ s.getLast? = some '/' := by
  induction s with
  | nil => exact .inl rfl
  | cons c s ih =>
    right
    rw [splitAll] at h
    split at h
    · rename_i hc
      rw [List.getLast?_cons_of_ne_nil (splitAll_ne_nil '/' s)] at h
      rcases ih h with rfl | hlast
      · rw [eq_of_beq hc]
        rfl
      · rw [List.getLast?_cons, hlast]
        rfl
    · cases hs : splitAll '/' s with
      | nil => exact absurd hs (splitAll_ne_nil '/' s)
      | cons part parts =>
        rw [hs] at h ih
        cases parts with
        | nil => cases h
        | cons next parts =>
          rcases ih h with rfl | hlast
          · cases hs
          · rw [List.getLast?_cons, hlast]
            rfl

/-- A relative path that ends in neither a slash nor a dot ends in a word that is no dot. -/
theorem exists_last_word {p : Path} (relative : p.isAbsolute = false) (hne : p.text ≠ "")
    (notSlash : p.text.toList.getLast? ≠ some '/') (notDot : p.parts.getLast? ≠ some ".") :
    ∃ front last, p.words = front ++ [last] ∧ last ≠ "." := by
  have hparts : p.parts = (splitAll '/' p.text.toList).map String.ofList := by
    rw [parts, relative]
    rfl
  have hsplit : p.parts ≠ [] := by
    rw [hparts]
    exact mt List.map_eq_nil_iff.1 (splitAll_ne_nil '/' _)
  obtain ⟨front, last, hlast⟩ := (List.eq_nil_or_concat p.parts).resolve_left hsplit
  rw [List.concat_eq_append] at hlast
  have solid : last ≠ "" := by
    rintro rfl
    have hempty : (splitAll '/' p.text.toList).getLast? = some [] := by
      have h := congrArg List.getLast? (hparts.symm.trans hlast)
      rw [List.getLast?_map, List.getLast?_concat] at h
      obtain ⟨part, hpart, htext⟩ := Option.map_eq_some_iff.1 h
      rw [hpart, String.ofList_eq_empty_iff.1 htext]
    rcases getLast?_of_splitAll hempty with htext | hslash
    · exact hne (String.toList_eq_nil_iff.1 htext)
    · exact notSlash hslash
  obtain ⟨before, hwords⟩ := words_eq_of_parts hlast solid
  refine ⟨before, last, hwords, ?_⟩
  rintro rfl
  rw [hlast, List.getLast?_concat] at notDot
  exact notDot rfl

/-- A character that is no slash is part of a word. -/
theorem exists_word_of_mem {s : List Char} {c : Char} (h : c ∈ s) (hc : c ≠ '/') :
    ∃ word ∈ wordsOf s, c ∈ word.toList := by
  have hpart : ∃ part ∈ splitAll '/' s, c ∈ part := by
    induction s with
    | nil => cases h
    | cons first s ih =>
      rw [splitAll]
      split
      · rename_i hfirst
        rcases List.mem_cons.1 h with rfl | h
        · exact absurd (eq_of_beq hfirst) hc
        · obtain ⟨part, hpart, hmem⟩ := ih h
          exact ⟨part, List.mem_cons_of_mem _ hpart, hmem⟩
      · cases hs : splitAll '/' s with
        | nil => exact absurd hs (splitAll_ne_nil '/' s)
        | cons part parts =>
          rcases List.mem_cons.1 h with rfl | h
          · exact ⟨_, List.mem_cons_self, List.mem_cons_self⟩
          · obtain ⟨found, hfound, hmem⟩ := ih h
            rw [hs] at hfound
            rcases List.mem_cons.1 hfound with rfl | hfound
            · exact ⟨_, List.mem_cons_self, List.mem_cons_of_mem _ hmem⟩
            · exact ⟨found, List.mem_cons_of_mem _ hfound, hmem⟩
  obtain ⟨part, hpart, hmem⟩ := hpart
  refine ⟨String.ofList part, List.mem_filter.2 ⟨List.mem_map.2 ⟨part, hpart, rfl⟩, ?_⟩, ?_⟩
  · cases part with
    | nil => cases hmem
    | cons => simp
  · rwa [String.toList_ofList]

end Path

/-! ### Where spellings lead -/

namespace FileTree

open ModelShelf.Path (Plain isIdle)

variable {t t' : FileTree}

/-- Seen from a directory, words that are dots lead nowhere else. -/
theorem walk_filter {l : Location} (here : ∃ entries, t.get? l = some (.directory entries))
    (words : List String) :
    t.walk l (words.filter fun word => !isIdle word) = t.walk l words := by
  induction words generalizing l with
  | nil => rfl
  | cons word words ih =>
    by_cases hidle : isIdle word = true
    · have hstay : t.walk l (word :: words) = t.walk l words := by
        obtain ⟨entries, there⟩ := here
        rw [walk, List.foldlM_cons, step, if_pos hidle]
        simp only [bind, Except.bind, there]
        rfl
      rw [List.filter_cons_of_neg (by simpa using hidle), hstay]
      exact ih here
    · rw [List.filter_cons_of_pos (by simpa using hidle), walk, walk, List.foldlM_cons,
        List.foldlM_cons]
      cases step l word with
      | error => rfl
      | ok next =>
        simp only [bind, Except.bind]
        cases hnext : t.get? next with
        | none => rfl
        | some node =>
          cases node with
          | file => rfl
          | directory entries => exact ih ⟨entries, hnext⟩

/-- Where a path leads goes by its names, if it ends in a name. -/
theorem aim_of_words {p q : Path} (start : t.start q = t.start p)
    (same : (q.words.filter fun word => !isIdle word) = p.words.filter fun word => !isIdle word)
    {front front' : List String} {name name' : String} (plain : Plain name) (plain' : Plain name')
    (hwords : p.words = front ++ [name]) (hwords' : q.words = front' ++ [name']) {g : Target}
    (h : t.aim p = .ok g) : t.aim q = .ok ⟨g.place, q.text.toList.getLast? = some '/', true⟩ := by
  obtain ⟨dir, hdir, hsize, rfl⟩ := (aim_eq_ok plain hwords).1 h
  have hlast {front : List String} {name : String} (plain : Plain name) :
      ((front ++ [name]).filter fun word => !isIdle word) =
        (front.filter fun word => !isIdle word) ++ [name] := by
    rw [List.filter_append, List.filter_cons_of_pos (by simp [plain.solid]), List.filter_nil]
  rw [hwords, hwords', hlast plain, hlast plain'] at same
  obtain ⟨hfront, hname⟩ := List.append_inj' same rfl
  obtain rfl := List.singleton_inj.1 hname
  refine (aim_eq_ok plain hwords').2 ⟨dir, ?_, hsize, rfl⟩
  rw [start, ← walk_filter (t.directory_start p), hfront, walk_filter (t.directory_start p)]
  exact hdir

theorem target_eq_ok {p : Path} {g : Target} :
    t.target p = .ok g ↔ p.text ≠ "" ∧ '\x00' ∉ p.text.toList ∧
      p.text.utf8ByteSize ≤ greatestPath ∧ t.aim p = .ok g := by
  rw [target_eq_aim]
  split
  · rename_i hempty
    simp [String.isEmpty_iff.1 hempty]
  · rename_i hne
    split
    · rename_i hnul
      simp [List.contains_iff_mem.1 hnul]
    · rename_i clean
      split
      · rename_i hlong
        simp [Nat.not_le.2 hlong]
      · rename_i hshort
        rw [String.isEmpty_iff] at hne
        rw [List.contains_iff_mem] at clean
        simp [hne, clean, Nat.not_lt.1 hshort]

theorem wantsDirectory_of_write {p : Path} {g : Target} {contents : ByteArray}
    (hg : t.target p = .ok g) (h : t.write p contents = .ok t') : g.wantsDirectory = false := by
  rw [write, hg] at h
  rw [Bool.eq_false_iff]
  intro wants
  simp only [bind, Except.bind, wants] at h
  split at h <;> cases h

/-- A file that was written is where its path leads. -/
theorem file?_of_write {p : Path} {contents : ByteArray} (h : t.write p contents = .ok t') :
    t'.file? (t.placeOf p) = some contents := by
  obtain ⟨g, hg, notDirectory, rfl⟩ := write_eq_ok h
  rw [← place_of_target hg]
  exact file?_put_place hg notDirectory contents

/-- A file that was written can be written once more. -/
theorem write_again {p : Path} {first : ByteArray} (h : t.write p first = .ok t')
    (contents : ByteArray) :
    ∃ t'', t'.write p contents = .ok t'' ∧ Grows (· = t.placeOf p) t t'' ∧
      t''.file? (t.placeOf p) = some contents := by
  have grown := grows_write h
  have hfile := file?_of_write h
  obtain ⟨g, hg, -⟩ := write_eq_ok h
  have hplace := place_of_target hg
  have hwrite : t'.write p contents = .ok (t'.put g.place (.file contents)) := by
    rw [write, grown.target hg]
    simp only [bind, Except.bind, file?_eq_some.1 (hplace ▸ hfile), wantsDirectory_of_write hg h]
    rfl
  have grown' := grows_write hwrite
  rw [grown.placeOf_eq] at grown'
  refine ⟨_, hwrite, grown.trans grown', ?_⟩
  rw [← grown.placeOf_eq p]
  exact file?_of_write hwrite

/-- A text that is written to a file is read there. -/
theorem readText_of_write {p : Path} {text : String} (h : t.write p text.toUTF8 = .ok t') :
    t'.readText p = .ok text := by
  obtain ⟨g, hg, notDirectory, rfl⟩ := write_eq_ok h
  have hfile := file?_put_place hg notDirectory text.toUTF8
  have hfind := find_of_target ((grows_put_file text.toUTF8 notDirectory).target hg)
    (wantsDirectory_of_write hg h) (file?_eq_some.1 hfile)
  apply readText_of_text
  rw [read, hfind]
  rfl

end FileTree

/-! ### Files that are written -/

namespace Change

variable {t t' : FileTree} {p : Path} {contents : ByteArray}

/-- A path that names a directory is not written. -/
theorem notSlash_of_writeBelow (h : writeBelow p contents t = .ok () t') :
    p.text.toList.getLast? ≠ some '/' := by
  have written : ∃ between, write p contents between = .ok () t' := by
    cases hparent : p.parent? with
    | none =>
      rw [writeBelow, hparent] at h
      exact ⟨t, h⟩
    | some above =>
      rw [writeBelow, hparent] at h
      obtain ⟨_, between, -, hwrite⟩ := eq_ok_of_bind h
      exact ⟨between, hwrite⟩
  obtain ⟨between, hwrite⟩ := written
  cases hwritten : between.write p contents with
  | error fault =>
    rw [write_of_error hwritten] at hwrite
    cases hwrite
  | ok written =>
    obtain ⟨g, hg, -⟩ := bind_eq_ok.1 hwritten
    have notDirectory := FileTree.wantsDirectory_of_write hg hwritten
    rw [FileTree.wantsDirectory_of_target hg] at notDirectory
    exact of_decide_eq_false notDirectory

/-- A file that is written is where its path leads, which ends in a name, and all other files are as
they were. -/
theorem lands_of_writeBelow (h : writeBelow p contents t = .ok () t') :
    ∃ g front name, t'.target p = .ok g ∧ p.words = front ++ [name] ∧ Path.Plain name ∧
      t'.file? g.place = some contents ∧ FileTree.Grows (· = g.place) t t' := by
  obtain ⟨e, t'', herror, -⟩ | ⟨between, g, grown, hg, notDirectory, hok⟩ :=
    writeBelow_adds p contents t
  · cases herror.symm.trans h
  · obtain ⟨-, rfl⟩ := EStateM.Result.ok.inj (hok.symm.trans h)
    obtain ⟨front, name, hwords, plain⟩ := FileTree.exists_name_of_target hg notDirectory
    have hput := FileTree.grows_put_file contents notDirectory
    exact ⟨g, front, name, hput.target hg, hwords, plain,
      FileTree.file?_put_place hg notDirectory contents,
      (grown.mono fun _ => False.elim).trans hput⟩

end Change

end ModelShelf
