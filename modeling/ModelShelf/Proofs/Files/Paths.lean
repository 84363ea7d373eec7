import ModelShelf.Files.Tree

/-!
Paths that end in a plain name. Such a path leads to the entry of that name in the directory that
the parts before it lead to, and the path above it leads to that directory.
-/

namespace ModelShelf

open Text

/-! ### Parts between marks -/

theorem splitAll_ne_nil (mark : Char) (s : List Char) : splitAll mark s ≠ [] := by
  cases s with
  | nil => nofun
  | cons c s =>
    rw [splitAll]
    split
    · nofun
    · split <;> nofun

theorem splitAll_append_cons (mark : Char) (s rest : List Char) :
    splitAll mark (s ++ mark :: rest) = splitAll mark s ++ splitAll mark rest := by
  induction s with
  | nil => simp [splitAll]
  | cons c s ih =>
    rw [List.cons_append, splitAll, splitAll, ih]
    split
    · rfl
    · cases hs : splitAll mark s with
      | nil => exact absurd hs (splitAll_ne_nil mark s)
      | cons part parts => rfl

theorem splitAll_eq_singleton {mark : Char} {s : List Char} (h : mark ∉ s) :
    splitAll mark s = [s] := by
  induction s with
  | nil => rfl
  | cons c s ih =>
    obtain ⟨hc, hs⟩ := not_or.1 (mt List.mem_cons.2 h)
    have : ¬ (c == mark) = true := fun heq => hc (eq_of_beq heq).symm
    rw [splitAll, if_neg this, ih hs]

theorem not_mem_of_mem_splitAll {mark : Char} {s part : List Char} (h : part ∈ splitAll mark s) :
    mark ∉ part := by
  induction s generalizing part with
  | nil =>
    rw [List.mem_singleton.1 h]
    nofun
  | cons c s ih =>
    rw [splitAll] at h
    split at h
    · rcases List.mem_cons.1 h with rfl | h
      · nofun
      · exact ih h
    · rename_i hc
      cases hs : splitAll mark s with
      | nil => exact absurd hs (splitAll_ne_nil mark s)
      | cons first parts =>
        rw [hs] at h ih
        rcases List.mem_cons.1 h with rfl | h
        · intro hmem
          rcases List.mem_cons.1 hmem with rfl | hmem
          · exact hc (beq_self_eq_true _)
          · exact ih List.mem_cons_self hmem
        · exact ih (List.mem_cons_of_mem first h)

theorem sublist_of_mem_splitAll {mark : Char} {s part : List Char} (h : part ∈ splitAll mark s) :
    part.Sublist s := by
  induction s generalizing part with
  | nil =>
    rw [splitAll, List.mem_singleton] at h
    exact h ▸ .refl _
  | cons c s ih =>
    rw [splitAll] at h
    split at h
    · rcases List.mem_cons.1 h with rfl | h
      · exact List.nil_sublist _
      · exact (ih h).cons c
    · cases hs : splitAll mark s with
      | nil => exact absurd hs (splitAll_ne_nil mark s)
      | cons first parts =>
        rw [hs] at h ih
        rcases List.mem_cons.1 h with rfl | h
        · exact (ih List.mem_cons_self).cons_cons c
        · exact (ih (List.mem_cons_of_mem first h)).cons c

namespace Path

theorem Plain.ne_empty {name : String} (plain : Plain name) : name ≠ "" := by
  rintro rfl
  exact nomatch plain.solid

theorem Plain.ne_dot {name : String} (plain : Plain name) : name ≠ "." := by
  rintro rfl
  exact nomatch plain.solid

/-- The parts of a path that are not empty. -/
def words (p : Path) : List String := p.parts.filter fun part => part ≠ ""

/-! ### Paths that are put together -/

theorem parts_of_name {name : String} (h : '/' ∉ name.toList) {p : Path}
    (hp : p.text.toList = name.toList) : p.parts = [name] := by
  have relative : p.isAbsolute = false := by
    rw [isAbsolute, hp]
    cases hs : name.toList with
    | nil => rfl
    | cons c s => exact beq_eq_false_iff_ne.2 fun heq => h (by simp_all)
  rw [parts, relative, hp]
  simp only [Bool.false_eq_true, ↓reduceIte, splitAll_eq_singleton h, List.map_cons, List.map_nil,
    String.ofList_toList]

theorem parts_of_append {name : String} (h : '/' ∉ name.toList) {p : Path} {s : List Char}
    (hp : p.text.toList = s ++ '/' :: name.toList) : ∃ before, p.parts = before ++ [name] := by
  have hsplit (s : List Char) : (splitAll '/' (s ++ '/' :: name.toList)).map String.ofList =
      (splitAll '/' s).map String.ofList ++ [name] := by
    rw [splitAll_append_cons, splitAll_eq_singleton h]
    simp
  rw [parts, hp]
  by_cases absolute : p.isAbsolute = true
  · simp only [absolute, ↓reduceIte]
    cases s with
    | nil => exact ⟨[], by simp [splitAll_eq_singleton h]⟩
    | cons c s => exact ⟨_, hsplit s⟩
  · simp only [absolute]
    exact ⟨_, hsplit s⟩

/-- A name that is put below a path is the last part. -/
theorem parts_join {name : String} (plain : Plain name) (p : Path) :
    ∃ before, (p.join name).parts = before ++ [name] := by
  rw [join]
  split
  · exact ⟨[], parts_of_name plain.oneName rfl⟩
  · split
    · rename_i hlast
      obtain ⟨s, hs⟩ := List.getLast?_eq_some_iff.1 hlast
      exact parts_of_append (s := s) plain.oneName (by simp [hs])
    · exact parts_of_append (s := p.text.toList) plain.oneName (by simp)

theorem getLast?_toList_append {front q : String} (hq : q ≠ "") :
    (front ++ q).toList.getLast? = q.toList.getLast? := by
  rw [String.toList_append, List.getLast?_append]
  cases hs : q.toList.getLast? with
  | none => exact absurd (String.toList_eq_nil_iff.1 (List.getLast?_eq_none_iff.1 hs)) hq
  | some c => rfl

/-- A name that is put below a path ends the text. -/
theorem getLast?_join {name : String} (plain : Plain name) (p : Path) :
    (p.join name).text.toList.getLast? ≠ some '/' := by
  have hlast : name.toList.getLast? ≠ some '/' :=
    fun heq => plain.oneName (List.mem_of_getLast? heq)
  rw [join]
  split
  · exact hlast
  · split <;> rwa [getLast?_toList_append plain.ne_empty]

theorem not_mem_parts {p : Path} {part : String} (h : part ∈ p.parts) : '/' ∉ part.toList := by
  obtain ⟨chars, hchars, rfl⟩ := List.mem_map.1 h
  rw [String.toList_ofList]
  exact not_mem_of_mem_splitAll hchars

/-! ### The path above -/

theorem dropIdle_append_plain {name : String} (solid : isIdle name = false) (before : List String) :
    dropIdle (before ++ [name]) = before ++ [name] := by
  rw [dropIdle, List.reverse_append, List.reverse_singleton, List.singleton_append,
    List.dropWhile_cons_of_neg (by simp [solid])]
  simp

theorem isPrefix_dropIdle (parts : List String) : dropIdle parts <+: parts := by
  refine ⟨(parts.reverse.takeWhile isIdle).reverse, ?_⟩
  rw [dropIdle, ← List.reverse_append, List.takeWhile_append_dropWhile, List.reverse_reverse]

theorem toList_ofParts (first next : String) (parts : List String) :
    (ofParts (first :: next :: parts)).toList =
      first.toList ++ '/' :: (ofParts (next :: parts)).toList := by
  simp [ofParts, String.toList_intercalate]

theorem toList_ofParts_cons (first : String) (parts : List String) :
    ∃ tail, (ofParts (first :: parts)).toList = first.toList ++ tail := by
  cases parts with
  | nil => exact ⟨[], by simp [ofParts]⟩
  | cons next parts =>
    exact ⟨'/' :: (ofParts (next :: parts)).toList, toList_ofParts first next parts⟩

theorem splitAll_ofParts {parts : List String} (hne : parts ≠ [])
    (h : ∀ part ∈ parts, '/' ∉ part.toList) :
    (splitAll '/' (ofParts parts).toList).map String.ofList = parts := by
  induction parts with
  | nil => contradiction
  | cons part parts ih =>
    obtain ⟨hpart, hparts⟩ := List.forall_mem_cons.1 h
    cases parts with
    | nil => simp [ofParts, splitAll_eq_singleton hpart]
    | cons next parts =>
      have hrest := ih nofun hparts
      rw [toList_ofParts, splitAll_append_cons, splitAll_eq_singleton hpart, List.singleton_append,
        List.map_cons, hrest, String.ofList_toList]

theorem ofParts_splitAll (s : List Char) :
    (ofParts ((splitAll '/' s).map String.ofList)).toList = s := by
  induction s with
  | nil => simp [splitAll, ofParts]
  | cons c s ih =>
    rw [splitAll]
    cases hs : splitAll '/' s with
    | nil => exact absurd hs (splitAll_ne_nil '/' s)
    | cons part parts =>
      rw [hs] at ih
      split
      · rename_i hc
        rw [List.map_cons, List.map_cons, toList_ofParts, ← List.map_cons, ih, eq_of_beq hc]
        simp
      · cases parts with
        | nil => simpa [ofParts] using ih
        | cons next parts =>
          rw [List.map_cons, List.map_cons, toList_ofParts] at ih
          rw [List.map_cons, List.map_cons, toList_ofParts, String.toList_ofList, List.cons_append,
            ← ih, String.toList_ofList]

theorem isPrefix_ofParts {parts others : List String} (h : parts <+: others) :
    (ofParts parts).toList <+: (ofParts others).toList := by
  induction parts generalizing others with
  | nil => exact List.nil_prefix
  | cons part parts ih =>
    obtain ⟨rest, rfl⟩ := h
    rw [List.cons_append]
    cases parts with
    | nil =>
      obtain ⟨tail, htail⟩ := toList_ofParts_cons part rest
      rw [List.nil_append, htail]
      simp [ofParts]
    | cons next parts =>
      have later := ih (List.prefix_append (next :: parts) rest)
      rw [List.cons_append] at later ⊢
      rw [toList_ofParts, toList_ofParts, List.prefix_append_right_inj]
      exact List.cons_prefix_cons.2 ⟨rfl, later⟩

/-- The first parts of a path make up the first part of its text. -/
theorem isPrefix_of_parts {p : Path} {parts : List String} (h : parts <+: p.parts) :
    (if p.isAbsolute then "/" ++ ofParts parts else ofParts parts).toList <+: p.text.toList := by
  have hparts := isPrefix_ofParts h
  rw [Path.parts, ofParts_splitAll] at hparts
  cases absolute : p.isAbsolute with
  | false => simpa [absolute] using hparts
  | true =>
    have slash : ∃ rest, p.text.toList = '/' :: rest := by
      rw [isAbsolute] at absolute
      cases htext : p.text.toList with
      | nil => simp [htext] at absolute
      | cons c rest =>
        simp only [htext, List.head?_cons, beq_iff_eq, Option.some.injEq] at absolute
        exact ⟨rest, by rw [absolute]⟩
    obtain ⟨rest, hrest⟩ := slash
    simp only [absolute, ↓reduceIte, hrest, List.drop_succ_cons, List.drop_zero] at hparts ⊢
    simpa using hparts

/-- A path of parts below the root. -/
theorem words_root {parts : List String} (h : ∀ part ∈ parts, '/' ∉ part.toList) :
    (Path.mk ("/" ++ ofParts parts)).isAbsolute = true ∧
      (Path.mk ("/" ++ ofParts parts)).words = parts.filter fun part => part ≠ "" := by
  have absolute : (Path.mk ("/" ++ ofParts parts)).isAbsolute = true := by
    simp [isAbsolute]
  refine ⟨absolute, ?_⟩
  have body : (Path.mk ("/" ++ ofParts parts)).text.toList.drop 1 = (ofParts parts).toList := by
    simp
  rw [words, Path.parts, absolute, if_pos rfl, body]
  cases parts with
  | nil => rfl
  | cons part parts => rw [splitAll_ofParts (List.cons_ne_nil _ _) h]

/-- A path of parts, the first of which is not empty. -/
theorem words_relative {first : String} {parts : List String} (solid : first ≠ "")
    (h : ∀ part ∈ first :: parts, '/' ∉ part.toList) :
    (Path.mk (ofParts (first :: parts))).isAbsolute = false ∧
      (Path.mk (ofParts (first :: parts))).words =
        (first :: parts).filter fun part => part ≠ "" := by
  have relative : (Path.mk (ofParts (first :: parts))).isAbsolute = false := by
    obtain ⟨tail, htail⟩ := toList_ofParts_cons first parts
    cases hfirst : first.toList with
    | nil => exact absurd (String.toList_eq_nil_iff.1 hfirst) solid
    | cons c s =>
      have hc : c ≠ '/' := fun heq => h first List.mem_cons_self (by simp [hfirst, heq])
      rw [isAbsolute, htail, hfirst]
      simpa using hc
  refine ⟨relative, ?_⟩
  rw [words, Path.parts, relative]
  simp only [Bool.false_eq_true, ↓reduceIte]
  rw [splitAll_ofParts (List.cons_ne_nil _ _) h]

/-- The path above a path is the first part of its text. -/
theorem isPrefix_of_parent? {p q : Path} (h : p.parent? = some q) :
    q.text.toList <+: p.text.toList := by
  have inner (parts : List String) : dropIdle (dropIdle parts).dropLast <+: parts :=
    (isPrefix_dropIdle _).trans ((List.dropLast_prefix _).trans (isPrefix_dropIdle parts))
  rw [parent?] at h
  split at h
  · rename_i absolute
    have hprefix := isPrefix_of_parts (inner p.parts)
    rw [if_pos absolute] at hprefix
    split at h
    · cases h
    · obtain rfl := Option.some.inj h
      exact hprefix
  · rename_i relative
    split at h
    · rename_i rest hparts
      have hprefix := isPrefix_of_parts (p := p)
        (hparts ▸ List.cons_prefix_cons.2 ⟨rfl, inner rest⟩)
      rw [if_neg relative] at hprefix
      split at h
      · obtain rfl := Option.some.inj h
        exact List.nil_prefix
      · obtain rfl := Option.some.inj h
        exact hprefix
    · have hprefix := isPrefix_of_parts (inner p.parts)
      rw [if_neg relative] at hprefix
      split at h
      · cases h
      · obtain rfl := Option.some.inj h
        exact hprefix

/-- A path that is followed from the same start as another one, along the first of the parts
`before`. -/
structure Along (q p : Path) (before : List String) : Prop where
  start : q.isAbsolute = p.isAbsolute
  words : q.words <+: before.filter fun part => part ≠ ""
  solid : q.isAbsolute = true ∨ q.words ≠ []

theorem ne_empty_of_parts {p : Path} {first next : String} {others : List String}
    (relative : p.isAbsolute = false) (h : p.parts = first :: next :: others) : first ≠ "" := by
  rw [parts, relative] at h
  simp only [Bool.false_eq_true, ↓reduceIte] at h
  cases hp : p.text.toList with
  | nil =>
    rw [hp] at h
    cases h
  | cons c s =>
    have hc : ¬ (c == '/') = true := fun heq => by
      simp [isAbsolute, hp, eq_of_beq heq] at relative
    rw [hp, splitAll, if_neg hc] at h
    cases hs : splitAll '/' s with
    | nil => exact absurd hs (splitAll_ne_nil '/' s)
    | cons part parts =>
      rw [hs] at h
      obtain ⟨rfl, -⟩ := List.cons.inj h
      exact fun heq => nomatch String.ofList_eq_empty_iff.1 heq

theorem along_root {p : Path} {before : List String} (absolute : p.isAbsolute = true)
    (single : ∀ part ∈ before, '/' ∉ part.toList) :
    Along ⟨"/" ++ ofParts (dropIdle before)⟩ p before := by
  have kept : ∀ part ∈ dropIdle before, '/' ∉ part.toList := fun part hpart =>
    single part ((isPrefix_dropIdle before).subset hpart)
  obtain ⟨habsolute, hwords⟩ := words_root kept
  refine ⟨habsolute.trans absolute.symm, ?_, .inl habsolute⟩
  rw [hwords]
  exact (isPrefix_dropIdle before).filter _

theorem along_relative {p : Path} {before parts : List String} {first : String}
    (relative : p.isAbsolute = false) (solid : first ≠ "")
    (single : ∀ part ∈ before, '/' ∉ part.toList) (h : first :: parts <+: before) :
    Along ⟨ofParts (first :: parts)⟩ p before := by
  have kept : ∀ part ∈ first :: parts, '/' ∉ part.toList := fun part hpart =>
    single part (h.subset hpart)
  obtain ⟨hrelative, hwords⟩ := words_relative solid kept
  refine ⟨hrelative.trans relative.symm, ?_, .inr ?_⟩
  · rw [hwords]
    exact h.filter _
  · rw [hwords, List.filter_cons_of_pos (by simpa using solid)]
    exact List.cons_ne_nil _ _

theorem along_dropIdle {p : Path} {first : String} {others : List String}
    (relative : p.isAbsolute = false) (solid : first ≠ "")
    (single : ∀ part ∈ first :: others, '/' ∉ part.toList) :
    (Path.mk (ofParts (dropIdle (first :: others)))).text = "" ∨
      Along ⟨ofParts (dropIdle (first :: others))⟩ p (first :: others) := by
  have hprefix := isPrefix_dropIdle (first :: others)
  cases hdrop : dropIdle (first :: others) with
  | nil => exact .inl rfl
  | cons x xs =>
    rw [hdrop] at hprefix
    obtain ⟨rfl, -⟩ := List.cons_prefix_cons.1 hprefix
    exact .inr (along_relative relative solid single hprefix)

/-- The path above a path that ends in a plain name is empty, or it is followed along the parts
before the name. -/
theorem parent?_of_parts {p : Path} {before : List String} {name : String} (plain : Plain name)
    (h : p.parts = before ++ [name]) :
    ∃ q, p.parent? = some q ∧ (q.text = "" ∨ Along q p before) := by
  have single : ∀ part ∈ before, '/' ∉ part.toList := fun part hpart =>
    not_mem_parts (h ▸ List.mem_append_left _ hpart)
  have solid := plain.solid
  rw [parent?, h]
  split
  · rename_i absolute
    rw [dropIdle_append_plain solid]
    split
    · simp_all
    · rw [List.dropLast_concat]
      exact ⟨_, rfl, .inr (along_root absolute single)⟩
  · rename_i relative
    have relative : p.isAbsolute = false := Bool.eq_false_iff.2 relative
    cases before with
    | nil =>
      split
      · rename_i heq
        obtain ⟨rfl, -⟩ := List.cons.inj heq
        exact nomatch solid
      · rw [dropIdle_append_plain solid]
        exact ⟨_, rfl, .inl rfl⟩
    | cons first others =>
      have first_ne : first ≠ "" := by
        cases others <;> exact ne_empty_of_parts relative h
      split
      · rename_i heq
        obtain ⟨rfl, rfl⟩ := List.cons.inj heq
        rw [List.append_eq, dropIdle_append_plain solid]
        split
        · simp_all
        · rw [List.dropLast_concat]
          exact ⟨_, rfl, .inr (along_relative relative first_ne single
            (List.cons_prefix_cons.2 ⟨rfl, isPrefix_dropIdle others⟩))⟩
      · rw [dropIdle_append_plain solid]
        split
        · simp_all
        · rw [List.dropLast_concat]
          exact ⟨_, rfl, along_dropIdle relative first_ne single⟩

end Path

end ModelShelf
