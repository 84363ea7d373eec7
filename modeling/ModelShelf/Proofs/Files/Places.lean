import ModelShelf.Proofs.Files.Targets

/-!
The place that a path leads to by its text alone. It goes by the words of the path, and a relative
path that is put below another one adds its words to those of that one. Wherever a path leads in a
tree, it is that place; words that never lead above their start stay below it.
-/

namespace ModelShelf

open Text
open ModelShelf.Path (isIdle)

/-! ### Words of paths that are put together -/

namespace Path

/-- The parts of a text that are not empty. -/
def wordsOf (s : List Char) : List String :=
  ((splitAll '/' s).map String.ofList).filter fun part => part ≠ ""

theorem wordsOf_append_cons (s rest : List Char) :
    wordsOf (s ++ '/' :: rest) = wordsOf s ++ wordsOf rest := by
  rw [wordsOf, splitAll_append_cons, List.map_append, List.filter_append]
  rfl

theorem wordsOf_slash (s : List Char) : wordsOf ('/' :: s) = wordsOf s :=
  wordsOf_append_cons [] s

theorem isAbsolute_iff {p : Path} :
    p.isAbsolute = true ↔ ∃ rest, p.text.toList = '/' :: rest := by
  rw [isAbsolute]
  cases p.text.toList with
  | nil => simp
  | cons c rest => simp

/-- The slash that makes a path absolute does not count among its words. -/
theorem words_eq (p : Path) : p.words = wordsOf p.text.toList := by
  rw [words, parts]
  by_cases absolute : p.isAbsolute = true
  · obtain ⟨rest, hrest⟩ := isAbsolute_iff.1 absolute
    rw [if_pos absolute, hrest, wordsOf_slash]
    rfl
  · rw [if_neg absolute]
    rfl

theorem words_of_name {name : String} (plain : Plain name) : (Path.mk name).words = [name] := by
  rw [words_eq, wordsOf, splitAll_eq_singleton plain.oneName]
  simp [plain.ne_empty]

theorem isAbsolute_of_append {p q : Path} (rest : List Char) (hne : p.text ≠ "")
    (h : q.text.toList = p.text.toList ++ rest) : q.isAbsolute = p.isAbsolute := by
  rw [isAbsolute, isAbsolute, h]
  cases hp : p.text.toList with
  | nil => exact absurd (String.toList_eq_nil_iff.1 hp) hne
  | cons => rfl

/-- A relative path that is put below another one is followed from where that one leads. -/
theorem join_of_relative {p : Path} {below : String}
    (relative : (Path.mk below).isAbsolute = false) :
    (p.join below).words = p.words ++ (Path.mk below).words ∧
      (p.join below).isAbsolute = p.isAbsolute := by
  rw [join, relative, Bool.false_or]
  by_cases empty : p.text = ""
  · have hwords : p.words = [] := by
      rw [words_eq, empty]
      rfl
    have habsolute : p.isAbsolute = false := by
      rw [isAbsolute, empty]
      rfl
    rw [if_pos (by simp [empty]), hwords, habsolute]
    exact ⟨rfl, relative⟩
  · rw [if_neg (by simpa using empty)]
    by_cases hlast : p.text.toList.getLast? = some '/'
    · rw [if_pos hlast]
      obtain ⟨s, hs⟩ := List.getLast?_eq_some_iff.1 hlast
      refine ⟨?_, isAbsolute_of_append below.toList empty (by simp)⟩
      rw [words_eq, words_eq, words_eq, String.toList_append, hs, wordsOf_append_cons,
        List.append_assoc, List.singleton_append, wordsOf_append_cons]
      simp [wordsOf, splitAll]
    · rw [if_neg hlast]
      refine ⟨?_, isAbsolute_of_append ('/' :: below.toList) empty (by simp)⟩
      rw [words_eq, words_eq, words_eq, String.toList_append, String.toList_append,
        List.append_assoc]
      exact wordsOf_append_cons _ _

theorem Plain.isRelative {name : String} (plain : Plain name) :
    (Path.mk name).isAbsolute = false := by
  rw [Bool.eq_false_iff]
  intro absolute
  obtain ⟨rest, hrest⟩ := isAbsolute_iff.1 absolute
  exact plain.oneName (hrest ▸ List.mem_cons_self)

theorem join_of_plain {name : String} (plain : Plain name) (p : Path) :
    (p.join name).words = p.words ++ [name] ∧ (p.join name).isAbsolute = p.isAbsolute := by
  have h := join_of_relative (p := p) plain.isRelative
  rwa [words_of_name plain] at h

theorem words_ne_nil {p : Path} (hne : p.text ≠ "") (relative : p.isAbsolute = false) :
    p.words ≠ [] := by
  rw [words_eq]
  cases hp : p.text.toList with
  | nil => exact absurd (String.toList_eq_nil_iff.1 hp) hne
  | cons c s =>
    have hc : ¬ (c == '/') = true := by
      intro heq
      simp [isAbsolute, hp, eq_of_beq heq] at relative
    rw [wordsOf, splitAll, if_neg hc]
    cases hs : splitAll '/' s with
    | nil => exact absurd hs (splitAll_ne_nil '/' s)
    | cons part parts => simp

/-- A text with a slash at its end, if it has any characters. -/
def opening (p : Path) : List Char :=
  if p.text.isEmpty || p.text.toList.getLast? = some '/' then p.text.toList
  else p.text.toList ++ ['/']

theorem toList_join {p : Path} {below : String} (relative : (Path.mk below).isAbsolute = false) :
    (p.join below).text.toList = p.opening ++ below.toList := by
  rw [join, opening, relative, Bool.false_or]
  by_cases hempty : p.text = ""
  · simp [hempty]
  · rw [if_neg (by simpa using hempty)]
    by_cases hlast : p.text.toList.getLast? = some '/'
    · simp [hlast]
    · simp [hlast, hempty]

theorem exists_front (p : Path) : ∃ front : String, ∀ {below : String},
    (Path.mk below).isAbsolute = false → p.join below = ⟨front ++ below⟩ := by
  refine ⟨String.ofList p.opening, fun {below} relative => ?_⟩
  have htext : (p.join below).text = String.ofList p.opening ++ below := by
    rw [← String.toList_inj, toList_join relative, String.toList_append, String.toList_ofList]
  rw [← htext]

theorem isPrefix_opening (p : Path) : p.text.toList <+: p.opening := by
  rw [opening]
  split
  · exact List.prefix_refl _
  · exact List.prefix_append _ _

theorem isPrefix_join {p : Path} {below : String} (relative : (Path.mk below).isAbsolute = false) :
    p.text.toList <+: (p.join below).text.toList := by
  rw [toList_join relative]
  exact (isPrefix_opening p).trans (List.prefix_append _ _)

/-- A path and a name can be put below another path one after the other. -/
theorem join_append {p : Path} {path name : String} (plain : Plain name) (hne : path ≠ "")
    (hfirst : path.toList.head? ≠ some '/') (hlast : path.toList.getLast? ≠ some '/') :
    p.join (path ++ "/" ++ name) = (p.join path).join name := by
  have hrelative : (Path.mk path).isAbsolute = false := by simpa [isAbsolute] using hfirst
  have hrelative' : (Path.mk (path ++ "/" ++ name)).isAbsolute = false := by
    rw [isAbsolute_of_append (p := ⟨path⟩) ('/' :: name.toList) hne (by simp)]
    exact hrelative
  have hend (front : String) :
      (Path.mk (front ++ path)).join name = ⟨front ++ path ++ "/" ++ name⟩ := by
    have hnotEmpty : front ++ path ≠ "" := by simp [hne]
    have hslash : (front ++ path).toList.getLast? ≠ some '/' := by
      rwa [getLast?_toList_append hne]
    rw [join, plain.isRelative, if_neg (by simpa using hnotEmpty), if_neg hslash]
  obtain ⟨front, hfront⟩ := p.exists_front
  rw [hfront hrelative, hfront hrelative', hend, String.append_assoc, String.append_assoc,
    String.append_assoc]

theorem opening_of_slash {p : Path} (h : p.text.toList.getLast? = some '/') :
    p.opening = p.text.toList := by
  rw [opening, if_pos (by simp [h])]

theorem opening_of_solid {p : Path} (hne : p.text ≠ "") (h : p.text.toList.getLast? ≠ some '/') :
    p.opening = p.text.toList ++ ['/'] := by
  rw [opening, if_neg (by simp [hne, h])]

theorem join_ne_empty {p : Path} {below : String} (relative : (Path.mk below).isAbsolute = false)
    (hne : below ≠ "") : (p.join below).text ≠ "" := by
  intro hempty
  have htext := toList_join (p := p) relative
  rw [hempty] at htext
  simp [hne] at htext

theorem opening_join {p : Path} {name : String} (plain : Plain name) :
    (p.join name).opening = p.opening ++ name.toList ++ ['/'] := by
  rw [opening_of_solid (join_ne_empty plain.isRelative plain.ne_empty) (getLast?_join plain p),
    toList_join plain.isRelative]

theorem sublist_of_mem_wordsOf {s : List Char} {word : String} (h : word ∈ wordsOf s) :
    word.toList.Sublist s := by
  obtain ⟨hmem, -⟩ := List.mem_filter.1 h
  obtain ⟨part, hpart, rfl⟩ := List.mem_map.1 hmem
  rw [String.toList_ofList]
  exact sublist_of_mem_splitAll hpart

/-- A word of a relative path takes no more room than the path. -/
theorem opening_sublist {p : Path} {below word : String}
    (relative : (Path.mk below).isAbsolute = false) (hword : word ∈ (Path.mk below).words)
    (plain : Plain word) : (p.join word).opening.Sublist (p.join below).opening := by
  rw [words_eq] at hword
  have hne : below ≠ "" := by
    rintro rfl
    cases hword
  have hend : (p.join below).text.toList.getLast? = below.toList.getLast? := by
    rw [toList_join relative, List.getLast?_append]
    cases hbelow : below.toList.getLast? with
    | none => simp [hne] at hbelow
    | some c => rfl
  rw [opening_join plain]
  by_cases hlast : below.toList.getLast? = some '/'
  · obtain ⟨s, hs⟩ := List.getLast?_eq_some_iff.1 hlast
    have hfront : word ∈ wordsOf s := by
      have hsplit : wordsOf (s ++ ['/']) = wordsOf s ++ wordsOf [] := wordsOf_append_cons s []
      rw [hs, hsplit] at hword
      simpa [wordsOf, splitAll] using hword
    rw [opening_of_slash (hend.trans hlast), toList_join relative, hs, List.append_assoc]
    exact (List.Sublist.refl _).append ((sublist_of_mem_wordsOf hfront).append (.refl _))
  · rw [opening_of_solid (join_ne_empty relative hne) (hend ▸ hlast), toList_join relative]
    exact ((List.Sublist.refl _).append (sublist_of_mem_wordsOf hword)).append (.refl _)

theorem head?_parts_eq (p : Path) (relative : p.isAbsolute = false) :
    p.parts.head? = some "." ↔ p.words.head? = some "." := by
  rw [words, parts, relative]
  simp only [Bool.false_eq_true, ↓reduceIte]
  cases hp : p.text.toList with
  | nil => simp [splitAll]
  | cons c s =>
    have hc : ¬ (c == '/') = true := fun heq => by
      simp [isAbsolute, hp, eq_of_beq heq] at relative
    rw [splitAll, if_neg hc]
    cases hs : splitAll '/' s with
    | nil => exact absurd hs (splitAll_ne_nil '/' s)
    | cons part parts => simp

theorem filter_parts (p : Path) :
    (p.parts.filter fun part => !isIdle part) = p.words.filter fun word => !isIdle word := by
  rw [words, List.filter_filter]
  refine List.filter_congr fun part _ => ?_
  by_cases hpart : part = "" <;> simp [isIdle, hpart]

/-- The components of a path go by its words and by whether it is absolute. -/
theorem components_eq {p q : Path} (hwords : p.words = q.words)
    (habsolute : p.isAbsolute = q.isAbsolute) : p.components = q.components := by
  have hlead : p.lead = q.lead := by
    rw [lead, lead, habsolute]
    by_cases absolute : q.isAbsolute = true
    · rw [if_pos absolute, if_pos absolute]
    · have relative : q.isAbsolute = false := Bool.eq_false_iff.2 absolute
      simp only [head?_parts_eq q relative, head?_parts_eq p (habsolute.trans relative), hwords]
  rw [components, components, hlead, filter_parts, filter_parts, hwords]

/-- The last component of a path is a name only if it is plain. -/
theorem plain_of_fileName? {p : Path} {name : String} (h : p.fileName? = some name) :
    Plain name := by
  have hlast : p.components.getLast? = some (.name name) := by
    rw [fileName?] at h
    split at h
    · rename_i hlast
      rwa [← Option.some.inj h]
    · cases h
  rcases List.mem_append.1 (List.mem_of_getLast? hlast) with hlead | hname
  · rw [lead] at hlead
    split at hlead
    · cases List.mem_singleton.1 hlead
    · split at hlead
      · cases List.mem_singleton.1 hlead
      · cases hlead
  · obtain ⟨part, hpart, hcomponent⟩ := List.mem_map.1 hname
    obtain ⟨hmem, solid⟩ := List.mem_filter.1 hpart
    rw [componentOf] at hcomponent
    split at hcomponent
    · cases hcomponent
    · rename_i notParent
      obtain rfl := Component.name.inj hcomponent
      exact ⟨by simpa using solid, notParent, not_mem_parts hmem⟩

end Path

/-! ### Following words -/

namespace Location

/-- The place that a word leads to, seen from another place. -/
def enter (l : Location) (word : String) : Location :=
  if isIdle word then l else if word = ".." then l.dropLast else l ++ [word]

/-- The place that words lead to, one after the other. -/
def follow (l : Location) (words : List String) : Location := words.foldl enter l

theorem follow_append (l : Location) (words others : List String) :
    l.follow (words ++ others) = (l.follow words).follow others :=
  List.foldl_append

theorem follow_plain {name : String} (plain : Path.Plain name) (l : Location) :
    l.follow [name] = l ++ [name] := by
  rw [follow, List.foldl_cons, List.foldl_nil, enter, if_neg (by simp [plain.solid]),
    if_neg plain.notParent]

theorem follow_all_plain {names : List String} (plain : ∀ name ∈ names, Path.Plain name)
    (l : Location) : l.follow names = l ++ names := by
  induction names generalizing l with
  | nil => exact (List.append_nil l).symm
  | cons name rest ih =>
    obtain ⟨hname, hrest⟩ := List.forall_mem_cons.1 plain
    have hfirst := follow_append l [name] rest
    rw [follow_plain hname, ih hrest, List.append_assoc] at hfirst
    exact hfirst

/-- Words lead up some way and then down along some of them. -/
theorem exists_follow (l : Location) (words : List String) :
    ∃ kept names, l.follow words = l.take kept ++ names ∧
      ∀ name ∈ names, name ∈ words ∧ isIdle name = false ∧ name ≠ ".." := by
  induction words generalizing l with
  | nil => exact ⟨l.length, [], by simp [follow], nofun⟩
  | cons word rest ih =>
    rw [follow, List.foldl_cons, enter]
    have later {names : List String}
        (h : ∀ name ∈ names, name ∈ rest ∧ isIdle name = false ∧ name ≠ "..") :
        ∀ name ∈ names, name ∈ word :: rest ∧ isIdle name = false ∧ name ≠ ".." :=
      fun name hname => ⟨List.mem_cons_of_mem word (h name hname).1, (h name hname).2⟩
    by_cases idle : isIdle word = true
    · rw [if_pos idle]
      obtain ⟨kept, names, hfollow, hnames⟩ := ih l
      exact ⟨kept, names, hfollow, later hnames⟩
    · rw [if_neg idle]
      by_cases up : word = ".."
      · rw [if_pos up]
        obtain ⟨kept, names, hfollow, hnames⟩ := ih l.dropLast
        have htake : l.dropLast.take kept = l.take (min kept (l.length - 1)) := by
          rw [List.dropLast_eq_take, List.take_take]
        exact ⟨_, names, htake ▸ hfollow, later hnames⟩
      · rw [if_neg up]
        obtain ⟨kept, names, hfollow, hnames⟩ := ih (l ++ [word])
        rw [follow] at hfollow
        by_cases hkept : kept ≤ l.length
        · rw [List.take_append_of_le_length hkept] at hfollow
          exact ⟨kept, names, hfollow, later hnames⟩
        · rw [List.take_of_length_le (by simp; omega), List.append_assoc] at hfollow
          refine ⟨l.length, word :: names, ?_, ?_⟩
          · rw [List.take_length]
            exact hfollow
          · intro name hname
            rcases List.mem_cons.1 hname with rfl | hname
            · exact ⟨List.mem_cons_self, Bool.eq_false_iff.2 idle, up⟩
            · exact later hnames name hname

/-- Words that lead to a place right below have its name among them. -/
theorem mem_of_follow {l : Location} {words : List String} {name : String}
    (h : l.follow words = l ++ [name]) : name ∈ words ∧ isIdle name = false ∧ name ≠ ".." := by
  obtain ⟨kept, names, hfollow, hnames⟩ := exists_follow l words
  rw [h] at hfollow
  have hlength := congrArg List.length hfollow
  have hne : names ≠ [] := by
    rintro rfl
    simp at hlength
    omega
  apply hnames
  have hlast := congrArg List.getLast? hfollow
  rw [List.getLast?_concat, List.getLast?_append, List.getLast?_eq_some_getLast hne,
    Option.some_or] at hlast
  rw [Option.some.inj hlast]
  exact List.getLast_mem hne

/-- Whether words, followed from a place that is so many levels deep, never lead above level
zero. -/
def keepsBelow : Nat → List String → Bool
  | _, [] => true
  | depth, word :: rest =>
    if isIdle word then keepsBelow depth rest
    else if word = ".." then 0 < depth && keepsBelow (depth - 1) rest
    else keepsBelow (depth + 1) rest

/-- Words that never lead above a place lead to a place below it. -/
theorem prefix_follow {words : List String} {base below : Location}
    (h : keepsBelow below.length words = true) : base <+: (base ++ below).follow words := by
  induction words generalizing below with
  | nil => exact List.prefix_append base below
  | cons word rest ih =>
    rw [keepsBelow] at h
    rw [follow, List.foldl_cons, enter]
    by_cases idle : isIdle word = true
    · rw [if_pos idle] at h ⊢
      exact ih h
    · rw [if_neg idle] at h ⊢
      by_cases up : word = ".."
      · rw [if_pos up] at h ⊢
        obtain ⟨hdeep, hrest⟩ := Bool.and_eq_true_iff.1 h
        have hne : below ≠ [] := List.ne_nil_of_length_pos (of_decide_eq_true hdeep)
        rw [List.dropLast_append_of_ne_nil hne]
        exact ih (by rwa [List.length_dropLast])
      · rw [if_neg up] at h ⊢
        rw [List.append_assoc]
        exact ih (by simpa using h)

theorem keepsBelow_of_forall {words : List String} (h : ∀ word ∈ words, word ≠ "..")
    (depth : Nat) : keepsBelow depth words = true := by
  induction words generalizing depth with
  | nil => rfl
  | cons word rest ih =>
    obtain ⟨hword, hrest⟩ := List.forall_mem_cons.1 h
    rw [keepsBelow, if_neg hword]
    split
    · exact ih hrest depth
    · exact ih hrest (depth + 1)

theorem keepsBelow_append_plain {name : String} (plain : Path.Plain name) {words : List String}
    {depth : Nat} (h : keepsBelow depth words = true) :
    keepsBelow depth (words ++ [name]) = true := by
  induction words generalizing depth with
  | nil => simp [keepsBelow, plain.solid, plain.notParent]
  | cons word rest ih =>
    rw [keepsBelow] at h
    rw [List.cons_append, keepsBelow]
    by_cases idle : isIdle word = true
    · rw [if_pos idle] at h ⊢
      exact ih h
    · rw [if_neg idle] at h ⊢
      by_cases up : word = ".."
      · rw [if_pos up] at h ⊢
        obtain ⟨hdeep, hrest⟩ := Bool.and_eq_true_iff.1 h
        exact Bool.and_eq_true_iff.2 ⟨hdeep, ih hrest⟩
      · rw [if_neg up] at h ⊢
        exact ih h

end Location

/-! ### The place of a path -/

namespace FileTree

open Location (enter follow)

variable {t : FileTree}

theorem foldl_enter_filter (l : Location) (parts : List String) :
    (parts.filter fun part => part ≠ "").foldl enter l =
      (parts.filter fun part => !isIdle part).foldl enter l := by
  induction parts generalizing l with
  | nil => rfl
  | cons part rest ih =>
    by_cases hempty : part = ""
    · simpa [isIdle, hempty] using ih l
    · by_cases hdot : part = "."
      · simpa [isIdle, hdot, enter] using ih l
      · simpa [isIdle, hempty, hdot] using ih _

/-- The place of a path is found by following its words from where it starts. -/
theorem placeOf_eq (t : FileTree) (p : Path) : t.placeOf p = (t.start p).follow p.words := by
  have hlead (f : Location → Component → Location) (atRoot : ∀ l, f l .root = [])
      (atCurrent : ∀ l, f l .current = l) : p.lead.foldl f t.current = t.start p := by
    rw [Path.lead, start]
    split
    · exact atRoot _
    · split
      · exact atCurrent _
      · rfl
  rw [placeOf, Path.components, List.foldl_append, hlead _ (fun _ => rfl) (fun _ => rfl), follow,
    Path.words, foldl_enter_filter, List.foldl_map]
  generalize t.start p = l
  induction p.parts generalizing l with
  | nil => rfl
  | cons part rest ih =>
    by_cases idle : isIdle part = true
    · simpa [idle] using ih l
    · have solid : isIdle part = false := Bool.eq_false_iff.2 idle
      by_cases up : part = ".."
      · simpa [solid, up, Path.componentOf, enter, isIdle] using ih l.dropLast
      · simpa [solid, up, Path.componentOf, enter] using ih (l ++ [part])

theorem start_join {p : Path} {below : String} (relative : (Path.mk below).isAbsolute = false)
    (t : FileTree) : t.start (p.join below) = t.start p := by
  rw [start, start, (Path.join_of_relative relative).2]

theorem placeOf_join {p : Path} {below : String} (relative : (Path.mk below).isAbsolute = false)
    (t : FileTree) :
    t.placeOf (p.join below) = (t.placeOf p).follow (Path.mk below).words := by
  rw [placeOf_eq, placeOf_eq, start_join relative, (Path.join_of_relative relative).1,
    Location.follow_append]

theorem placeOf_join_plain {p : Path} {name : String} (plain : Path.Plain name) (t : FileTree) :
    t.placeOf (p.join name) = t.placeOf p ++ [name] := by
  rw [placeOf_join plain.isRelative, Path.words_of_name plain, Location.follow_plain plain]

theorem eq_enter_of_step {l next : Location} {part : String} (h : step l part = .ok next) :
    next = l.enter part := by
  rw [step] at h
  rw [enter]
  split at h
  · rename_i idle
    rw [if_pos idle]
    exact (Except.ok.inj h).symm
  · rename_i idle
    rw [if_neg idle]
    split at h
    · rename_i up
      rw [if_pos up]
      exact (Except.ok.inj h).symm
    · rename_i up
      rw [if_neg up]
      split at h
      · cases h
      · exact (Except.ok.inj h).symm

theorem eq_follow_of_walk {l dir : Location} {parts : List String}
    (h : t.walk l parts = .ok dir) : dir = l.follow parts := by
  induction parts generalizing l with
  | nil => exact (Except.ok.inj h).symm
  | cons part rest ih =>
    obtain ⟨next, hstep, -, hrest⟩ := walk_cons_eq_ok.1 h
    rw [ih hrest, eq_enter_of_step hstep]
    rfl

/-- Wherever a path leads in a tree, it is the place that its text tells. -/
theorem place_of_target {p : Path} {g : Target} (h : t.target p = .ok g) :
    g.place = t.placeOf p := by
  have haim := aim_of_target h
  rw [aim] at haim
  rw [placeOf_eq]
  cases hlast : p.words.getLast? with
  | none =>
    rw [hlast] at haim
    obtain rfl := Except.ok.inj haim
    rw [List.getLast?_eq_none_iff.1 hlast]
    rfl
  | some last =>
    rw [hlast] at haim
    simp only at haim
    split at haim
    · obtain ⟨place, hwalk, haim⟩ := bind_eq_ok.1 haim
      obtain rfl := Except.ok.inj haim
      exact eq_follow_of_walk hwalk
    · obtain ⟨directory, hwalk, haim⟩ := bind_eq_ok.1 haim
      obtain ⟨place, hstep, haim⟩ := bind_eq_ok.1 haim
      obtain rfl := Except.ok.inj haim
      obtain ⟨front, hwords⟩ := List.getLast?_eq_some_iff.1 hlast
      rw [hwords, List.dropLast_concat] at hwalk
      rw [hwords, Location.follow_append, ← eq_follow_of_walk hwalk]
      exact eq_enter_of_step hstep

theorem find_of_exists {p : Path} (h : t.exists? p = true) :
    ∃ node, t.find p = .ok (t.placeOf p, node) := by
  rw [exists?] at h
  cases hfind : t.find p with
  | error fault =>
    rw [hfind] at h
    cases h
  | ok found =>
    obtain ⟨l, node⟩ := found
    obtain ⟨g, hg, rfl, -⟩ := find_eq_ok hfind
    exact ⟨node, by rw [place_of_target hg]⟩

end FileTree

/-- The names in a directory are names of entries. -/
theorem FileTree.plain_of_list {t : FileTree} {p : Path} {names : List String}
    (hlist : t.list p = .ok names) {name : String} (hname : name ∈ names) : Path.Plain name := by
  obtain ⟨⟨l, node⟩, hfind, hlist⟩ := bind_eq_ok.1 hlist
  obtain ⟨g, -, rfl, there⟩ := find_eq_ok hfind
  cases node with
  | file => cases hlist
  | directory entries =>
    obtain rfl := Except.ok.inj hlist
    exact FileNode.plain_of_mem (FileNode.hasPlainNames_of_get? t.names there) hname

end ModelShelf
