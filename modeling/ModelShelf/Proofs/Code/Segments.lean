import Mathlib.Data.List.Forall2
import ModelShelf.Proofs.Code.Resolution

/-!
How far the segments of a module name lead. They lead below a directory of the search path, one
level each, as long as each of them is a name. A segment with slashes can lead deeper, and an
absolute one leads to a place that no directory of the search path has a part in.
-/

namespace ModelShelf

open Text
open ModelShelf.Path (Plain)

variable {t : FileTree}

namespace SearchPath

variable {path : SearchPath} {module : String} {p : Path}

/-! ### Where segments lead -/

/-- The place that segments lead to, one after the other. An absolute segment leads away from where
the others led. -/
def descend (l : Location) (segments : List String) : Location :=
  segments.foldl (fun l segment =>
    (if (Path.mk segment).isAbsolute then [] else l) ++ (Path.mk segment).words) l

/-- A path whose words are all names. -/
def NamesOnly (segment : String) : Prop := ∀ word ∈ (Path.mk segment).words, Plain word

theorem namesOnly_of_not_mem {segment : String} (h : '.' ∉ segment.toList) : NamesOnly segment := by
  intro word hword
  obtain ⟨hpart, hsolid⟩ := List.mem_filter.1 hword
  rw [Path.words_eq] at hword
  exact plain_of_not_mem (fun hdot => h ((Path.sublist_of_mem_wordsOf hword).subset hdot))
    (of_decide_eq_true hsolid) (Path.not_mem_parts hpart)

theorem namesOnly_of_plain {name : String} (plain : Plain name) : NamesOnly name := by
  rw [NamesOnly, Path.words_of_name plain]
  exact List.forall_mem_singleton.2 plain

theorem join_of_absolute {segment : String} (absolute : (Path.mk segment).isAbsolute = true)
    (d : Path) : d.join segment = ⟨segment⟩ := by
  rw [Path.join, if_pos (by simp [absolute])]

theorem placeOf_join_namesOnly {segment : String} (h : NamesOnly segment) (d : Path)
    (t : FileTree) :
    t.placeOf (d.join segment) =
      (if (Path.mk segment).isAbsolute then [] else t.placeOf d) ++ (Path.mk segment).words := by
  by_cases absolute : (Path.mk segment).isAbsolute = true
  · rw [if_pos absolute, join_of_absolute absolute, FileTree.placeOf_eq, FileTree.start,
      if_pos absolute, Location.follow_all_plain h]
  · rw [if_neg absolute, FileTree.placeOf_join (Bool.eq_false_iff.2 absolute),
      Location.follow_all_plain h]

theorem placeOf_foldl_join {segments : List String} (h : ∀ segment ∈ segments, NamesOnly segment)
    (d : Path) (t : FileTree) :
    t.placeOf (segments.foldl Path.join d) = descend (t.placeOf d) segments := by
  induction segments generalizing d with
  | nil => rfl
  | cons segment rest ih =>
    obtain ⟨hsegment, hrest⟩ := List.forall_mem_cons.1 h
    rw [List.foldl_cons, ih hrest, placeOf_join_namesOnly hsegment, descend, descend,
      List.foldl_cons]

/-- The names in segments. -/
def namesOf (segments : List String) : List String :=
  segments.flatMap fun segment => (Path.mk segment).words

theorem descend_of_relative {segments : List String}
    (relative : ∀ segment ∈ segments, (Path.mk segment).isAbsolute = false) (l : Location) :
    descend l segments = l ++ namesOf segments := by
  induction segments generalizing l with
  | nil => exact (List.append_nil l).symm
  | cons segment rest ih =>
    obtain ⟨hsegment, hrest⟩ := List.forall_mem_cons.1 relative
    have step : descend l (segment :: rest) =
        descend ((if (Path.mk segment).isAbsolute then [] else l) ++ (Path.mk segment).words)
          rest := rfl
    rw [step, ih hrest, hsegment, if_neg Bool.false_ne_true, namesOf, namesOf, List.flatMap_cons,
      List.append_assoc]

/-- From an absolute segment on, it does not matter what stood before. -/
theorem descend_of_absolute {front rest : List String} {segment : String}
    (absolute : (Path.mk segment).isAbsolute = true)
    (relative : ∀ later ∈ rest, (Path.mk later).isAbsolute = false) (l : Location) :
    descend l (front ++ segment :: rest) = (Path.mk segment).words ++ namesOf rest := by
  have step : descend l (front ++ segment :: rest) =
      descend ((if (Path.mk segment).isAbsolute then [] else descend l front) ++
        (Path.mk segment).words) rest := List.foldl_append
  rw [step, descend_of_relative relative, if_pos absolute, List.nil_append]

/-- Relative segments lead down by one level each at least, and by no more exactly if each of them
is one name. -/
theorem length_namesOf {segments : List String} (solid : "" ∉ segments)
    (relative : ∀ segment ∈ segments, (Path.mk segment).isAbsolute = false) :
    segments.length ≤ (namesOf segments).length ∧
      ((namesOf segments).length = segments.length ↔
        ∀ segment ∈ segments, (Path.mk segment).words.length = 1) := by
  induction segments with
  | nil => exact ⟨Nat.le_refl _, fun _ => List.forall_mem_nil _, fun _ => rfl⟩
  | cons segment rest ih =>
    obtain ⟨hsegment, hrest⟩ := List.forall_mem_cons.1 relative
    obtain ⟨hle, hiff⟩ := ih (fun hmem => solid (List.mem_cons_of_mem _ hmem)) hrest
    have hne : (Path.mk segment).words ≠ [] :=
      Path.words_ne_nil (fun hempty : segment = "" => solid (hempty ▸ List.mem_cons_self)) hsegment
    have hpos := List.length_pos_iff.2 hne
    rw [List.forall_mem_cons, ← hiff, namesOf, List.flatMap_cons, List.length_append,
      List.length_cons, ← namesOf]
    omega

/-! ### What is found for segments -/

/-- What is found for a segment is the segment itself, or a file with a plain name, and then the
segment is plain too. -/
def FoundFor (entry segment : String) : Prop := entry = segment ∨ Plain segment ∧ Plain entry

section FoundFor

variable {entry segment : String} {entries others : List String}

theorem FoundFor.isAbsolute_eq (h : FoundFor entry segment) :
    (Path.mk entry).isAbsolute = (Path.mk segment).isAbsolute := by
  rcases h with rfl | ⟨plain, plain'⟩
  · rfl
  · rw [plain'.isRelative, plain.isRelative]

theorem FoundFor.length_words_eq (h : FoundFor entry segment) :
    (Path.mk entry).words.length = (Path.mk segment).words.length := by
  rcases h with rfl | ⟨plain, plain'⟩
  · rfl
  · rw [Path.words_of_name plain, Path.words_of_name plain', List.length_singleton,
      List.length_singleton]

theorem FoundFor.eq_of_absolute (h : FoundFor entry segment)
    (absolute : (Path.mk segment).isAbsolute = true) : entry = segment := by
  rcases h with rfl | ⟨plain, -⟩
  · rfl
  · rw [plain.isRelative] at absolute
    cases absolute

theorem FoundFor.namesOnly (h : FoundFor entry segment) (undotted : '.' ∉ segment.toList) :
    NamesOnly entry := by
  rcases h with rfl | ⟨-, plain⟩
  · exact namesOnly_of_not_mem undotted
  · exact namesOnly_of_plain plain

theorem relative_of_found (h : List.Forall₂ FoundFor entries others)
    (relative : ∀ segment ∈ others, (Path.mk segment).isAbsolute = false) :
    ∀ entry ∈ entries, (Path.mk entry).isAbsolute = false := by
  induction h with
  | nil => exact relative
  | cons hfirst _ ih =>
    obtain ⟨hsegment, hrest⟩ := List.forall_mem_cons.1 relative
    exact List.forall_mem_cons.2 ⟨hfirst.isAbsolute_eq.trans hsegment, ih hrest⟩

theorem length_namesOf_of_found (h : List.Forall₂ FoundFor entries others) :
    (namesOf entries).length = (namesOf others).length := by
  induction h with
  | nil => rfl
  | cons hfirst _ ih =>
    rw [namesOf, namesOf, List.flatMap_cons, List.flatMap_cons, List.length_append,
      List.length_append, hfirst.length_words_eq, ← namesOf, ← namesOf, ih]

end FoundFor

/-! ### Where modules are found -/

theorem isPrefix_stem (name : String) : (Path.stem name).toList <+: name.toList := by
  rw [Path.stem]
  split
  · rename_i before after hsplit
    split
    · exact List.prefix_refl _
    · rw [String.toList_ofList, eq_of_splitLast? hsplit]
      exact List.prefix_append _ _
  · exact List.prefix_refl _

theorem moduleIn_found {d : Path} {name : String} (undotted : '.' ∉ name.toList)
    (solid : name ≠ "") (h : moduleIn t d name = some p) :
    ∃ entry, p = d.join entry ∧ FoundFor entry name := by
  rw [moduleIn] at h
  dsimp only at h
  split at h
  · exact ⟨name, (Option.some.inj h).symm, .inl rfl⟩
  · obtain ⟨file, hfile, rfl⟩ := Option.map_eq_some_iff.1 h
    obtain ⟨hmem, hchosen⟩ := List.mem_filter.1 (head?_mergeSort_eq_some.1 hfile).1
    have hstem : Path.stem file = name :=
      of_decide_eq_true (Bool.and_eq_true_iff.1 hchosen).1
    have plain := FileTree.plain_of_mem_list hmem
    refine ⟨file, rfl, .inr ⟨plain_of_not_mem undotted solid fun hslash => ?_, plain⟩⟩
    exact plain.oneName ((isPrefix_stem file).subset (hstem ▸ hslash))

/-- What is found for a module lies where its segments lead from a directory of the search path. -/
theorem resolve_found (found : path.resolve t module = some p) :
    "" ∉ segments module ∧ ∃ e ∈ path.entries, ∃ entries,
      List.Forall₂ FoundFor entries (segments module) ∧ t.placeOf p = descend e.val entries := by
  have solid : "" ∉ segments module := by
    intro hempty
    rw [resolve_of_empty hempty] at found
    cases found
  obtain ⟨front, last, h⟩ := exists_last_segment module
  have undotted {segment : String} (hsegment : segment ∈ front ++ [last]) :
      '.' ∉ segment.toList := not_mem_of_mem_segments (h ▸ hsegment)
  have hlast : last ∈ front ++ [last] := List.mem_append_right front List.mem_cons_self
  rw [resolve_eq path t solid h] at found
  obtain ⟨e, he, found⟩ := List.exists_of_findSome?_eq_some found
  obtain ⟨d, hpackages, hmodule⟩ := Option.bind_eq_some_iff.1 found
  obtain rfl := packageIn_eq_some hpackages
  obtain ⟨entry, rfl, hentry⟩ := moduleIn_found (undotted hlast)
    (fun hempty => solid (h ▸ hempty ▸ hlast)) hmodule
  have hnames : ∀ segment ∈ front ++ [entry], NamesOnly segment := by
    refine List.forall_mem_append.2 ⟨fun segment hfront => ?_, List.forall_mem_singleton.2 ?_⟩
    · exact namesOnly_of_not_mem (undotted (List.mem_append_left _ hfront))
    · exact hentry.namesOnly (undotted hlast)
  have hjoined : (front.foldl Path.join e.val.path).join entry =
      (front ++ [entry]).foldl Path.join e.val.path := by
    rw [List.foldl_append, List.foldl_cons, List.foldl_nil]
  refine ⟨solid, e, he, front ++ [entry], ?_, ?_⟩
  · rw [h]
    exact List.rel_append (List.forall₂_same.2 fun _ _ => .inl rfl) (.cons hentry .nil)
  · rw [hjoined, placeOf_foldl_join hnames, Location.placeOf_path e.2]

/-- Without an absolute segment, a module lies below a directory of the search path: by as many
levels as there are segments if each of them is one name, and by more if not. With an absolute
segment, it lies below the place of the last such segment, and neither the search path nor what
stands in front of that segment has a part in where this is. -/
theorem resolve_descends (found : path.resolve t module = some p) :
    ((∀ segment ∈ segments module, (Path.mk segment).isAbsolute = false) →
      ∃ e ∈ path.entries, ∃ below, t.placeOf p = e.val ++ below ∧
        (segments module).length ≤ below.length ∧
        (below.length = (segments module).length ↔
          ∀ segment ∈ segments module, (Path.mk segment).words.length = 1)) ∧
    ∀ front segment rest, segments module = front ++ segment :: rest →
      (Path.mk segment).isAbsolute = true →
      (∀ later ∈ rest, (Path.mk later).isAbsolute = false) →
      ∃ below, t.placeOf p = (Path.mk segment).words ++ below ∧ rest.length ≤ below.length := by
  obtain ⟨solid, e, he, entries, hfound, hplace⟩ := resolve_found found
  constructor
  · intro relative
    rw [descend_of_relative (relative_of_found hfound relative)] at hplace
    obtain ⟨hle, hiff⟩ := length_namesOf solid relative
    rw [← length_namesOf_of_found hfound] at hle hiff
    exact ⟨e, he, _, hplace, hle, hiff⟩
  · intro front segment rest hsplit absolute relative
    have solid' : "" ∉ rest := fun hempty =>
      solid (hsplit ▸ List.mem_append_right front (List.mem_cons_of_mem segment hempty))
    rw [hsplit] at hfound
    obtain ⟨entry, after, hentry, hafter, hdrop⟩ :=
      List.forall₂_cons_right_iff.1 (List.forall₂_drop_append _ _ _ hfound)
    obtain rfl := hentry.eq_of_absolute absolute
    rw [← List.take_append_drop front.length entries, hdrop,
      descend_of_absolute absolute (relative_of_found hafter relative)] at hplace
    refine ⟨_, hplace, ?_⟩
    rw [length_namesOf_of_found hafter]
    exact (length_namesOf solid' relative).1

theorem shelved_packages :
    shelvedPath.resolve shelvedCode "pkg.core" = some ⟨"/new/pkg/core"⟩ ∧
    shelvedPath.resolve shelvedCode "pkg/core" = some ⟨"/new/pkg/core"⟩ ∧
    shelvedPath.resolve shelvedCode "/" = some ⟨"/"⟩ ∧
    segments "pkg.core" = ["pkg", "core"] ∧ segments "pkg/core" = ["pkg/core"] ∧
    segments "/" = ["/"] ∧
    shelvedCode.placeOf ⟨"/new/pkg/core"⟩ = ["new", "pkg", "core"] ∧
    shelvedCode.placeOf ⟨"/"⟩ = [] := by
  decide +kernel

theorem length_of_mem_shelvedPath {e : Place} (h : e ∈ shelvedPath.entries) :
    e.val.length = 1 := by
  rw [shelved_resolved.1] at h
  rcases List.mem_pair.1 h with rfl | rfl <;> rfl

theorem resolve_descends_shelved :
    shelvedPath.resolve shelvedCode "pkg.core" = some ⟨"/new/pkg/core"⟩ ∧
    ∃ e ∈ shelvedPath.entries, ∃ below,
      shelvedCode.placeOf ⟨"/new/pkg/core"⟩ = e.val ++ below ∧ below.length = 2 := by
  obtain ⟨found, -, -, hsegments, -⟩ := shelved_packages
  have relative : ∀ segment ∈ segments "pkg.core", (Path.mk segment).isAbsolute = false := by
    rw [hsegments]
    exact List.forall_mem_cons.2 ⟨by decide, List.forall_mem_singleton.2 (by decide)⟩
  have single : ∀ segment ∈ segments "pkg.core", (Path.mk segment).words.length = 1 := by
    rw [hsegments]
    exact List.forall_mem_cons.2 ⟨by decide, List.forall_mem_singleton.2 (by decide)⟩
  obtain ⟨e, he, below, hplace, -, hlength⟩ :=
    (resolve_descends found).1 relative
  exact ⟨found, e, he, below, hplace, (hlength.2 single).trans (by rw [hsegments]; rfl)⟩

/-- Slashes in a segment skip the level of a package, or lead away from the search path. -/
theorem slashes_lead_away :
    (shelvedPath.resolve shelvedCode "pkg/core" = some ⟨"/new/pkg/core"⟩ ∧
      ¬ ∃ e ∈ shelvedPath.entries, ∃ below, shelvedCode.placeOf ⟨"/new/pkg/core"⟩ = e.val ++ below ∧
        below.length = (segments "pkg/core").length) ∧
    shelvedPath.resolve shelvedCode "/" = some ⟨"/"⟩ ∧
      ¬ ∃ e ∈ shelvedPath.entries, ∃ below, shelvedCode.placeOf ⟨"/"⟩ = e.val ++ below := by
  obtain ⟨-, deep, away, -, hdeep, -, hplace, hroot⟩ := shelved_packages
  refine ⟨⟨deep, ?_⟩, away, ?_⟩
  · rintro ⟨e, he, below, hbelow, hlength⟩
    have hlengths := congrArg List.length (hplace.symm.trans hbelow)
    rw [List.length_append, length_of_mem_shelvedPath he, hlength, hdeep] at hlengths
    cases hlengths
  · rintro ⟨e, he, below, hbelow⟩
    have hlengths := congrArg List.length (hroot.symm.trans hbelow)
    rw [List.length_append, length_of_mem_shelvedPath he, List.length_nil] at hlengths
    omega

end SearchPath

end ModelShelf
