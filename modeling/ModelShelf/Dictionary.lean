/-!
Dictionaries: values under names, kept in the order of the names. A name occurs once.
-/

namespace ModelShelf

/-- Looking up a name in a list goes by its first entry, or else by the rest. -/
theorem lookup_cons_eq_ite (name first : String) (value : α) (rest : List (String × α)) :
    ((first, value) :: rest).lookup name =
      if name = first then some value else rest.lookup name := by
  by_cases h : name = first
  · simp [h]
  · have hb : (name == first) = false := beq_eq_false_iff_ne.2 h
    simp [List.lookup_cons, hb, h]

/-- Where no name occurs twice, the value of a name is that of its only entry. -/
theorem lookup_eq_some_iff_mem {entries : List (String × α)} {name : String} {value : α}
    (h : (entries.map Prod.fst).Nodup) :
    entries.lookup name = some value ↔ (name, value) ∈ entries := by
  induction entries with
  | nil => exact iff_of_false nofun nofun
  | cons first rest ih =>
    obtain ⟨n, v⟩ := first
    obtain ⟨absent, hrest⟩ := List.nodup_cons.1 h
    rw [lookup_cons_eq_ite, List.mem_cons, Prod.mk.injEq]
    split
    · next heq =>
      have hnot : (name, value) ∉ rest := fun hmem =>
        absent (heq ▸ List.mem_map.2 ⟨(name, value), hmem, rfl⟩)
      rw [or_iff_left hnot, and_iff_right heq, Option.some.injEq, eq_comm]
    · next hne => rw [or_iff_right fun h => hne h.1, ih hrest]

/-- Values by name, sorted by name. -/
structure Dictionary (α : Type) where
  entries : List (String × α)
  sorted : entries.Pairwise fun a b => a.1 < b.1
deriving DecidableEq, Repr

namespace Dictionary

def empty : Dictionary α := ⟨[], .nil⟩

/-- Puts a value at its place in a sorted list; a value of the same name is replaced. -/
def put (name : String) (value : α) : List (String × α) → List (String × α)
  | [] => [(name, value)]
  | (n, v) :: rest =>
    if name = n then (name, value) :: rest
    else if name < n then (name, value) :: (n, v) :: rest
    else (n, v) :: put name value rest

theorem mem_put {name : String} {value : α} {entries : List (String × α)} {e : String × α}
    (h : e ∈ put name value entries) : e = (name, value) ∨ e ∈ entries := by
  induction entries with
  | nil => simpa [put] using h
  | cons first rest ih =>
    obtain ⟨n, v⟩ := first
    simp only [put] at h
    split at h
    · rcases List.mem_cons.1 h with h | h
      · exact .inl h
      · exact .inr (List.mem_cons_of_mem _ h)
    · split at h
      · exact List.mem_cons.1 h
      · rcases List.mem_cons.1 h with h | h
        · exact .inr (h ▸ List.mem_cons_self)
        · exact (ih h).imp_right (List.mem_cons_of_mem _)

theorem sorted_put {name : String} {value : α} {entries : List (String × α)}
    (h : entries.Pairwise fun a b => a.1 < b.1) :
    (put name value entries).Pairwise fun a b => a.1 < b.1 := by
  induction entries with
  | nil => simp [put]
  | cons first rest ih =>
    obtain ⟨n, v⟩ := first
    obtain ⟨hfirst, hrest⟩ := List.pairwise_cons.1 h
    simp only [put]
    split
    · rename_i he
      subst he
      exact List.pairwise_cons.2 ⟨hfirst, hrest⟩
    · rename_i hne
      split
      · rename_i hlt
        refine List.pairwise_cons.2 ⟨fun e he => ?_, h⟩
        rcases List.mem_cons.1 he with he | he
        · exact he ▸ hlt
        · exact String.lt_trans hlt (hfirst e he)
      · rename_i hnl
        refine List.pairwise_cons.2 ⟨fun e he => ?_, ih hrest⟩
        rcases mem_put he with he | he
        · subst he
          exact Std.lt_of_le_of_ne (String.not_lt.1 hnl) (Ne.symm hne)
        · exact hfirst e he

/-- Stores a value under a name. -/
def insert (d : Dictionary α) (name : String) (value : α) : Dictionary α :=
  ⟨put name value d.entries, sorted_put d.sorted⟩

def get? (d : Dictionary α) (name : String) : Option α := d.entries.lookup name

theorem lookup_put {name other : String} {value : α} {entries : List (String × α)} :
    (put name value entries).lookup other =
      if other = name then some value else entries.lookup other := by
  induction entries with
  | nil => simp [put, lookup_cons_eq_ite]
  | cons first rest ih =>
    obtain ⟨n, v⟩ := first
    simp only [put]
    split <;> grind [lookup_cons_eq_ite]

/-- A stored value is found under its name, and what other names have is as before. -/
theorem get?_insert (d : Dictionary α) (name other : String) (value : α) :
    (d.insert name value).get? other = if other = name then some value else d.get? other :=
  lookup_put

def isEmpty (d : Dictionary α) : Bool := d.entries.isEmpty

def names (d : Dictionary α) : List String := d.entries.map Prod.fst

/-- The last value of each name. -/
def ofList (entries : List (String × α)) : Dictionary α :=
  entries.foldl (fun d (name, value) => d.insert name value) empty

theorem put_of_lt {name : String} {value : α} {entries : List (String × α)}
    (h : ∀ e ∈ entries, e.1 < name) : put name value entries = entries ++ [(name, value)] := by
  induction entries with
  | nil => rfl
  | cons first rest ih =>
    obtain ⟨hfirst, hrest⟩ := List.forall_mem_cons.1 h
    have hne : name ≠ first.1 := fun he => String.lt_irrefl name (he ▸ hfirst)
    have hnl : ¬ name < first.1 := fun hlt => String.lt_irrefl name (String.lt_trans hlt hfirst)
    rw [put, if_neg hne, if_neg hnl, ih hrest, List.cons_append]

/-- Entries that are sorted already are stored as they come. -/
theorem entries_foldl_insert {d : Dictionary α} {rest : List (String × α)}
    (h : (d.entries ++ rest).Pairwise fun a b => a.1 < b.1) :
    (rest.foldl (fun d (e : String × α) => d.insert e.1 e.2) d).entries = d.entries ++ rest := by
  induction rest generalizing d with
  | nil => rw [List.foldl_nil, List.append_nil]
  | cons first rest ih =>
    have stored : (d.insert first.1 first.2).entries = d.entries ++ [first] := put_of_lt fun e he =>
      (List.pairwise_append.1 h).2.2 e he first List.mem_cons_self
    have hsorted : ((d.insert first.1 first.2).entries ++ rest).Pairwise fun a b => a.1 < b.1 := by
      rwa [stored, List.append_assoc, List.singleton_append]
    rw [List.foldl_cons, ih hsorted, stored, List.append_assoc, List.singleton_append]

theorem foldl_insert_entries (d : Dictionary α) :
    d.entries.foldl (fun d (e : String × α) => d.insert e.1 e.2) empty = d := by
  have stored := entries_foldl_insert (d := empty) d.sorted
  cases d
  rwa [mk.injEq]

/-- The entries of a dictionary make the dictionary. -/
theorem ofList_entries (d : Dictionary α) : ofList d.entries = d := foldl_insert_entries d

theorem mem_ofList {entries : List (String × α)} {e : String × α}
    (h : e ∈ (ofList entries).entries) : e ∈ entries := by
  suffices ∀ d : Dictionary α,
      e ∈ (entries.foldl (fun d (e : String × α) => d.insert e.1 e.2) d).entries →
        e ∈ entries ∨ e ∈ d.entries from (this empty h).resolve_right nofun
  clear h
  induction entries with
  | nil => exact fun d => .inr
  | cons first rest ih =>
    intro d h
    rcases ih _ h with hrest | hd
    · exact .inl (List.mem_cons_of_mem _ hrest)
    · rcases mem_put hd with rfl | hd
      · exact .inl List.mem_cons_self
      · exact .inr hd

theorem get?_foldl_of_not_mem {entries : List (String × α)} {name : String}
    (h : name ∉ entries.map Prod.fst) (d : Dictionary α) :
    (entries.foldl (fun d (e : String × α) => d.insert e.1 e.2) d).get? name = d.get? name := by
  induction entries generalizing d with
  | nil => rfl
  | cons first rest ih =>
    rw [List.map_cons, List.mem_cons, not_or] at h
    rw [List.foldl_cons, ih h.2, get?_insert, if_neg h.1]

/-- Where no name occurs twice, each entry is found under its name. -/
theorem get?_ofList_of_mem {entries : List (String × α)} (h : (entries.map Prod.fst).Nodup)
    {e : String × α} (he : e ∈ entries) : (ofList entries).get? e.1 = some e.2 := by
  suffices ∀ d : Dictionary α,
      (entries.foldl (fun d (e : String × α) => d.insert e.1 e.2) d).get? e.1 = some e.2 from
    this empty
  induction entries with
  | nil => cases he
  | cons first rest ih =>
    intro d
    obtain ⟨hfirst, hrest⟩ := List.nodup_cons.1 h
    rw [List.foldl_cons]
    rcases List.mem_cons.1 he with rfl | he
    · rw [get?_foldl_of_not_mem hfirst, get?_insert, if_pos rfl]
    · exact ih hrest he _

end Dictionary

end ModelShelf
