import Mathlib.Data.List.Induction
import ModelShelf.Proofs.Sample.Tensors

/-!
Named tensors after a history of insertions. The names stand in the order in which they were first
inserted, each once, and with each of them the tensor that was inserted last. What was replaced is
not there any more, and so its structure does not matter to the schema.
-/

namespace ModelShelf

/-- Without repetitions, one more name is there already or comes last. -/
theorem eraseDups_concat (names : List String) (name : String) :
    (names ++ [name]).eraseDups =
      if name ∈ names then names.eraseDups else names.eraseDups ++ [name] := by
  rw [List.eraseDups_append, List.removeAll]
  by_cases h : name ∈ names <;> simp [h, List.eraseDups_cons]

namespace NamedTensors

variable {inserts : List (String × Tensor)} {name : String} {tensor : Tensor}

/-- A tensor was inserted under a name, and no other after it. -/
def LastInserted (inserts : List (String × Tensor)) (name : String) (tensor : Tensor) : Prop :=
  ∃ before after, inserts = before ++ (name, tensor) :: after ∧ name ∉ after.map Prod.fst

theorem lastInserted_iff :
    LastInserted inserts name tensor ↔ inserts.reverse.lookup name = some tensor := by
  rw [List.lookup_eq_some_iff]
  constructor
  · rintro ⟨before, after, rfl, hafter⟩
    refine ⟨after.reverse, before.reverse, by simp, fun later hlater => ?_⟩
    have hne : name ≠ later.1 := fun h =>
      hafter (h ▸ List.mem_map_of_mem (List.mem_reverse.1 hlater))
    simpa using hne
  · rintro ⟨after, before, hsplit, hafter⟩
    refine ⟨before.reverse, after.reverse, ?_, fun hmem => ?_⟩
    · rw [← List.reverse_reverse inserts, hsplit]
      simp
    · obtain ⟨later, hlater, hname⟩ := List.mem_map.1 hmem
      simpa [hname] using hafter later (List.mem_reverse.1 hlater)

theorem ofList_concat (inserts : List (String × Tensor)) (name : String) (tensor : Tensor) :
    ofList (inserts ++ [(name, tensor)]) = (ofList inserts).insert name tensor :=
  List.foldl_concat ..

/-- The names in the order of their first insertions. -/
theorem names_ofList (inserts : List (String × Tensor)) :
    (ofList inserts).entries.map Prod.fst = (inserts.map Prod.fst).eraseDups := by
  induction inserts using List.reverseRecOn with
  | nil => rfl
  | append_singleton inserts last ih =>
    obtain ⟨name, tensor⟩ := last
    have same : name ∈ (inserts.map Prod.fst).eraseDups ↔ name ∈ inserts.map Prod.fst :=
      List.mem_eraseDups
    rw [ofList_concat, insert, map_fst_put, ih, List.map_append, List.map_singleton,
      eraseDups_concat]
    simp only [same]

/-- What is found is what was inserted last. -/
theorem get?_ofList (inserts : List (String × Tensor)) (name : String) :
    (ofList inserts).get? name = inserts.reverse.lookup name := by
  induction inserts using List.reverseRecOn with
  | nil => rfl
  | append_singleton inserts last ih =>
    rw [ofList_concat, get?_insert, ih, List.reverse_concat, lookup_cons_eq_ite]

theorem get?_ofList_eq_none : (ofList inserts).get? name = none ↔ name ∉ inserts.map Prod.fst := by
  rw [get?_ofList, List.lookup_eq_none_iff]
  constructor
  · intro h hmem
    obtain ⟨entry, hentry, rfl⟩ := List.mem_map.1 hmem
    simpa using h entry (List.mem_reverse.2 hentry)
  · intro h entry hentry
    have hne : name ≠ entry.1 := fun heq =>
      h (heq ▸ List.mem_map_of_mem (List.mem_reverse.1 hentry))
    simpa using hne

/-- What is there is what was inserted last. -/
theorem mem_ofList {entry : String × Tensor} :
    entry ∈ (ofList inserts).entries ↔ LastInserted inserts entry.1 entry.2 := by
  rw [lastInserted_iff, ← get?_ofList, get?, lookup_eq_some_iff_mem (ofList inserts).unique]

/-- After any insertions, the names stand in the order of their first insertions, each once; under
each of them the tensor that was inserted last is found, and nothing under other names. The schema
has one spec for each name, in that order, with the structure of that tensor; it is there whenever
these tensors have specs, whatever they replaced. -/
theorem ofList_keeps_last (inserts : List (String × Tensor)) :
    (ofList inserts).entries.map Prod.fst = (inserts.map Prod.fst).eraseDups ∧
    (inserts.map Prod.fst).eraseDups.Nodup ∧
    (∀ name tensor, (ofList inserts).get? name = some tensor ↔ LastInserted inserts name tensor) ∧
    (∀ name, (ofList inserts).get? name = none ↔ name ∉ inserts.map Prod.fst) ∧
    ((∃ schema, (ofList inserts).schema = .ok schema) ↔
      ∀ name tensor, LastInserted inserts name tensor → tensor.Inferable) ∧
    ∀ schema, (ofList inserts).schema = .ok schema → List.Forall₂
      (fun name spec => ∃ tensor t, LastInserted inserts name tensor ∧
        tensor.HasSpec (some name) t ∧ spec = .tensor t)
      (inserts.map Prod.fst).eraseDups schema.specs := by
  refine ⟨names_ofList inserts, ?distinct, ?found, ?absent, ?succeeds, ?specs⟩
  case distinct => exact names_ofList inserts ▸ (ofList inserts).unique
  case found =>
    intro name tensor
    rw [get?_ofList, lastInserted_iff]
  case absent => exact fun name => get?_ofList_eq_none
  case succeeds =>
    rw [exists_schema_iff, Prod.forall]
    simp only [mem_ofList]
  case specs =>
    intro schema h
    rw [← names_ofList, List.forall₂_map_left_iff]
    have last : ∀ entry ∈ (ofList inserts).entries, LastInserted inserts entry.1 entry.2 :=
      fun _ => mem_ofList.1
    refine ((List.forall₂_and_left _ _).2 ⟨last, schema_eq_ok.1 h⟩).imp ?_
    rintro entry spec ⟨hlast, t, ht, hspec⟩
    exact ⟨entry.2, t, hlast, ht, hspec⟩

/-- A row of two integers. -/
def rowOf (first second : Int64) : Tensor :=
  ⟨.integer .int64, [1, 2], fun place => if place.val = 0 then first else second⟩

/-- A tensor without dimensions is replaced by one that has a spec, and that one by another one
which differs from it in its elements alone. -/
def replacingInserts : List (String × Tensor) :=
  [("b", ⟨.bool, [], fun _ => true⟩), ("a", ⟨.text, [0, 3], fun _ => ""⟩), ("b", rowOf 1 2),
    ("b", rowOf 3 4)]

theorem ofList_keeps_last_replacing :
    (∀ name tensor, LastInserted replacingInserts name tensor → tensor.Inferable) ∧
    rowOf 1 2 ≠ rowOf 3 4 ∧ (ofList replacingInserts).get? "b" = some (rowOf 3 4) ∧
    ∃ schema, (ofList replacingInserts).schema = .ok schema ∧ List.Forall₂
      (fun name spec => ∃ tensor t, LastInserted replacingInserts name tensor ∧
        tensor.HasSpec (some name) t ∧ spec = .tensor t) ["b", "a"] schema.specs := by
  obtain ⟨-, -, found, -, succeeds, specs⟩ := ofList_keeps_last replacingInserts
  have last : LastInserted replacingInserts "b" (rowOf 3 4) :=
    ⟨replacingInserts.take 3, [], rfl, nofun⟩
  have kept : ∀ entry ∈ (ofList replacingInserts).entries, entry.2.Inferable := by decide
  have inferable : ∀ name tensor, LastInserted replacingInserts name tensor → tensor.Inferable :=
    fun name tensor h => kept (name, tensor) (mem_ofList.2 h)
  have apart : rowOf 1 2 ≠ rowOf 3 4 := by
    intro same
    have elements := eq_of_heq (Tensor.mk.inj same).2.2
    exact absurd (congrFun elements ⟨0, by decide⟩) (by decide)
  obtain ⟨schema, hschema⟩ := succeeds.2 inferable
  exact ⟨inferable, apart, (found _ _).2 last, schema, hschema, specs schema hschema⟩

end NamedTensors

end ModelShelf
