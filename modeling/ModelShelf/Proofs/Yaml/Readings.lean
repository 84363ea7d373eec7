import ModelShelf.Proofs.Yaml.Agreement

/-!
The readings of any value compared. A value without tags is read the same whether tags are kept or
not, a reading that does not keep tags yields values without any, and a reading that refuses
repeated keys yields values that repeat none.
-/

namespace ModelShelf.Yaml.Read

variable {around : Surroundings} {jumps after : Nat} {how : Reading}

/-! ### Values that are nested -/

theorem Items.imp {f g : Route → Node → Read Value} {route : Route} {items : List (Node × Nat)}
    {vs : List Value} (h : Items f around route items jumps vs after)
    (untagged : Value.itemsHaveTag vs = false)
    (hvalue : ∀ {route node jumps v after}, v.hasTag = false →
      Yields (f route node) around jumps v after → Yields (g route node) around jumps v after) :
    Items g around route items jumps vs after := by
  induction h with
  | nil => exact .nil
  | cons first _ ih =>
    obtain ⟨hfirst, hothers⟩ := Bool.or_eq_false_iff.1 untagged
    exact .cons (hvalue hfirst first) (ih hothers)

theorem Entries.imp {f g : Route → Node → Read Value} {route : Route} {list : List (Node × Node)}
    {known es : List (Value × Value)}
    (h : Entries anyReading f around route known list jumps es after)
    (untagged : Value.entriesHaveTag es = false)
    (hvalue : ∀ {route node jumps v after}, v.hasTag = false →
      Yields (f route node) around jumps v after → Yields (g route node) around jumps v after) :
    Entries how g around route known list jumps es after := by
  induction h with
  | nil => exact .nil
  | cons atKey new atItem _ ih =>
    obtain ⟨hentry, hothers⟩ := Bool.or_eq_false_iff.1 untagged
    obtain ⟨hkey, hitem⟩ := Bool.or_eq_false_iff.1 hentry
    refine .cons (hvalue hkey atKey) (.inr ?_) (hvalue hitem atItem) (ih hothers)
    exact new.resolve_left nofun

theorem Items.untagged {f : Route → Node → Read Value} {route : Route} {items : List (Node × Nat)}
    {vs : List Value} (h : Items f around route items jumps vs after)
    (hvalue : ∀ {route node jumps v after}, Yields (f route node) around jumps v after →
      v.hasTag = false) : Value.itemsHaveTag vs = false := by
  induction h with
  | nil => rfl
  | cons first _ ih => exact Bool.or_eq_false_iff.2 ⟨hvalue first, ih⟩

theorem Entries.untagged {f : Route → Node → Read Value} {route : Route} {list : List (Node × Node)}
    {known es : List (Value × Value)} (h : Entries how f around route known list jumps es after)
    (hvalue : ∀ {route node jumps v after}, Yields (f route node) around jumps v after →
      v.hasTag = false) : Value.entriesHaveTag es = false := by
  induction h with
  | nil => rfl
  | cons atKey _ atItem _ ih =>
    exact Bool.or_eq_false_iff.2 ⟨Bool.or_eq_false_iff.2 ⟨hvalue atKey, hvalue atItem⟩, ih⟩

theorem Items.unrepeated {f : Route → Node → Read Value} {route : Route}
    {items : List (Node × Nat)} {vs : List Value} (h : Items f around route items jumps vs after)
    (hvalue : ∀ {route node jumps v after}, Yields (f route node) around jumps v after →
      v.repetition? = none) : Value.repetitionInItems? vs = none := by
  induction h with
  | nil => rfl
  | cons first _ ih => exact Option.or_eq_none_iff.2 ⟨hvalue first, ih⟩

/-- The keys that the search for repetitions knows are those of the entries read before. -/
theorem Entries.unrepeated {f : Route → Node → Read Value} {route : Route}
    {list : List (Node × Node)} {known es : List (Value × Value)}
    (h : Entries how f around route known list jumps es after) (strict : how.mayRepeat = false)
    (hvalue : ∀ {route node jumps v after}, Yields (f route node) around jumps v after →
      v.repetition? = none) {keys : List Value}
    (hkeys : ∀ k, keys.any (Value.same k) = known.any fun e => k.same e.1) :
    Value.repetitionInEntries? keys es = none := by
  induction h generalizing keys with
  | nil => rfl
  | @cons known key item rest jumps between behind after k v es atKey new atItem others ih =>
    have unknown : keys.any (Value.same k) = false := by
      rw [hkeys]
      exact new.resolve_left (by simp [strict])
    have hrest := @ih (k :: keys) fun k' => by
      rw [List.any_cons, hkeys, List.any_append, Bool.or_comm]
      simp
    rw [Value.repetitionInEntries?, hvalue atKey, unknown, hvalue atItem, hrest]
    rfl

/-! ### Values of any depth -/

theorem yields_scalarValue {expected other : String} {x : Scalar} {v : Value}
    (h : Yields (scalarValue expected x) around jumps v after) :
    Yields (scalarValue other x) around jumps v after := by
  cases x with
  | wideInteger => exact absurd h (not_yields_mismatch _)
  | _ => exact h

/-- Scalars stand for values that have no tag and repeat no key. -/
theorem simple_of_yields_scalarValue {expected : String} {x : Scalar} {v : Value}
    (h : Yields (scalarValue expected x) around jumps v after) :
    v.hasTag = false ∧ v.repetition? = none := by
  cases x with
  | wideInteger => exact absurd h (not_yields_mismatch _)
  | _ =>
    obtain ⟨rfl, -⟩ := yields_pure.1 h
    exact ⟨rfl, rfl⟩

/-- What is nested in a value is read one level deeper. -/
theorem below_eq_some {depth : Depth} {f : Route → Node → Read Value}
    (h : below how depth = some f) : ∃ deeper, depth = deeper + 1 ∧ f = valueAs how deeper := by
  cases depth with
  | zero => cases h
  | succ depth => exact ⟨depth, rfl, (Option.some.inj h).symm⟩

/-- A value without tags is read in any other way too. -/
theorem agrees_valueAs {v : Value} (untagged : v.hasTag = false) : Agrees (valueAs how) v v := by
  refine ⟨fun {around depth route node jumps after} h => ?_⟩
  induction depth using Nat.strongRecOn generalizing v route node jumps after with
  | ind depth ih =>
    rw [value, valueAs_eq_valueWith] at h
    rw [valueAs_eq_valueWith]
    obtain ⟨target, between, hfollow, ⟨notTagged, hcontents⟩ | ⟨_, _, -, -, rfl, -⟩⟩ :=
      yields_valueWith.1 h
    · refine yields_valueWith.2 ⟨target, between, hfollow, .inl ⟨notTagged, ?_⟩⟩
      cases hcontents with
      | scalar means fits => exact .scalar means (yields_scalarValue fits)
      | sequence deeper reads =>
        obtain ⟨depth, rfl, rfl⟩ := below_eq_some deeper
        exact .sequence rfl (reads.imp untagged fun hv h => ih depth (Nat.lt_succ_self _) hv h)
      | mapping deeper reads =>
        obtain ⟨depth, rfl, rfl⟩ := below_eq_some deeper
        exact .mapping rfl (reads.imp untagged fun hv h => ih depth (Nat.lt_succ_self _) hv h)
      | absent => exact .absent
    · cases untagged

/-- A reading that does not keep tags yields values without any. -/
theorem hasTag_eq_false_of_yields (strict : how.keepsTags = false) {depth : Depth} {route : Route}
    {node : Node} {v : Value} (h : Yields (valueAs how depth route node) around jumps v after) :
    v.hasTag = false := by
  induction depth using Nat.strongRecOn generalizing v route node jumps after with
  | ind depth ih =>
    rw [valueAs_eq_valueWith] at h
    obtain ⟨target, between, -, ⟨-, hcontents⟩ | ⟨_, _, -, keeps, -, -⟩⟩ := yields_valueWith.1 h
    · cases hcontents with
      | scalar _ fits => exact (simple_of_yields_scalarValue fits).1
      | sequence deeper reads =>
        obtain ⟨depth, rfl, rfl⟩ := below_eq_some deeper
        exact reads.untagged fun h => ih depth (Nat.lt_succ_self _) h
      | mapping deeper reads =>
        obtain ⟨depth, rfl, rfl⟩ := below_eq_some deeper
        exact reads.untagged fun h => ih depth (Nat.lt_succ_self _) h
      | absent => rfl
    · exact absurd keeps (by simp [strict])

/-- A reading that refuses repeated keys yields values that repeat none at any depth. -/
theorem repetition?_eq_none_of_yields (strict : how.mayRepeat = false) {depth : Depth}
    {route : Route} {node : Node} {v : Value}
    (h : Yields (valueAs how depth route node) around jumps v after) : v.repetition? = none := by
  induction depth using Nat.strongRecOn generalizing v route node jumps after with
  | ind depth ih =>
    rw [valueAs_eq_valueWith] at h
    obtain ⟨target, between, -, h⟩ := yields_valueWith.1 h
    have inside {tag : Option String} {w : Value}
        (h : Contents how (below how depth) around route tag target between w after) :
        w.repetition? = none := by
      cases h with
      | scalar _ fits => exact (simple_of_yields_scalarValue fits).2
      | sequence deeper reads =>
        obtain ⟨depth, rfl, rfl⟩ := below_eq_some deeper
        exact reads.unrepeated fun h => ih depth (Nat.lt_succ_self _) h
      | mapping deeper reads =>
        obtain ⟨depth, rfl, rfl⟩ := below_eq_some deeper
        exact reads.unrepeated strict (fun h => ih depth (Nat.lt_succ_self _) h) fun _ => rfl
      | absent => rfl
    rcases h with ⟨-, hcontents⟩ | ⟨tag, w, -, -, rfl, hcontents⟩
    · exact inside hcontents
    · rw [Value.repetition?]
      exact inside hcontents

theorem repetition?_of_mem {known : List Value} {es : List (Value × Value)}
    (h : Value.repetitionInEntries? known es = none) {e : Value × Value} (he : e ∈ es) :
    e.2.repetition? = none := by
  induction es generalizing known with
  | nil => cases he
  | cons first rest ih =>
    rw [Value.repetitionInEntries?, Option.or_eq_none_iff] at h
    obtain ⟨-, h⟩ := h
    split at h
    · cases h
    · obtain ⟨hitem, hrest⟩ := Option.or_eq_none_iff.1 h
      rcases List.mem_cons.1 he with rfl | he
      · exact hitem
      · exact ih hrest he

/-- The entries of a mapping that a text holds repeat no key. -/
theorem repetition?_of_ofText {text : String} {es : List (Value × Value)}
    (h : Value.ofText text = .ok (.mapping es)) {e : Value × Value} (he : e ∈ es) :
    e.2.repetition? = none := by
  obtain ⟨after, hroot, -⟩ := whole_eq_ok.1 h
  have whole : (Value.mapping es).repetition? = none :=
    repetition?_eq_none_of_yields (rfl : anyReading.mayRepeat = false) hroot
  rw [Value.repetition?] at whole
  exact repetition?_of_mem whole he

end ModelShelf.Yaml.Read
