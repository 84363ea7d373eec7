import ModelShelf.Proofs.Yaml.Yields

/-!
Readers of given kinds agree with the reader of any value. Where a document has a text, a mapping
of known members or an untagged value, the reader that asks for it yields it, and follows as many
aliases. A mapping of members is read by a record whose members agree one after the other.
-/

namespace ModelShelf.Yaml

namespace Value

mutual

/-- Whether a value has a tag at any depth. -/
def hasTag : Value → Bool
  | .tagged .. => true
  | .sequence items => itemsHaveTag items
  | .mapping entries => entriesHaveTag entries
  | .null | .bool _ | .integer _ | .float _ | .string _ => false

def itemsHaveTag : List Value → Bool
  | [] => false
  | item :: rest => hasTag item || itemsHaveTag rest

def entriesHaveTag : List (Value × Value) → Bool
  | [] => false
  | (key, value) :: rest => hasTag key || hasTag value || entriesHaveTag rest

end

/-- Texts and mappings, which never stand for nothing. -/
def Solid : Value → Prop
  | .string _ | .mapping _ => True
  | _ => False

end Value

/-! ### Plain texts -/

/-- What is read as an integer stands for a number. -/
theorem Scalar.integer?_eq_some {text : String} {x : Scalar} (h : integer? text = some x) :
    (∃ n, x = .integer n) ∨ ∃ n, x = .wideInteger n := by
  obtain ⟨n, -, h⟩ := Option.bind_eq_some_iff.1 h
  rw [ofInteger?] at h
  split at h
  · exact .inl ⟨n, (Option.some.inj h).symm⟩
  · split at h
    · exact .inr ⟨n, (Option.some.inj h).symm⟩
    · cases h

/-- A plain scalar that stands for a text stands for its own, and not for nothing. -/
theorem Scalar.ofPlain_eq_string {text s : String} (h : ofPlain text = .string s) :
    s = text ∧ (text.isEmpty || Plain.isNull text) = false := by
  rw [ofPlain] at h
  split at h
  · cases h
  · rename_i something
    refine ⟨?_, Bool.eq_false_iff.2 something⟩
    split at h
    · cases h
    · split at h
      · rename_i hinteger
        obtain ⟨n, hn⟩ | ⟨n, hn⟩ := integer?_eq_some hinteger <;> cases h.symm.trans hn
      · split at h
        · cases h
          rfl
        · split at h <;> cases h
          rfl

namespace Read

variable {α σ : Type} {around : Surroundings} {jumps after : Nat}

theorem wanted_eq_ok {found : Option Scalar} {text expected : String} {x : Scalar}
    (h : wanted found text expected = .ok x) : found = some x := by
  cases found with
  | none => cases h
  | some y => rw [Except.ok.inj h]

theorem untagged_eq_string {style : ScalarStyle} {text s : String}
    (h : untagged style text = .string s) :
    s = text ∧ (style = .plain → (text.isEmpty || Plain.isNull text) = false) := by
  rw [untagged] at h
  split at h
  · obtain ⟨rfl, something⟩ := Scalar.ofPlain_eq_string h
    exact ⟨rfl, fun _ => something⟩
  · obtain rfl := Scalar.string.inj h
    exact ⟨rfl, fun hplain => absurd hplain ‹_›⟩

/-- A scalar that stands for a text stands for its own, and not for nothing. -/
theorem scalarOf_eq_string {tag : Option String} {style : ScalarStyle} {text s : String}
    (h : scalarOf tag style text = .ok (.string s)) :
    s = text ∧ tag ≠ some nullTag ∧
      (tag = none → style = .plain → (text.isEmpty || Plain.isNull text) = false) := by
  unfold scalarOf at h
  split at h
  · obtain ⟨rfl, something⟩ := untagged_eq_string (Except.ok.inj h)
    exact ⟨rfl, nofun, fun _ => something⟩
  · rename_i tag
    split at h
    · obtain ⟨b, -, hb⟩ := Option.map_eq_some_iff.1 (wanted_eq_ok h)
      cases hb
    · split at h
      · obtain ⟨n, hn⟩ | ⟨n, hn⟩ := Scalar.integer?_eq_some (wanted_eq_ok h) <;> cases hn
      · split at h
        · obtain ⟨x, -, hx⟩ := Option.map_eq_some_iff.1 (wanted_eq_ok h)
          cases hx
        · split at h
          · have hfound := wanted_eq_ok h
            split at hfound <;> cases hfound
          · rename_i notNull
            refine ⟨?_, fun hnull => notNull (Option.some.inj hnull), nofun⟩
            split at h
            · exact (untagged_eq_string (Except.ok.inj h)).1
            · exact (Scalar.string.inj (Except.ok.inj h)).symm

theorem yields_isNothing_of_string {place : Mark} {p : Properties} {style : ScalarStyle}
    {text s : String} (h : scalarOf p.tag style text = .ok (.string s)) :
    Yields (isNothing (.scalar place p style text)) around jumps false jumps := by
  obtain ⟨-, notNull, something⟩ := scalarOf_eq_string h
  simp only [isNothing]
  split
  · exact yields_pure.2 ⟨rfl, rfl⟩
  · rename_i hplain
    split
    · rename_i hnone
      rw [something hnone (Decidable.not_not.1 hplain)]
      exact yields_pure.2 ⟨rfl, rfl⟩
    · rename_i tag htag
      rw [if_neg fun heq => notNull (htag.trans (congrArg some heq))]
      exact yields_pure.2 ⟨rfl, rfl⟩

/-! ### What the reader of any value finds -/

/-- How any value is read. -/
def anyReading : Reading := ⟨"any YAML value", true, false⟩

/-- The reader of the values one level deeper. -/
def below (how : Reading) : Depth → Option (Route → Node → Read Value)
  | 0 => none
  | depth + 1 => some (valueAs how depth)

theorem valueAs_eq_valueWith (how : Reading) (depth : Depth) :
    valueAs how depth = valueWith how (below how depth) := by
  cases depth <;> rfl

theorem yields_scalarValue_string {expected s : String} {x : Scalar}
    (h : Yields (scalarValue expected x) around jumps (.string s) after) :
    x = .string s ∧ after = jumps := by
  cases x with
  | string t =>
    obtain ⟨⟨⟩, rfl⟩ := yields_pure.1 h
    exact ⟨rfl, rfl⟩
  | wideInteger => exact absurd h (not_yields_mismatch _)
  | _ => exact nomatch (yields_pure.1 h).1

theorem not_yields_scalarValue_mapping {expected : String} {x : Scalar}
    {es : List (Value × Value)} :
    ¬ Yields (scalarValue expected x) around jumps (.mapping es) after := by
  intro h
  cases x with
  | wideInteger => exact not_yields_mismatch _ h
  | _ => exact nomatch (yields_pure.1 h).1

/-- A text stands for a scalar that has it as its own text. -/
theorem scalar_of_value {depth : Depth} {route : Route} {node : Node} {s : String}
    (h : Yields (value depth route node) around jumps (.string s) after) :
    ∃ place p style, Yields (follow node) around jumps (.scalar place p style s) after ∧
      scalarOf p.tag style s = .ok (.string s) := by
  rw [value, valueAs_eq_valueWith] at h
  obtain ⟨target, between, hfollow, ⟨-, hcontents⟩ | ⟨_, _, -, -, ⟨⟩, -⟩⟩ := yields_valueWith.1 h
  cases hcontents with
  | @scalar place p style text x _ _ _ means fits =>
    obtain ⟨rfl, rfl⟩ := yields_scalarValue_string fits
    obtain ⟨rfl, -⟩ := scalarOf_eq_string means
    exact ⟨place, p, style, hfollow, means⟩

/-- A mapping stands for one whose entries are read one level deeper. -/
theorem mapping_of_value {depth : Depth} {route : Route} {node : Node}
    {es : List (Value × Value)}
    (h : Yields (value depth route node) around jumps (.mapping es) after) :
    ∃ place p list between deeper,
      Yields (follow node) around jumps (.mapping place p list) between ∧ depth = deeper + 1 ∧
      Entries anyReading (value deeper) around route [] list between es after := by
  rw [value, valueAs_eq_valueWith] at h
  obtain ⟨target, between, hfollow, ⟨-, hcontents⟩ | ⟨_, _, -, -, ⟨⟩, -⟩⟩ := yields_valueWith.1 h
  cases hcontents with
  | scalar _ fits => exact absurd fits not_yields_scalarValue_mapping
  | @mapping place p list _ _ _ _ deeper reads =>
    cases depth with
    | zero => cases deeper
    | succ depth =>
      obtain rfl := Option.some.inj deeper
      exact ⟨place, p, list, between, depth, hfollow, rfl, reads⟩

/-! ### Agreement -/

/-- Wherever a document has the value `v`, the reader yields `a`, and follows as many aliases. -/
structure Agrees (read : Depth → Route → Node → Read α) (v : Value) (a : α) : Prop where
  yields : ∀ {around : Surroundings} {depth : Depth} {route : Route} {node : Node}
    {jumps after : Nat}, Yields (value depth route node) around jumps v after →
      Yields (read depth route node) around jumps a after

theorem agrees_value (v : Value) : Agrees value v v := ⟨id⟩

theorem agrees_textAs (expected s : String) : Agrees (fun _ => textAs expected) (.string s) s := by
  refine ⟨fun h => ?_⟩
  obtain ⟨place, p, style, hfollow, -⟩ := scalar_of_value h
  exact yields_atNode.2 ⟨_, _, hfollow, yields_pure.2 ⟨rfl, rfl⟩⟩

theorem agrees_text (s : String) : Agrees (fun _ => text) (.string s) s := agrees_textAs _ s

/-- A solid value is found at the node that is meant, which does not stand for nothing. -/
theorem Solid.target {v : Value} (solid : v.Solid) {depth : Depth} {route : Route} {node : Node}
    (h : Yields (value depth route node) around jumps v after) :
    ∃ target between, Yields (follow node) around jumps target between ∧
      Yields (isNothing target) around between false between ∧
      Yields (value depth route target) around between v after := by
  have there {target : Node} {between : Nat}
      (hfollow : Yields (follow node) around jumps target between)
      (direct : Direct target) : Yields (value depth route target) around between v after := by
    rw [value, valueAs_eq_valueWith] at h ⊢
    obtain ⟨target', between', hfollow', h⟩ := yields_valueWith.1 h
    obtain ⟨rfl, rfl⟩ := EStateM.Result.ok.inj (hfollow.symm.trans hfollow')
    exact yields_valueWith.2 ⟨target, between, yields_follow_direct direct, h⟩
  cases v with
  | string s =>
    obtain ⟨place, p, style, hfollow, means⟩ := scalar_of_value h
    exact ⟨_, _, hfollow, yields_isNothing_of_string means, there hfollow trivial⟩
  | mapping es =>
    obtain ⟨place, p, list, between, deeper, hfollow, -, -⟩ := mapping_of_value h
    exact ⟨_, _, hfollow, yields_pure.2 ⟨rfl, rfl⟩, there hfollow trivial⟩
  | _ => exact solid.elim

theorem Agrees.optional {read : Depth → Route → Node → Read α} {v : Value} {a : α}
    (h : Agrees read v a) (solid : v.Solid) :
    Agrees (fun depth => optional (read depth)) v (some a) := by
  refine ⟨fun hvalue => ?_⟩
  obtain ⟨target, between, hfollow, something, hvalue⟩ := Solid.target solid hvalue
  refine yields_bind.2 ⟨target, between, hfollow, yields_bind.2 ⟨false, between, something, ?_⟩⟩
  exact yields_map.2 ⟨a, h.yields hvalue, rfl⟩

/-- A reader of the entries agrees with a mapping if it yields its value from such entries. -/
theorem agrees_entries {expected : String}
    {read : Route → Depth → List (Node × Node) → Read α} {es : List (Value × Value)} {a : α}
    (h : ∀ {around depth route list jumps after},
      Entries anyReading (value depth) around route [] list jumps es after →
        Yields (read route depth list) around jumps a after) :
    Agrees (fun depth route node => entries expected depth route node (read route)) (.mapping es)
      a := by
  refine ⟨fun hvalue => ?_⟩
  obtain ⟨place, p, list, between, deeper, hfollow, rfl, hentries⟩ := mapping_of_value hvalue
  exact yields_atNode.2 ⟨_, _, hfollow, h hentries⟩

/-! ### Records -/

/-- Members of a record agree one after the other, and take what is read so far to the end. -/
inductive MembersAgree (member : Depth → σ → String → Route → Node → Read σ) :
    σ → List (Value × Value) → σ → Prop
  | nil {fields : σ} : MembersAgree member fields [] fields
  | cons {name : String} {v : Value} {es : List (Value × Value)} {fields between last : σ}
      (first : Agrees (fun depth => member depth fields name) v between)
      (others : MembersAgree member between es last) :
      MembersAgree member fields ((.string name, v) :: es) last

namespace MembersAgree

variable {member : Depth → σ → String → Route → Node → Read σ} {fields between last : σ}

theorem append {es others : List (Value × Value)} (h : MembersAgree member fields es between)
    (hothers : MembersAgree member between others last) :
    MembersAgree member fields (es ++ others) last := by
  induction h with
  | nil => exact hothers
  | cons first _ ih => exact .cons first (ih hothers)

theorem yields {depth : Depth} {route : Route} {list : List (Node × Node)}
    {known es : List (Value × Value)} (h : MembersAgree member fields es last)
    (hentries : Entries anyReading (value depth) around route known list jumps es after) :
    Yields (recordMembers route member depth list fields) around jumps last after := by
  induction h generalizing list known jumps with
  | nil =>
    cases hentries
    exact yields_pure.2 ⟨rfl, rfl⟩
  | cons first others ih =>
    cases hentries with
    | cons atKey _ atItem rest =>
      rw [recordMembers, List.foldlM_cons]
      refine yields_bind.2 ⟨_, _, yields_bind.2 ⟨_, _, ?_, first.yields atItem⟩, ih rest⟩
      exact (agrees_textAs _ _).yields atKey

/-- Behind members that agree, the rest of the members is read. -/
theorem rest {depth : Depth} {route : Route} {list : List (Node × Node)} {behind : Nat}
    {known es others : List (Value × Value)} (h : MembersAgree member fields es between)
    (hentries :
      Entries anyReading (value depth) around route known list jumps (es ++ others) after)
    (hall : Yields (recordMembers route member depth list fields) around jumps last behind) :
    ∃ known' list' jumps',
      Entries anyReading (value depth) around route known' list' jumps' others after ∧
      Yields (recordMembers route member depth list' between) around jumps' last behind := by
  induction h generalizing list known jumps with
  | nil => exact ⟨known, list, jumps, hentries, hall⟩
  | cons first others ih =>
    cases hentries with
    | cons atKey _ atItem rest =>
      rw [recordMembers, List.foldlM_cons] at hall
      obtain ⟨next, _, hentry, hall⟩ := yields_bind.1 hall
      obtain ⟨name, _, hname, hentry⟩ := yields_bind.1 hentry
      obtain ⟨rfl, rfl⟩ := yields_unique hname ((agrees_textAs _ _).yields atKey)
      obtain ⟨rfl, rfl⟩ := yields_unique hentry (first.yields atItem)
      exact ih rest hall

end MembersAgree

/-- A record agrees with a mapping if its members do and what they say makes the record. -/
theorem agrees_recordThen {expected : String} {init fields : σ}
    {member : Depth → σ → String → Route → Node → Read σ} {finish : σ → Read α}
    {es : List (Value × Value)} {a : α} (h : MembersAgree member init es fields)
    (hfinish : ∀ {around jumps}, Yields (finish fields) around jumps a jumps) :
    Agrees (fun depth route node => recordThen expected depth route node init member finish)
      (.mapping es) a :=
  agrees_entries fun hentries => yields_bind.2 ⟨fields, _, h.yields hentries, hfinish⟩

/-- A reader that agrees with the value of a text reads the text. -/
theorem Agrees.read {read : Depth → Route → Node → Read α} {v : Value} {a : α}
    (h : Agrees read v a) {text : String} (hvalue : Value.ofText text = .ok v) :
    Yaml.read (read greatestDepth .top) text = .ok a := by
  obtain ⟨after, hroot, complete⟩ := whole_eq_ok.1 hvalue
  exact whole_eq_ok.2 ⟨after, h.yields hroot, complete⟩

theorem Agrees.once {read : Depth → Route → Node → Read α} {v : Value} {a : α} {name : String}
    (h : Agrees read v a) :
    Agrees (fun depth route node => once name none (read depth route node)) v (some a) :=
  ⟨fun hvalue => yields_map.2 ⟨a, h.yields hvalue, rfl⟩⟩

end Read

end ModelShelf.Yaml
