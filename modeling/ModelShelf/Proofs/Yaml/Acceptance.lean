import ModelShelf.Proofs.Yaml.Steady

/-!
The values that a reader accepts: wherever a document has one of them, the reader yields something,
and does not follow more aliases than there are to the value. A record accepts a mapping if its
members accept their values, one after the other.
-/

namespace ModelShelf.Yaml

namespace Value

/-- A mapping with texts as keys. -/
def record (members : List (String × Value)) : Value :=
  .mapping (members.map fun (name, v) => (.string name, v))

def IsText (v : Value) : Prop := ∃ s, v = .string s

/-- A mapping with texts as keys, with what is asked of each member. -/
def IsRecord (typed : String → Value → Prop) (v : Value) : Prop :=
  ∃ members, v = record members ∧ ∀ e ∈ members, typed e.1 e.2

theorem IsRecord.mono {typed typed' : String → Value → Prop} {v : Value} (h : v.IsRecord typed)
    (himp : ∀ name w, typed name w → typed' name w) : v.IsRecord typed' := by
  obtain ⟨members, rfl, hmembers⟩ := h
  exact ⟨members, rfl, fun e he => himp e.1 e.2 (hmembers e he)⟩

theorem IsRecord.solid {typed : String → Value → Prop} {v : Value} (h : v.IsRecord typed) :
    v.Solid := by
  obtain ⟨members, rfl, -⟩ := h
  trivial

theorem not_known_of_unrepeated {known : List Value} {members : List (String × Value)}
    (h : repetitionInEntries? known (members.map fun (name, v) => (.string name, v)) = none)
    {e : String × Value} (he : e ∈ members) : .string e.1 ∉ known := by
  induction members generalizing known with
  | nil => cases he
  | cons first rest ih =>
    rw [List.map_cons, repetitionInEntries?, Option.or_eq_none_iff] at h
    obtain ⟨-, h⟩ := h
    split at h
    · cases h
    · rename_i new
      intro hknown
      rcases List.mem_cons.1 he with rfl | he
      · exact new (List.any_eq_true.2 ⟨_, hknown, by simp [same]⟩)
      · exact ih (Option.or_eq_none_iff.1 h).2 he (List.mem_cons_of_mem _ hknown)

theorem nodup_of_unrepeated {known : List Value} {members : List (String × Value)}
    (h : repetitionInEntries? known (members.map fun (name, v) => (.string name, v)) = none) :
    (members.map Prod.fst).Nodup := by
  induction members generalizing known with
  | nil => exact .nil
  | cons first rest ih =>
    rw [List.map_cons, repetitionInEntries?, Option.or_eq_none_iff] at h
    obtain ⟨-, h⟩ := h
    split at h
    · cases h
    · have hrest := (Option.or_eq_none_iff.1 h).2
      refine List.nodup_cons.2 ⟨fun hmem => ?_, ih hrest⟩
      obtain ⟨e, he, hname⟩ := List.mem_map.1 hmem
      apply not_known_of_unrepeated hrest he
      rw [hname]
      exact List.mem_cons_self

end Value

namespace Node

mutual

/-- Whether a scalar that is not plain is tagged as nothing. Such a scalar has no value, but it is
not taken for one that is left out. -/
def quotesNull : Node → Bool
  | .scalar _ p style _ => style ≠ .plain && p.tag = some Read.nullTag
  | .sequence _ _ items => itemsQuoteNull items
  | .mapping _ _ entries => entriesQuoteNull entries
  | .reference .. | .absent _ | .broken _ => false

def itemsQuoteNull : List Node → Bool
  | [] => false
  | item :: rest => quotesNull item || itemsQuoteNull rest

def entriesQuoteNull : List (Node × Node) → Bool
  | [] => false
  | (key, value) :: rest => quotesNull key || quotesNull value || entriesQuoteNull rest

end

theorem quotesNull_of_mem_self {node : Node} (h : node.quotesNull = false) {e : Nat × Node}
    (he : e ∈ (node.anchor?.map fun n => (n, node)).toList) : e.2.quotesNull = false := by
  obtain ⟨n, -, rfl⟩ := Option.map_eq_some_iff.1 (Option.mem_toList.1 he)
  exact h

mutual

theorem quotesNull_of_mem_anchored (node : Node) (h : node.quotesNull = false) :
    ∀ e ∈ node.anchored, e.2.quotesNull = false := by
  intro e he
  cases node with
  | sequence place p items =>
    rw [anchored] at he
    rcases List.mem_append.1 he with hself | hitems
    · exact quotesNull_of_mem_self h hself
    · exact quotesNull_of_mem_items items h e hitems
  | mapping place p entries =>
    rw [anchored] at he
    rcases List.mem_append.1 he with hself | hentries
    · exact quotesNull_of_mem_self h hself
    · exact quotesNull_of_mem_entries entries h e hentries
  | _ => exact quotesNull_of_mem_self h he

theorem quotesNull_of_mem_items (items : List Node) (h : itemsQuoteNull items = false) :
    ∀ e ∈ anchoredItems items, e.2.quotesNull = false := by
  intro e he
  cases items with
  | nil => cases he
  | cons item rest =>
    obtain ⟨hitem, hrest⟩ := Bool.or_eq_false_iff.1 h
    rcases List.mem_append.1 he with he | he
    · exact quotesNull_of_mem_anchored item hitem e he
    · exact quotesNull_of_mem_items rest hrest e he

theorem quotesNull_of_mem_entries (entries : List (Node × Node))
    (h : entriesQuoteNull entries = false) :
    ∀ e ∈ anchoredEntries entries, e.2.quotesNull = false := by
  intro e he
  cases entries with
  | nil => cases he
  | cons entry rest =>
    obtain ⟨key, value⟩ := entry
    obtain ⟨hentry, hrest⟩ := Bool.or_eq_false_iff.1 h
    obtain ⟨hkey, hvalue⟩ := Bool.or_eq_false_iff.1 hentry
    rcases List.mem_append.1 he with he | he
    · rcases List.mem_append.1 he with he | he
      · exact quotesNull_of_mem_anchored key hkey e he
      · exact quotesNull_of_mem_anchored value hvalue e he
    · exact quotesNull_of_mem_entries rest hrest e he

end

theorem quotesNull_of_mem {entries : List (Node × Node)} (h : entriesQuoteNull entries = false)
    {e : Node × Node} (he : e ∈ entries) : e.1.quotesNull = false ∧ e.2.quotesNull = false := by
  induction entries with
  | nil => cases he
  | cons first rest ih =>
    obtain ⟨hfirst, hrest⟩ := Bool.or_eq_false_iff.1 h
    rcases List.mem_cons.1 he with rfl | he
    · exact Bool.or_eq_false_iff.1 hfirst
    · exact ih hrest he

end Node

namespace Read

variable {α β σ : Type} {around : Surroundings} {jumps after fewer bound : Nat}

/-! ### Nothing is quoted -/

/-- Neither a node nor a node with an anchor quotes a null. -/
structure Unquoted (around : Surroundings) (node : Node) : Prop where
  here : node.quotesNull = false
  anchors : ∀ e ∈ around.anchors, e.2.quotesNull = false

theorem Unquoted.root {d : Document} (h : d.root.quotesNull = false) :
    Unquoted (surroundings d) d.root :=
  ⟨h, fun e he => Node.quotesNull_of_mem_anchored d.root h e (List.mem_reverse.1 he)⟩

theorem Unquoted.follow {node target : Node} (h : Unquoted around node)
    (hfollow : Yields (follow node) around jumps target after) : Unquoted around target := by
  obtain ⟨place, number, rfl⟩ | ⟨-, rfl, -⟩ := eq_of_yields_follow hfollow
  · obtain ⟨-, hlookup, -⟩ := yields_follow_reference.1 hfollow
    obtain ⟨before, behind, hanchors, -⟩ := List.lookup_eq_some_iff.1 hlookup
    refine ⟨h.anchors (number, target) ?_, h.anchors⟩
    rw [hanchors]
    exact List.mem_append_right _ List.mem_cons_self
  · exact h

theorem Unquoted.entry {place : Mark} {p : Properties} {list : List (Node × Node)}
    (h : Unquoted around (.mapping place p list)) {e : Node × Node} (he : e ∈ list) :
    Unquoted around e.1 ∧ Unquoted around e.2 :=
  have ⟨hkey, hvalue⟩ := Node.quotesNull_of_mem h.here he
  ⟨⟨hkey, h.anchors⟩, ⟨hvalue, h.anchors⟩⟩

/-! ### Readers that reach an end -/

/-- The reader yields something of a kind, and the count of aliases is then in a bound. -/
def Reaches (read : Read α) (around : Surroundings) (jumps : Nat) (kind : α → Prop)
    (bound : Nat) : Prop :=
  ∃ a after, kind a ∧ after ≤ bound ∧ Yields read around jumps a after

theorem reaches_pure {kind : α → Prop} {a : α} (ha : kind a) (hjumps : jumps ≤ bound) :
    Reaches (pure a) around jumps kind bound :=
  ⟨a, jumps, ha, hjumps, yields_pure.2 ⟨rfl, rfl⟩⟩

theorem Reaches.bind {read : Read α} {next : α → Read β} {kind : α → Prop} {kind' : β → Prop}
    {between : Nat} (h : Reaches read around jumps kind between)
    (hnext : ∀ a jumps', kind a → jumps' ≤ between →
      Reaches (next a) around jumps' kind' bound) :
    Reaches (read >>= next) around jumps kind' bound := by
  obtain ⟨a, jumps', ha, hjumps, hread⟩ := h
  obtain ⟨b, after, hb, hafter, hlast⟩ := hnext a jumps' ha hjumps
  exact ⟨b, after, hb, hafter, yields_bind.2 ⟨a, jumps', hread, hlast⟩⟩

/-! ### Values that are accepted -/

/-- Wherever a document has the value `v`, the reader yields something of a kind, also after fewer
aliases, and follows no more of them. -/
structure Accepts (read : Depth → Route → Node → Read α) (v : Value) (kind : α → Prop) : Prop where
  reaches : ∀ {around : Surroundings} {depth : Depth} {route : Route} {node : Node}
    {jumps after fewer : Nat}, Unquoted around node →
      Yields (value depth route node) around jumps v after → fewer ≤ jumps →
        Reaches (read depth route node) around fewer kind after

theorem Agrees.accepts {read : Depth → Route → Node → Read α} {v : Value} {a : α}
    (h : Agrees read v a) : Accepts read v (a = ·) := by
  refine ⟨fun _ hvalue hfewer => ?_⟩
  obtain ⟨after', hafter, hvalue'⟩ := (steady_valueAs _ _ _ _).earlier hvalue hfewer
  exact ⟨a, after', rfl, hafter, h.yields hvalue'⟩

theorem Accepts.mono {read : Depth → Route → Node → Read α} {v : Value} {kind kind' : α → Prop}
    (h : Accepts read v kind) (himp : ∀ a, kind a → kind' a) : Accepts read v kind' := by
  refine ⟨fun unquoted hvalue hfewer => ?_⟩
  obtain ⟨a, after', ha, hread⟩ := h.reaches unquoted hvalue hfewer
  exact ⟨a, after', himp a ha, hread⟩

/-- What holds of all that the reader yields may be added. -/
theorem Accepts.and {read : Depth → Route → Node → Read α} {v : Value} {kind kind' : α → Prop}
    (h : Accepts read v kind)
    (hread : ∀ {around depth route node jumps a after},
      Yields (read depth route node) around jumps a after → kind' a) :
    Accepts read v fun a => kind a ∧ kind' a := by
  refine ⟨fun unquoted hvalue hfewer => ?_⟩
  obtain ⟨a, after', ha, hafter, hyields⟩ := h.reaches unquoted hvalue hfewer
  exact ⟨a, after', ⟨ha, hread hyields⟩, hafter, hyields⟩

theorem Accepts.map {read : Depth → Route → Node → Read α} {v : Value} {kind : α → Prop}
    {f : α → β} {kind' : β → Prop} (h : Accepts read v kind) (himp : ∀ a, kind a → kind' (f a)) :
    Accepts (fun depth route node => do return f (← read depth route node)) v kind' :=
  ⟨fun unquoted hvalue hfewer => (h.reaches unquoted hvalue hfewer).bind fun _ _ ha hjumps =>
    reaches_pure (himp _ ha) hjumps⟩

/-- A member that was not read before is accepted if its value is. -/
theorem Accepts.once {read : Depth → Route → Node → Read α} {v : Value} {kind : α → Prop}
    (h : Accepts read v kind) (name : String) :
    Accepts (fun depth route node => once name none (read depth route node)) v
      (fun found => ∃ a, kind a ∧ found = some a) := by
  refine ⟨fun unquoted hvalue hfewer => ?_⟩
  obtain ⟨a, after', ha, hafter, hread⟩ := h.reaches unquoted hvalue hfewer
  exact ⟨some a, after', ⟨a, ha, rfl⟩, hafter, yields_map.2 ⟨a, hread, rfl⟩⟩

theorem accepts_ignore (v : Value) : Accepts (fun _ _ => ignore) v fun _ => True := by
  refine ⟨fun {around depth route node jumps after fewer} _ hvalue hfewer => ?_⟩
  have hafter := (steady_valueAs _ _ _ _).le hvalue
  rw [ignore, fault?_of_yields hvalue]
  exact reaches_pure trivial (Nat.le_trans hfewer hafter)

/-! ### Values that may be absent -/

theorem Accepts.optional {read : Depth → Route → Node → Read α} {v : Value} {kind : α → Prop}
    (h : Accepts read v kind) (solid : v.Solid) :
    Accepts (fun depth => Read.optional (read depth)) v
      (fun found => ∃ a, kind a ∧ found = some a) := by
  refine ⟨fun unquoted hvalue hfewer => ?_⟩
  obtain ⟨_, hafter, hvalue'⟩ := (steady_valueAs _ _ _ _).earlier hvalue hfewer
  obtain ⟨target, between, hfollow, something, hvalue'⟩ := Solid.target solid hvalue'
  obtain ⟨a, behind, ha, hbehind, hread⟩ :=
    h.reaches (unquoted.follow hfollow) hvalue' (Nat.le_refl _)
  refine ⟨some a, behind, ⟨a, ha, rfl⟩, Nat.le_trans hbehind hafter, yields_bind.2
    ⟨target, between, hfollow, yields_bind.2 ⟨false, between, something, ?_⟩⟩⟩
  exact yields_map.2 ⟨a, hread, rfl⟩

/-- A plain scalar that stands for nothing is empty or a null. -/
theorem ofPlain_eq_null {text : String} (h : Scalar.ofPlain text = .null) :
    (text.isEmpty || Plain.isNull text) = true := by
  rw [Scalar.ofPlain] at h
  split at h
  · assumption
  · split at h
    · cases h
    · split at h
      · rename_i hinteger
        obtain ⟨n, hn⟩ | ⟨n, hn⟩ := Scalar.integer?_eq_some hinteger <;> cases h.symm.trans hn
      · split at h
        · cases h
        · split at h <;> cases h

/-- What stands for nothing is empty or a plain null, or is tagged so. -/
theorem scalarOf_eq_null {tag : Option String} {style : ScalarStyle} {text : String}
    (h : scalarOf tag style text = .ok .null) (notLocal : localTag? tag = none) :
    (tag = none ∧ style = .plain ∧ (text.isEmpty || Plain.isNull text) = true) ∨
      tag = some nullTag ∧ Plain.isNull text = true := by
  have untagged_null (h : untagged style text = .null) :
      style = .plain ∧ (text.isEmpty || Plain.isNull text) = true := by
    rw [untagged] at h
    split at h
    · exact ⟨‹_›, ofPlain_eq_null h⟩
    · cases h
  unfold scalarOf at h
  split at h
  · exact .inl ⟨rfl, untagged_null (Except.ok.inj h)⟩
  · rename_i tag
    split at h
    · obtain ⟨b, -, hb⟩ := Option.map_eq_some_iff.1 (wanted_eq_ok h)
      cases hb
    · split at h
      · obtain ⟨n, hn⟩ | ⟨n, hn⟩ := Scalar.integer?_eq_some (wanted_eq_ok h) <;> cases hn
      · split at h
        · obtain ⟨x, -, hx⟩ := Option.map_eq_some_iff.1 (wanted_eq_ok h)
          cases hx
        · split at h
          · rename_i hnull
            refine .inr ⟨congrArg some hnull, ?_⟩
            have hfound := wanted_eq_ok h
            split at hfound
            · assumption
            · cases hfound
          · split at h
            · rename_i hlocal
              rw [localTag?, Option.bind_some, if_pos hlocal] at notLocal
              cases notLocal
            · cases h

theorem yields_isNothing_of_null {place : Mark} {p : Properties} {style : ScalarStyle}
    {text : String} (h : scalarOf p.tag style text = .ok .null) (notLocal : localTag? p.tag = none)
    (unquoted : (Node.scalar place p style text).quotesNull = false) :
    Yields (isNothing (.scalar place p style text)) around jumps true jumps := by
  rw [isNothing]
  obtain ⟨htag, hplain, hnull⟩ | ⟨htag, hnull⟩ := scalarOf_eq_null h notLocal
  · rw [if_neg (not_not_intro hplain), htag]
    exact yields_pure.2 ⟨hnull.symm, rfl⟩
  · have hplain : style = .plain := by simpa [Node.quotesNull, htag] using unquoted
    simp only [if_neg (not_not_intro hplain), htag, if_pos, hnull]
    exact yields_pure.2 ⟨rfl, rfl⟩

theorem yields_scalarValue_null {expected : String} {s : Scalar}
    (h : Yields (scalarValue expected s) around jumps .null after) : s = .null ∧ after = jumps := by
  cases s with
  | null => exact ⟨rfl, (yields_pure.1 h).2⟩
  | wideInteger => exact absurd h (not_yields_mismatch _)
  | _ => cases (yields_pure.1 h).1

/-- A value that is left out is accepted by whatever asks for one that may be absent. -/
theorem accepts_optional_null (read : Depth → Route → Node → Read α) :
    Accepts (fun depth => Read.optional (read depth)) .null (none = ·) := by
  refine ⟨fun {around depth route node jumps after fewer} unquoted hvalue hfewer => ?_⟩
  obtain ⟨after', hafter, hvalue⟩ := (steady_valueAs _ _ _ _).earlier hvalue hfewer
  rw [valueAs_eq_valueWith] at hvalue
  obtain ⟨target, between, hfollow, ⟨notLocal, hcontents⟩ | ⟨_, _, -, -, ⟨⟩, -⟩⟩ :=
    yields_valueWith.1 hvalue
  have nothing : Yields (isNothing target) around between true between ∧ after' = between := by
    cases hcontents with
    | absent => exact ⟨yields_pure.2 ⟨rfl, rfl⟩, rfl⟩
    | scalar means fits =>
      obtain ⟨rfl, rfl⟩ := yields_scalarValue_null fits
      exact ⟨yields_isNothing_of_null means notLocal (unquoted.follow hfollow).here, rfl⟩
  obtain ⟨hnothing, rfl⟩ := nothing
  exact ⟨none, after', rfl, hafter, yields_bind.2
    ⟨target, after', hfollow, yields_bind.2 ⟨true, after', hnothing, yields_pure.2 ⟨rfl, rfl⟩⟩⟩⟩

/-- A value that may be absent is accepted if it is left out, or is there and accepted. -/
theorem accepts_optional {read : Depth → Route → Node → Read α} {v : Value} {kind : α → Prop}
    (h : v = .null ∨ v.Solid ∧ Accepts read v kind) :
    Accepts (fun depth => Read.optional (read depth)) v (fun found => ∀ a ∈ found, kind a) := by
  obtain rfl | ⟨solid, h⟩ := h
  · refine (accepts_optional_null read).mono fun found hfound a ha => ?_
    rw [← hfound] at ha
    cases ha
  · refine (h.optional solid).mono fun found hfound a ha => ?_
    obtain ⟨b, hb, rfl⟩ := hfound
    obtain rfl := Option.some.inj ha
    exact hb

/-! ### Mappings -/

/-- A reader of the entries accepts a mapping if it reaches an end over such entries. -/
theorem accepts_entries {expected : String} {read : Route → Depth → List (Node × Node) → Read α}
    {es : List (Value × Value)} {kind : α → Prop}
    (h : ∀ {around depth route list jumps after fewer},
      (∀ e ∈ list, Unquoted around e.1 ∧ Unquoted around e.2) →
        Entries anyReading (value depth) around route [] list jumps es after → fewer ≤ jumps →
          Reaches (read route depth list) around fewer kind after) :
    Accepts (fun depth route node => entries expected depth route node (read route)) (.mapping es)
      kind := by
  refine ⟨fun unquoted hvalue hfewer => ?_⟩
  obtain ⟨_, hafter, hvalue⟩ := (steady_valueAs _ _ _ _).earlier hvalue hfewer
  obtain ⟨place, p, list, between, deeper, hfollow, rfl, hentries⟩ := mapping_of_value hvalue
  obtain ⟨a, behind, ha, hbehind, hread⟩ :=
    h (fun e he => (unquoted.follow hfollow).entry he) hentries (Nat.le_refl _)
  exact ⟨a, behind, ha, Nat.le_trans hbehind hafter, yields_atNode.2 ⟨_, _, hfollow, hread⟩⟩

/-- The members of a record are read to the end if each is accepted where it stands. `pending` is
what holds of the fields while some members are still to be read. -/
theorem reaches_recordMembers {member : Depth → σ → String → Route → Node → Read σ}
    {pending : List (String × Value) → σ → Prop}
    (hmember : ∀ {name v rest fields}, pending ((name, v) :: rest) fields →
      Accepts (fun depth => member depth fields name) v (pending rest))
    {depth : Depth} {route : Route} {list : List (Node × Node)} {known : List (Value × Value)}
    {members : List (String × Value)} {fields : σ}
    (unquoted : ∀ e ∈ list, Unquoted around e.1 ∧ Unquoted around e.2)
    (hentries : Entries anyReading (value depth) around route known list jumps
      (members.map fun (name, v) => (.string name, v)) after)
    (hfields : pending members fields) (hfewer : fewer ≤ jumps) :
    Reaches (recordMembers route member depth list fields) around fewer (pending []) after := by
  induction members generalizing known list jumps fewer fields with
  | nil =>
    cases hentries
    exact reaches_pure hfields hfewer
  | cons first rest ih =>
    cases hentries with
    | cons atKey _ atItem others =>
      obtain ⟨hfirst, hrest⟩ := List.forall_mem_cons.1 unquoted
      rw [recordMembers, List.foldlM_cons]
      have hname := (agrees_textAs "field identifier" first.1).accepts.reaches hfirst.1 atKey hfewer
      -- The member may have followed fewer aliases than its value, so the rest begins earlier.
      refine Reaches.bind (Reaches.bind hname fun name jumps' same hjumps' => ?_)
        fun fields' jumps' hfields' hjumps' => ih hrest others hfields' hjumps'
      subst same
      exact (hmember hfields).reaches hfirst.2 atItem hjumps'

/-- A record accepts a mapping with different texts as keys. -/
theorem accepts_recordThen {expected : String} {init : σ}
    {member : Depth → σ → String → Route → Node → Read σ} {finish : σ → Read α}
    {pending : List (String × Value) → σ → Prop} {members : List (String × Value)} {kind : α → Prop}
    (hmember : ∀ {name v rest fields}, pending ((name, v) :: rest) fields →
      Accepts (fun depth => member depth fields name) v (pending rest))
    (hinit : pending members init)
    (hfinish : ∀ {around jumps fields}, pending [] fields →
      Reaches (finish fields) around jumps kind jumps) :
    Accepts (fun depth route node => recordThen expected depth route node init member finish)
      (.record members) kind := by
  refine accepts_entries fun {around _ _ _ _ _ _} unquoted hentries hfewer => ?_
  refine (reaches_recordMembers hmember unquoted hentries hinit hfewer).bind ?_
  intro fields jumps' hfields hjumps'
  obtain ⟨a, behind, ha, hbehind, hread⟩ : Reaches (finish fields) around jumps' kind jumps' :=
    hfinish hfields
  exact ⟨a, behind, ha, Nat.le_trans hbehind hjumps', hread⟩

/-- No document has a value that repeats a key. -/
theorem accepts_of_unrepeated {read : Depth → Route → Node → Read α} {v : Value} {kind : α → Prop}
    (h : v.repetition? = none → Accepts read v kind) : Accepts read v kind :=
  ⟨fun unquoted hvalue => (h (repetition?_eq_none_of_yields rfl hvalue)).reaches unquoted hvalue⟩

/-- A reader that accepts the value of a text reads the text. -/
theorem Accepts.read {read : Depth → Route → Node → Read α} {v : Value} {kind : α → Prop}
    (h : Accepts read v kind) {text : String} (hvalue : Value.ofText text = .ok v)
    (unquoted : (Document.ofText text).root.quotesNull = false) :
    ∃ a, kind a ∧ Yaml.read (read greatestDepth .top) text = .ok a := by
  obtain ⟨after, hroot, complete⟩ := whole_eq_ok.1 hvalue
  obtain ⟨a, behind, ha, -, hread⟩ := h.reaches (.root unquoted) hroot (Nat.le_refl _)
  exact ⟨a, ha, whole_eq_ok.2 ⟨behind, hread, complete⟩⟩

end Read

end ModelShelf.Yaml
