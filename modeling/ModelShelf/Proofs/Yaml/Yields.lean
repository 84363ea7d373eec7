import ModelShelf.Yaml.Reader

/-!
How readers of YAML run on nodes that they accept. `Yields read around jumps a after` says that a
reader yields a value inside a document, and how many aliases are followed before and after. A
reader yields what its steps yield; for values of any kind, `Contents` lists the ways to yield one.
-/

namespace ModelShelf.Yaml.Read

variable {α β : Type} {around : Surroundings} {jumps after : Nat}

/-- Inside a document, after so many aliases, the reader yields `a`. -/
def Yields (read : Read α) (around : Surroundings) (jumps : Nat) (a : α) (after : Nat) : Prop :=
  read.run around jumps = .ok a after

theorem yields_unique {read : Read α} {a b : α} {behind : Nat}
    (h : Yields read around jumps a after)
    (h' : Yields read around jumps b behind) : a = b ∧ after = behind :=
  EStateM.Result.ok.inj (h.symm.trans h')

/-! ### Steps -/

theorem yields_pure {a b : α} :
    Yields (pure a) around jumps b after ↔ b = a ∧ after = jumps := by
  show EStateM.Result.ok a jumps = .ok b after ↔ _
  rw [EStateM.Result.ok.injEq]
  exact and_congr eq_comm eq_comm

theorem yields_bind {read : Read α} {next : α → Read β} {b : β} :
    Yields (read >>= next) around jumps b after ↔
      ∃ a between, Yields read around jumps a between ∧ Yields (next a) around between b after := by
  show EStateM.bind (read around) (fun a => next a around) jumps = _ ↔ _
  rw [EStateM.bind]
  constructor
  · intro h
    split at h
    · exact ⟨_, _, ‹_›, h⟩
    · cases h
  · rintro ⟨a, between, h, hnext⟩
    have h : read around jumps = .ok a between := h
    rw [h]
    exact hnext

theorem yields_map {read : Read α} {f : α → β} {b : β} :
    Yields (f <$> read) around jumps b after ↔
      ∃ a, Yields read around jumps a after ∧ b = f a := by
  rw [← bind_pure_comp, yields_bind]
  constructor
  · rintro ⟨a, between, h, hpure⟩
    obtain ⟨rfl, rfl⟩ := yields_pure.1 hpure
    exact ⟨a, h, rfl⟩
  · rintro ⟨a, h, rfl⟩
    exact ⟨a, after, h, yields_pure.2 ⟨rfl, rfl⟩⟩

theorem not_yields_throw {a : α} (fault : Fault) :
    ¬ Yields (throw fault : Read α) around jumps a after := nofun

theorem not_yields_mismatch {a : α} (m : Text.Mismatch) :
    ¬ Yields (mismatch m : Read α) around jumps a after :=
  not_yields_throw _

theorem yields_locate {place : Mark} {route : Route} {read : Read α} {a : α} :
    Yields (locate place route read) around jumps a after ↔ Yields read around jumps a after := by
  show EStateM.tryCatch (read around) _ jumps = _ ↔ read around jumps = _
  delta EStateM.tryCatch
  cases read around jumps with
  | ok a after => exact Iff.rfl
  | error fault after =>
    constructor
    · intro h
      cases h
    · intro h
      cases h

/-! ### Nodes -/

/-- A node that is meant itself: it is neither an alias nor broken. -/
def Direct : Node → Prop
  | .scalar .. | .sequence .. | .mapping .. | .absent _ => True
  | .reference .. | .broken _ => False

theorem yields_follow_direct {node : Node} (h : Direct node) :
    Yields (follow node) around jumps node jumps := by
  cases node <;> first | rfl | exact h.elim

/-- An alias stands for the node with its anchor, if so many may still be followed. -/
theorem yields_follow_reference {place : Mark} {number : Nat} {target : Node} :
    Yields (follow (.reference place number)) around jumps target after ↔
      jumps + 1 ≤ around.greatestJumps ∧ around.anchors.lookup number = some target ∧
        after = jumps + 1 := by
  show (if around.greatestJumps < jumps + 1 then _ else _ : Read Node) around jumps = _ ↔ _
  split
  · rename_i spent
    constructor
    · intro h
      cases h
    · rintro ⟨left, -⟩
      omega
  · rename_i left
    cases around.anchors.lookup number with
    | none =>
      constructor
      · intro h
        cases h
      · rintro ⟨-, h, -⟩
        cases h
    | some other =>
      constructor
      · intro h
        cases h
        exact ⟨Nat.not_lt.1 left, rfl, rfl⟩
      · rintro ⟨-, h, rfl⟩
        cases h
        rfl

/-- The node that is meant is the node itself, unless it is an alias. -/
theorem eq_of_yields_follow {node target : Node}
    (h : Yields (follow node) around jumps target after) :
    (∃ place number, node = .reference place number) ∨
      Direct node ∧ target = node ∧ after = jumps := by
  cases node with
  | reference place number => exact .inl ⟨place, number, rfl⟩
  | broken fault => exact absurd h (not_yields_throw _)
  | _ =>
    obtain ⟨rfl, rfl⟩ := yields_unique h (yields_follow_direct trivial)
    exact .inr ⟨trivial, rfl, rfl⟩

theorem yields_atNode {route : Route} {node : Node} {read : Node → Read α} {a : α} :
    Yields (atNode route node read) around jumps a after ↔
      ∃ target between, Yields (follow node) around jumps target between ∧
        Yields (read target) around between a after := by
  rw [atNode, yields_locate, yields_bind]
  simp only [yields_locate]

theorem yields_scalar {tag : Option String} {style : ScalarStyle} {text : String} {s : Scalar} :
    Yields (scalar tag style text) around jumps s after ↔
      scalarOf tag style text = .ok s ∧ after = jumps := by
  rw [scalar]
  split
  · rename_i h
    rw [yields_pure, h, Except.ok.injEq, eq_comm]
  · rename_i h
    rw [h]
    exact ⟨fun h => absurd h (not_yields_mismatch _), nofun⟩

theorem not_yields_refuse {expected : String} {node : Node} {a : α} :
    ¬ Yields (refuse expected node) around jumps a after := by
  intro h
  cases node with
  | scalar =>
    obtain ⟨s, between, -, h⟩ := yields_bind.1 h
    exact not_yields_mismatch _ h
  | sequence => exact not_yields_mismatch _ h
  | mapping => exact not_yields_mismatch _ h
  | reference => exact not_yields_throw _ h
  | absent => exact not_yields_throw _ h
  | broken => exact not_yields_throw _ h

/-! ### Records -/

/-- What holds of the fields at first, and stays true over every member, holds at the end. -/
theorem of_yields_recordMembers {σ : Type} {P : σ → Prop} {route : Route} {depth : Depth}
    {member : Depth → σ → String → Route → Node → Read σ} {list : List (Node × Node)}
    {init fields : σ} (hinit : P init)
    (hmember : ∀ {depth fields name route node around jumps fields' after}, P fields →
      Yields (member depth fields name route node) around jumps fields' after → P fields')
    (h : Yields (recordMembers route member depth list init) around jumps fields after) :
    P fields := by
  induction list generalizing init jumps with
  | nil =>
    obtain ⟨rfl, -⟩ := yields_pure.1 h
    exact hinit
  | cons entry rest ih =>
    rw [recordMembers, List.foldlM_cons] at h
    obtain ⟨next, between, hentry, hrest⟩ := yields_bind.1 h
    obtain ⟨name, behind, -, hentry⟩ := yields_bind.1 hentry
    exact ih (hmember hinit hentry) hrest

theorem exists_of_yields_recordThen {σ : Type} {P : σ → Prop} {expected : String} {depth : Depth}
    {route : Route} {node : Node} {init : σ} {member : Depth → σ → String → Route → Node → Read σ}
    {finish : σ → Read α} {a : α} (hinit : P init)
    (hmember : ∀ {depth fields name route node around jumps fields' after}, P fields →
      Yields (member depth fields name route node) around jumps fields' after → P fields')
    (h : Yields (recordThen expected depth route node init member finish) around jumps a after) :
    ∃ fields between, P fields ∧ Yields (finish fields) around between a after := by
  have fold (depth : Depth) (list : List (Node × Node)) {jumps : Nat}
      (h : Yields (recordMembers route member depth list init >>= finish) around jumps a after) :
      ∃ fields between, P fields ∧ Yields (finish fields) around between a after := by
    obtain ⟨fields, between, hmembers, hfinish⟩ := yields_bind.1 h
    exact ⟨fields, between, of_yields_recordMembers hinit hmember hmembers, hfinish⟩
  obtain ⟨target, between, -, h⟩ := yields_atNode.1 h
  cases target with
  | mapping place p list =>
    cases depth with
    | zero => exact absurd h (not_yields_throw _)
    | succ depth => exact fold depth list h
  | absent => exact fold depth [] h
  | scalar place p style text =>
    simp only at h
    split at h
    · exact fold depth [] h
    · exact absurd h not_yields_refuse
  | sequence => exact absurd h not_yields_refuse
  | reference => exact absurd h not_yields_refuse
  | broken => exact absurd h not_yields_refuse

/-! ### Values of any kind -/

/-- The items of a sequence yield their values one after the other. -/
inductive Items (value : Route → Node → Read Value) (around : Surroundings) (route : Route) :
    List (Node × Nat) → Nat → List Value → Nat → Prop
  | nil {jumps : Nat} : Items value around route [] jumps [] jumps
  | cons {item : Node} {i : Nat} {rest : List (Node × Nat)} {jumps between after : Nat} {v : Value}
      {vs : List Value} (first : Yields (value (.item route i) item) around jumps v between)
      (others : Items value around route rest between vs after) :
      Items value around route ((item, i) :: rest) jumps (v :: vs) after

/-- The entries of a mapping yield keys and values one after the other. Behind the entries that are
known, a key must be a new one unless keys may be repeated. -/
inductive Entries (how : Reading) (value : Route → Node → Read Value) (around : Surroundings)
    (route : Route) :
    List (Value × Value) → List (Node × Node) → Nat → List (Value × Value) → Nat → Prop
  | nil {known : List (Value × Value)} {jumps : Nat} :
      Entries how value around route known [] jumps [] jumps
  | cons {known : List (Value × Value)} {key item : Node} {rest : List (Node × Node)}
      {jumps between behind after : Nat} {k v : Value} {es : List (Value × Value)}
      (atKey : Yields (value route key) around jumps k between)
      (new : how.mayRepeat = true ∨ (known.any fun e => k.same e.1) = false)
      (atItem : Yields (value (routeOf route key) item) around between v behind)
      (others : Entries how value around route (known ++ [(k, v)]) rest behind es after) :
      Entries how value around route known ((key, item) :: rest) jumps ((k, v) :: es) after

theorem yields_items {value : Route → Node → Read Value} {route : Route}
    {items : List (Node × Nat)} {vs : List Value} :
    Yields (items.mapM fun (item, i) => value (.item route i) item) around jumps vs after ↔
      Items value around route items jumps vs after := by
  induction items generalizing jumps vs with
  | nil =>
    rw [List.mapM_nil, yields_pure]
    constructor
    · rintro ⟨rfl, rfl⟩
      exact .nil
    · rintro ⟨⟩
      exact ⟨rfl, rfl⟩
  | cons first rest ih =>
    rw [List.mapM_cons, yields_bind]
    constructor
    · rintro ⟨v, between, hfirst, h⟩
      obtain ⟨others, behind, hothers, h⟩ := yields_bind.1 h
      obtain ⟨rfl, rfl⟩ := yields_pure.1 h
      exact .cons hfirst (ih.1 hothers)
    · rintro (_ | ⟨hfirst, hothers⟩)
      exact ⟨_, _, hfirst, yields_bind.2 ⟨_, _, ih.2 hothers, yields_pure.2 ⟨rfl, rfl⟩⟩⟩

theorem yields_entryValue {how : Reading} {value : Route → Node → Read Value} {route : Route}
    {known all : List (Value × Value)} {entry : Node × Node} :
    Yields (entryValue how value route known entry) around jumps all after ↔
      ∃ k between v, Yields (value route entry.1) around jumps k between ∧
        (how.mayRepeat = true ∨ (known.any fun e => k.same e.1) = false) ∧
        Yields (value (routeOf route entry.1) entry.2) around between v after ∧
        all = known ++ [(k, v)] := by
  rw [entryValue, yields_bind]
  refine exists_congr fun k => exists_congr fun between => ?_
  rw [exists_and_left]
  refine and_congr_right fun _ => ?_
  by_cases new : how.mayRepeat = true ∨ (known.any fun e => k.same e.1) = false
  · have allowed : ¬ (!how.mayRepeat && known.any fun e => k.same e.1) = true := by
      rcases new with h | h <;> simp [h]
    simp only [if_neg allowed, yields_bind, yields_pure]
    constructor
    · rintro ⟨v, behind, hitem, rfl, rfl⟩
      exact ⟨v, new, hitem, rfl⟩
    · rintro ⟨v, -, hitem, rfl⟩
      exact ⟨v, after, hitem, rfl, rfl⟩
  · have repeated : (!how.mayRepeat && known.any fun e => k.same e.1) = true := by
      simpa using new
    simp only [if_pos repeated, yields_bind]
    constructor
    · rintro ⟨_, _, h, -⟩
      exact absurd h (not_yields_mismatch _)
    · rintro ⟨v, h, -⟩
      exact absurd h new

/-- The entries of a mapping, read behind known ones. -/
theorem yields_entries {how : Reading} {value : Route → Node → Read Value} {route : Route}
    {list : List (Node × Node)} {known all : List (Value × Value)} :
    Yields (list.foldlM (entryValue how value route) known) around jumps all after ↔
      ∃ es, all = known ++ es ∧ Entries how value around route known list jumps es after := by
  induction list generalizing jumps known with
  | nil =>
    rw [List.foldlM_nil, yields_pure]
    constructor
    · rintro ⟨rfl, rfl⟩
      exact ⟨[], (List.append_nil _).symm, .nil⟩
    · rintro ⟨es, rfl, ⟨⟩⟩
      exact ⟨List.append_nil _, rfl⟩
  | cons entry rest ih =>
    rw [List.foldlM_cons, yields_bind]
    constructor
    · rintro ⟨grown, behind, hentry, hrest⟩
      obtain ⟨k, between, v, hkey, new, hitem, rfl⟩ := yields_entryValue.1 hentry
      obtain ⟨es, rfl, hes⟩ := ih.1 hrest
      exact ⟨(k, v) :: es, List.append_assoc .., .cons hkey new hitem hes⟩
    · rintro ⟨_, rfl, _ | ⟨hkey, new, hitem, hes⟩⟩
      refine ⟨_, _, yields_entryValue.2 ⟨_, _, _, hkey, new, hitem, rfl⟩, ih.2 ⟨_, ?_, hes⟩⟩
      rw [List.append_assoc, List.singleton_append]

/-- The ways to yield a value from a node whose own tag does not count any more. -/
inductive Contents (how : Reading) (inner : Option (Route → Node → Read Value))
    (around : Surroundings) (route : Route) (tag : Option String) :
    Node → Nat → Value → Nat → Prop
  | scalar {place : Mark} {p : Properties} {style : ScalarStyle} {text : String} {s : Scalar}
      {jumps after : Nat} {v : Value} (means : scalarOf tag style text = .ok s)
      (fits : Yields (scalarValue how.expected s) around jumps v after) :
      Contents how inner around route tag (.scalar place p style text) jumps v after
  | sequence {place : Mark} {p : Properties} {items : List Node} {jumps after : Nat}
      {value : Route → Node → Read Value} {vs : List Value} (deeper : inner = some value)
      (reads : Items value around route items.zipIdx jumps vs after) :
      Contents how inner around route tag (.sequence place p items) jumps (.sequence vs) after
  | mapping {place : Mark} {p : Properties} {list : List (Node × Node)} {jumps after : Nat}
      {value : Route → Node → Read Value} {es : List (Value × Value)} (deeper : inner = some value)
      (reads : Entries how value around route [] list jumps es after) :
      Contents how inner around route tag (.mapping place p list) jumps (.mapping es) after
  | absent {place : Mark} {jumps : Nat} :
      Contents how inner around route tag (.absent place) jumps .null jumps

theorem yields_nested {inner : Option (Route → Node → Read Value)} {place : Mark}
    {read : (Route → Node → Read Value) → Read α} {a : α} :
    Yields (nested inner place read) around jumps a after ↔
      ∃ value, inner = some value ∧ Yields (read value) around jumps a after := by
  cases inner with
  | none =>
    constructor
    · intro h
      exact absurd h (not_yields_throw _)
    · rintro ⟨value, ⟨⟩, -⟩
  | some value =>
    constructor
    · intro h
      exact ⟨value, rfl, h⟩
    · rintro ⟨_, ⟨⟩, h⟩
      exact h

theorem yields_contents {how : Reading} {inner : Option (Route → Node → Read Value)} {route : Route}
    {tag : Option String} {node : Node} {v : Value} :
    Yields (contents how inner route node tag) around jumps v after ↔
      Contents how inner around route tag node jumps v after := by
  constructor
  · intro h
    cases node with
    | scalar place p style text =>
      obtain ⟨s, between, hscalar, fits⟩ := yields_bind.1 h
      obtain ⟨means, rfl⟩ := yields_scalar.1 hscalar
      exact .scalar means fits
    | sequence place p items =>
      obtain ⟨value, deeper, hvalue⟩ := yields_nested.1 h
      obtain ⟨vs, hitems, rfl⟩ := yields_map.1 hvalue
      exact .sequence deeper (yields_items.1 hitems)
    | mapping place p list =>
      obtain ⟨value, deeper, hvalue⟩ := yields_nested.1 h
      obtain ⟨all, hlist, rfl⟩ := yields_map.1 hvalue
      obtain ⟨es, rfl, hentries⟩ := yields_entries.1 hlist
      exact .mapping deeper hentries
    | absent place =>
      obtain ⟨rfl, rfl⟩ := yields_pure.1 h
      exact .absent
    | reference =>
      simp only [contents] at h
      exact absurd h not_yields_refuse
    | broken =>
      simp only [contents] at h
      exact absurd h not_yields_refuse
  · rintro (⟨means, h⟩ | ⟨deeper, h⟩ | ⟨deeper, h⟩ | _)
    · exact yields_bind.2 ⟨_, _, yields_scalar.2 ⟨means, rfl⟩, h⟩
    · exact yields_nested.2 ⟨_, deeper, yields_map.2 ⟨_, yields_items.2 h, rfl⟩⟩
    · exact yields_nested.2 ⟨_, deeper, yields_map.2 ⟨_, yields_entries.2 ⟨_, rfl, h⟩, rfl⟩⟩
    · exact yields_pure.2 ⟨rfl, rfl⟩

/-- A node yields the value of its contents, with its own tag if it has one that is kept. -/
theorem yields_valueWith {how : Reading} {inner : Option (Route → Node → Read Value)}
    {route : Route} {node : Node} {v : Value} :
    Yields (valueWith how inner route node) around jumps v after ↔
      ∃ target between, Yields (follow node) around jumps target between ∧
        ((localTag? (tag? target) = none ∧
            Contents how inner around route (tag? target) target between v after) ∨
          ∃ tag w, localTag? (tag? target) = some tag ∧ how.keepsTags = true ∧
            v = .tagged tag w ∧ Contents how inner around route none target between w after) := by
  rw [valueWith, yields_atNode]
  refine exists_congr fun target => exists_congr fun between => and_congr_right fun _ => ?_
  cases hlocal : localTag? (tag? target) with
  | none => simp [yields_contents]
  | some tag =>
    cases hkeeps : how.keepsTags with
    | false => simp [not_yields_mismatch]
    | true => simp [yields_map, yields_contents, and_comm]

/-! ### Documents -/

/-- A document is read when its root is, and nothing stands behind it. -/
theorem whole_eq_ok {read : Node → Read α} {d : Document} {a : α} :
    whole read d = .ok a ↔ ∃ after, Yields (read d.root) (surroundings d) 0 a after ∧
      d.ending = none ∧ d.isFollowed = false := by
  simp only [whole, Yields, bind, Except.bind]
  cases (read d.root).run (surroundings d) 0 with
  | ok b after => cases d.ending <;> cases d.isFollowed <;> simp
  | error fault after => simp

end ModelShelf.Yaml.Read
