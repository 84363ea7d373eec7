import ModelShelf.Proofs.Yaml.Readings

/-!
Readers that begin with fewer aliases behind them. They yield the same, so two readings of one node
can be compared although they have followed different numbers of aliases before: where both succeed
and one of them refuses tags, the value has none. A node that is read is nowhere broken.
-/

namespace ModelShelf.Yaml

namespace Read

variable {α β σ : Type} {around : Surroundings} {jumps after jumps' after' : Nat}

/-! ### Steady readers -/

/-- Aliases are only added to those that are counted, and a reader that begins with fewer of them
yields the same. -/
structure Steady (read : Read α) : Prop where
  le : ∀ {around : Surroundings} {jumps after : Nat} {a : α},
    Yields read around jumps a after → jumps ≤ after
  earlier : ∀ {around : Surroundings} {jumps after fewer : Nat} {a : α},
    Yields read around jumps a after → fewer ≤ jumps →
      ∃ after', after' ≤ after ∧ Yields read around fewer a after'

namespace Steady

theorem of_not_yields {read : Read α}
    (h : ∀ {around jumps a after}, ¬ Yields read around jumps a after) : Steady read :=
  ⟨fun hread => (h hread).elim, fun hread => (h hread).elim⟩

theorem pure (a : α) : Steady (Pure.pure a) := by
  constructor
  · intro around jumps after b h
    obtain ⟨-, rfl⟩ := yields_pure.1 h
    exact Nat.le_refl _
  · intro around jumps after fewer b h hfewer
    obtain ⟨rfl, rfl⟩ := yields_pure.1 h
    exact ⟨fewer, hfewer, yields_pure.2 ⟨rfl, rfl⟩⟩

theorem bind {read : Read α} {next : α → Read β} (hread : Steady read)
    (hnext : ∀ a, Steady (next a)) : Steady (read >>= next) := by
  constructor
  · intro around jumps after b h
    obtain ⟨a, between, hfirst, hsecond⟩ := yields_bind.1 h
    exact Nat.le_trans (hread.le hfirst) ((hnext a).le hsecond)
  · intro around jumps after fewer b h hfewer
    obtain ⟨a, between, hfirst, hsecond⟩ := yields_bind.1 h
    obtain ⟨between', hbetween, hfirst'⟩ := hread.earlier hfirst hfewer
    obtain ⟨after', hafter, hsecond'⟩ := (hnext a).earlier hsecond hbetween
    exact ⟨after', hafter, yields_bind.2 ⟨a, between', hfirst', hsecond'⟩⟩

theorem map {read : Read α} (h : Steady read) (f : α → β) : Steady (f <$> read) := by
  rw [← bind_pure_comp]
  exact h.bind fun a => pure (f a)

theorem locate {read : Read α} (h : Steady read) (place : Mark) (route : Route) :
    Steady (Read.locate place route read) :=
  ⟨fun hread => h.le (yields_locate.1 hread), fun hread hfewer =>
    have ⟨after', hafter, hread'⟩ := h.earlier (yields_locate.1 hread) hfewer
    ⟨after', hafter, yields_locate.2 hread'⟩⟩

theorem mapM {f : α → Read β} (h : ∀ a, Steady (f a)) (list : List α) : Steady (list.mapM f) := by
  induction list with
  | nil =>
    rw [List.mapM_nil]
    exact pure []
  | cons first rest ih =>
    rw [List.mapM_cons]
    exact (h first).bind fun b => ih.bind fun bs => pure (b :: bs)

theorem foldlM {f : σ → α → Read σ} (h : ∀ s a, Steady (f s a)) (list : List α) (init : σ) :
    Steady (list.foldlM f init) := by
  induction list generalizing init with
  | nil => exact pure init
  | cons first rest ih =>
    rw [List.foldlM_cons]
    exact (h init first).bind ih

end Steady

theorem steady_follow (node : Node) : Steady (follow node) := by
  constructor
  · intro around jumps after target h
    obtain ⟨place, number, rfl⟩ | ⟨-, -, rfl⟩ := eq_of_yields_follow h
    · obtain ⟨-, -, rfl⟩ := yields_follow_reference.1 h
      exact Nat.le_succ _
    · exact Nat.le_refl _
  · intro around jumps after fewer target h hfewer
    obtain ⟨place, number, rfl⟩ | ⟨direct, rfl, rfl⟩ := eq_of_yields_follow h
    · obtain ⟨left, hlookup, rfl⟩ := yields_follow_reference.1 h
      exact ⟨fewer + 1, by omega, yields_follow_reference.2 ⟨by omega, hlookup, rfl⟩⟩
    · exact ⟨fewer, hfewer, yields_follow_direct direct⟩

theorem steady_atNode {route : Route} {node : Node} {read : Node → Read α}
    (h : ∀ target, Steady (read target)) : Steady (atNode route node read) :=
  ((steady_follow node).bind fun target => (h target).locate _ _).locate _ _

theorem steady_textAs (expected : String) (route : Route) (node : Node) :
    Steady (textAs expected route node) := by
  refine steady_atNode fun target => ?_
  cases target with
  | scalar place p style text => exact .pure text
  | _ => exact .of_not_yields not_yields_refuse

theorem steady_scalar (tag : Option String) (style : ScalarStyle) (text : String) :
    Steady (scalar tag style text) := by
  rw [scalar]
  split
  · exact .pure _
  · exact .of_not_yields (not_yields_mismatch _)

theorem steady_scalarValue (expected : String) (s : Scalar) : Steady (scalarValue expected s) := by
  cases s with
  | wideInteger => exact .of_not_yields (not_yields_mismatch _)
  | _ => exact .pure _

theorem steady_nested {inner : Option (Route → Node → Read Value)} {place : Mark}
    {read : (Route → Node → Read Value) → Read α}
    (h : ∀ value, inner = some value → Steady (read value)) : Steady (nested inner place read) := by
  cases inner with
  | none => exact .of_not_yields (not_yields_throw _)
  | some value => exact h value rfl

theorem steady_entryValue {how : Reading} {value : Route → Node → Read Value}
    (h : ∀ route node, Steady (value route node)) (route : Route) (known : List (Value × Value))
    (entry : Node × Node) : Steady (entryValue how value route known entry) := by
  refine (h route entry.1).bind fun key => ?_
  have item : Steady (value (routeOf route entry.1) entry.2 >>= fun v =>
      Pure.pure (known ++ [(key, v)])) := (h _ _).bind fun v => .pure _
  simp only
  split
  · exact (Steady.of_not_yields (not_yields_mismatch _)).bind fun _ => item
  · exact item

theorem steady_valueWith {how : Reading} {inner : Option (Route → Node → Read Value)}
    (h : ∀ value, inner = some value → ∀ route node, Steady (value route node)) (route : Route)
    (node : Node) : Steady (valueWith how inner route node) := by
  have contents (tag : Option String) (target : Node) :
      Steady (contents how inner route target tag) := by
    cases target with
    | scalar place p style text =>
      exact (steady_scalar tag style text).bind fun s => steady_scalarValue _ s
    | sequence place p items =>
      exact steady_nested fun value hvalue => Steady.map
        (.mapM (fun entry => h value hvalue (.item route entry.2) entry.1) items.zipIdx) _
    | mapping place p list =>
      exact steady_nested fun value hvalue => Steady.map
        (.foldlM (fun known entry => steady_entryValue (h value hvalue) route known entry) list [])
        _
    | absent place => exact .pure _
    | _ =>
      simp only [Read.contents]
      exact .of_not_yields not_yields_refuse
  refine steady_atNode fun target => ?_
  split
  · exact contents _ target
  · split
    · exact (contents none target).map _
    · exact .of_not_yields (not_yields_mismatch _)

theorem steady_valueAs (how : Reading) (depth : Depth) (route : Route) (node : Node) :
    Steady (valueAs how depth route node) := by
  induction depth generalizing route node with
  | zero =>
    refine steady_valueWith (fun value hvalue => ?_) route node
    cases hvalue
  | succ depth ih =>
    refine steady_valueWith (fun value hvalue => ?_) route node
    obtain rfl := Option.some.inj hvalue
    exact ih

theorem Steady.unique {read : Read α} (h : Steady read) {a b : α}
    (ha : Yields read around jumps a after) (hb : Yields read around jumps' b after') : a = b := by
  obtain ⟨_, -, ha⟩ := h.earlier ha (Nat.zero_le _)
  obtain ⟨_, -, hb⟩ := h.earlier hb (Nat.zero_le _)
  exact (yields_unique ha hb).1

/-! ### Two readings of a node -/

theorem Items.untagged_of_both {f g : Route → Node → Read Value} {route : Route}
    {items : List (Node × Nat)} {vs ws : List Value} (h : Items f around route items jumps vs after)
    (h' : Items g around route items jumps' ws after')
    (hvalue : ∀ {route node jumps v after jumps' w after'},
      Yields (f route node) around jumps v after → Yields (g route node) around jumps' w after' →
        v.hasTag = false) : Value.itemsHaveTag vs = false := by
  induction h generalizing jumps' ws with
  | nil => rfl
  | cons first _ ih =>
    cases h' with
    | cons first' others' => exact Bool.or_eq_false_iff.2 ⟨hvalue first first', ih others'⟩

theorem Entries.untagged_of_both {how how' : Reading} {f g : Route → Node → Read Value}
    {route : Route} {list : List (Node × Node)} {known known' es ds : List (Value × Value)}
    (h : Entries how f around route known list jumps es after)
    (h' : Entries how' g around route known' list jumps' ds after')
    (hvalue : ∀ {route node jumps v after jumps' w after'},
      Yields (f route node) around jumps v after → Yields (g route node) around jumps' w after' →
        v.hasTag = false) : Value.entriesHaveTag es = false := by
  induction h generalizing jumps' known' ds with
  | nil => rfl
  | cons atKey _ atItem _ ih =>
    cases h' with
    | cons atKey' _ atItem' others' =>
      have entry := Bool.or_eq_false_iff.2 ⟨hvalue atKey atKey', hvalue atItem atItem'⟩
      exact Bool.or_eq_false_iff.2 ⟨entry, ih others'⟩

/-- A value has no tag if a reading that does not keep tags yields anything at its node. -/
theorem hasTag_eq_false_of_both {how : Reading} (strict : how.keepsTags = false) {depth : Depth}
    {route : Route} {node : Node} {v w : Value}
    (h : Yields (value depth route node) around jumps v after)
    (h' : Yields (valueAs how depth route node) around jumps' w after') : v.hasTag = false := by
  induction depth using Nat.strongRecOn generalizing v w route node jumps after jumps' after' with
  | ind depth ih =>
    rw [value, valueAs_eq_valueWith] at h
    rw [valueAs_eq_valueWith] at h'
    obtain ⟨target, between, hfollow, h⟩ := yields_valueWith.1 h
    obtain ⟨target', between', hfollow', h'⟩ := yields_valueWith.1 h'
    -- Whatever was followed before, both readings come to the same node.
    obtain rfl := (steady_follow node).unique hfollow hfollow'
    obtain ⟨notTagged, hcontents'⟩ | ⟨_, _, -, keeps, -⟩ := h'
    · obtain ⟨-, hcontents⟩ | ⟨tag, _, tagged, -⟩ := h
      · cases hcontents with
        | scalar _ fits => exact (simple_of_yields_scalarValue fits).1
        | sequence deeper reads =>
          obtain ⟨depth, rfl, rfl⟩ := below_eq_some deeper
          cases hcontents' with
          | sequence deeper' reads' =>
            obtain rfl := Option.some.inj deeper'
            exact reads.untagged_of_both reads' fun h h' => ih depth (Nat.lt_succ_self _) h h'
        | mapping deeper reads =>
          obtain ⟨depth, rfl, rfl⟩ := below_eq_some deeper
          cases hcontents' with
          | mapping deeper' reads' =>
            obtain rfl := Option.some.inj deeper'
            exact reads.untagged_of_both reads' fun h h' => ih depth (Nat.lt_succ_self _) h h'
        | absent => rfl
      · rw [notTagged] at tagged
        cases tagged
    · exact absurd keeps (by simp [strict])

/-! ### Nodes that are read -/

theorem Items.fault?_eq_none {f : Route → Node → Read Value} {route : Route}
    {items : List (Node × Nat)} {vs : List Value} (h : Items f around route items jumps vs after)
    (hvalue : ∀ {route node jumps v after}, Yields (f route node) around jumps v after →
      node.fault? = none) : Node.faultInItems? (items.map Prod.fst) = none := by
  induction h with
  | nil => rfl
  | cons first _ ih => exact Option.or_eq_none_iff.2 ⟨hvalue first, ih⟩

theorem Entries.fault?_eq_none {how : Reading} {f : Route → Node → Read Value} {route : Route}
    {list : List (Node × Node)} {known es : List (Value × Value)}
    (h : Entries how f around route known list jumps es after)
    (hvalue : ∀ {route node jumps v after}, Yields (f route node) around jumps v after →
      node.fault? = none) : Node.faultInEntries? list = none := by
  induction h with
  | nil => rfl
  | cons atKey _ atItem _ ih =>
    have entry := Option.or_eq_none_iff.2 ⟨hvalue atKey, hvalue atItem⟩
    exact Option.or_eq_none_iff.2 ⟨entry, ih⟩

/-- A node with a value breaks off nowhere. -/
theorem fault?_of_yields {how : Reading} {depth : Depth} {route : Route} {node : Node} {v : Value}
    (h : Yields (valueAs how depth route node) around jumps v after) : node.fault? = none := by
  induction depth using Nat.strongRecOn generalizing v route node jumps after with
  | ind depth ih =>
    rw [valueAs_eq_valueWith] at h
    obtain ⟨target, between, hfollow, hvalue⟩ := yields_valueWith.1 h
    have inside {tag : Option String} {w : Value}
        (h : Contents how (below how depth) around route tag target between w after) :
        target.fault? = none := by
      cases h with
      | scalar => rfl
      | sequence deeper reads =>
        obtain ⟨depth, rfl, rfl⟩ := below_eq_some deeper
        have items := reads.fault?_eq_none fun h => ih depth (Nat.lt_succ_self _) h
        rwa [List.zipIdx_map_fst] at items
      | mapping deeper reads =>
        obtain ⟨depth, rfl, rfl⟩ := below_eq_some deeper
        exact reads.fault?_eq_none fun h => ih depth (Nat.lt_succ_self _) h
      | absent => rfl
    obtain ⟨place, number, rfl⟩ | ⟨-, rfl, -⟩ := eq_of_yields_follow hfollow
    · rfl
    · obtain ⟨-, hcontents⟩ | ⟨_, _, -, -, -, hcontents⟩ := hvalue
      · exact inside hcontents
      · exact inside hcontents

end Read

end ModelShelf.Yaml
