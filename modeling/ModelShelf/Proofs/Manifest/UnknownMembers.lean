import ModelShelf.Proofs.Manifest.RoundTrip
import ModelShelf.Proofs.Yaml.Acceptance
import ModelShelf.Proofs.Yaml.Writable

/-!
Members of a manifest that the library does not know. If the known members have values of their
types, and nothing is quoted and tagged as nothing, what else stands in the manifest decides whether
it is read: unknown members may have any value that has no tag. They keep their values, also when
another signature is recorded and the manifest is written and read again.
-/

namespace ModelShelf

open Yaml (Value Node Route Read Surroundings Document)
open Yaml.Read

variable {around : Surroundings} {jumps after fewer : Nat}

/-! ### Parts of a manifest -/

/-- All values of a dictionary are of a kind. -/
def Dictionary.Holds (kind : α → Prop) (d : Dictionary α) : Prop := ∀ e ∈ d.entries, kind e.2

theorem Dictionary.Holds.insert {kind : α → Prop} {d : Dictionary α} (h : d.Holds kind)
    {name : String} {a : α} (ha : kind a) : (d.insert name a).Holds kind := by
  intro e he
  rcases mem_put he with rfl | he
  · exact ha
  · exact h e he

theorem reaches_dictionary {read : Depth → Route → Node → Read α} {kind : α → Prop}
    {members : List (String × Value)} (h : ∀ e ∈ members, Accepts read e.2 kind) {depth : Depth}
    {route : Route} {list : List (Node × Node)} {known : List (Value × Value)} {d : Dictionary α}
    (unquoted : ∀ e ∈ list, Unquoted around e.1 ∧ Unquoted around e.2)
    (hentries : Entries anyReading (value depth) around route known list jumps
      (members.map fun (name, v) => (.string name, v)) after) (hfewer : fewer ≤ jumps)
    (hd : d.Holds kind) :
    Reaches (list.foldlM (fun d (key, item) => do
      let name ← text route key
      return d.insert name (← read depth (routeOf route key) item)) d) around fewer
      (Dictionary.Holds kind) after := by
  induction members generalizing known list jumps fewer d with
  | nil =>
    cases hentries
    exact reaches_pure hd hfewer
  | cons first rest ih =>
    cases hentries with
    | cons atKey _ atItem others =>
      obtain ⟨hfirst, hrest⟩ := List.forall_mem_cons.1 h
      obtain ⟨unquotedFirst, unquotedRest⟩ := List.forall_mem_cons.1 unquoted
      rw [List.foldlM_cons]
      have hname := (agrees_text first.1).accepts.reaches unquotedFirst.1 atKey hfewer
      refine Reaches.bind (Reaches.bind hname fun name jumps' _ hjumps' => ?_)
        fun grown jumps' hgrown hjumps' => ih hrest unquotedRest others hjumps' hgrown
      exact (hfirst.reaches unquotedFirst.2 atItem hjumps').bind fun a jumps' ha hjumps' =>
        reaches_pure (hd.insert ha) hjumps'

theorem accepts_dictionary {read : Depth → Route → Node → Read α} {kind : α → Prop} {v : Value}
    (h : v.IsRecord fun _ w => Accepts read w kind) :
    Accepts (dictionary read) v (Dictionary.Holds kind) := by
  obtain ⟨members, rfl, hmembers⟩ := h
  exact accepts_entries fun unquoted hentries hfewer =>
    reaches_dictionary hmembers unquoted hentries hfewer nofun

theorem accepts_values {kind : Value → Prop} {v : Value} (h : v.IsRecord fun _ => kind) :
    Accepts (dictionary value) v (Dictionary.Holds kind) :=
  accepts_dictionary (h.mono fun _ w hw => (agrees_value w).accepts.mono fun _ same => same ▸ hw)

theorem accepts_optionalText {v : Value} (h : v = .null ∨ v.IsText) :
    Accepts (fun _ => optional text) v fun _ => True := by
  have accepted (h : v.IsText) : v.Solid ∧ Accepts (fun _ => text) v fun _ => True := by
    obtain ⟨s, rfl⟩ := h
    exact ⟨trivial, (agrees_text s).accepts.mono fun _ _ => trivial⟩
  exact (accepts_optional (h.imp_right accepted)).mono fun _ _ => trivial

namespace SignatureTexts

/-- The types of the members of a signature. Other members are stepped over. -/
def Typed (name : String) (v : Value) : Prop :=
  (name = "inputs" → v.IsText) ∧ (name = "outputs" → v = .null ∨ v.IsText)

/-- What holds of the fields while some members are still to be read. -/
structure Pending (members : List (String × Value)) (fields : Fields) : Prop where
  typed : ∀ e ∈ members, Typed e.1 e.2
  nodup : (members.map Prod.fst).Nodup
  inputs : fields.inputs = none ↔ "inputs" ∈ members.map Prod.fst
  outputs : "outputs" ∈ members.map Prod.fst → fields.outputs = none

theorem Pending.next {name : String} {v : Value} {rest : List (String × Value)}
    {fields fields' : Fields} (h : Pending ((name, v) :: rest) fields)
    (inputs : name ≠ "inputs" → fields'.inputs = fields.inputs)
    (outputs : name ≠ "outputs" → fields'.outputs = fields.outputs)
    (found : name = "inputs" → fields'.inputs ≠ none) : Pending rest fields' := by
  obtain ⟨hname, nodup⟩ := List.nodup_cons.1 h.nodup
  refine ⟨fun e he => h.typed e (List.mem_cons_of_mem _ he), nodup, ?_, fun houtputs => ?_⟩
  · by_cases hinputs : name = "inputs"
    · subst hinputs
      exact ⟨fun hnone => absurd hnone (found rfl), fun hmem => absurd hmem hname⟩
    · rw [inputs hinputs, h.inputs, List.map_cons, List.mem_cons]
      exact or_iff_right (Ne.symm hinputs)
  · have hne : name ≠ "outputs" := fun heq => hname (heq ▸ houtputs)
    rw [outputs hne]
    exact h.outputs (List.mem_cons_of_mem _ houtputs)

theorem accepts_member {name : String} {v : Value} {rest : List (String × Value)} {fields : Fields}
    (h : Pending ((name, v) :: rest) fields) :
    Accepts (fun _ route node => member fields name route node) v (Pending rest) := by
  obtain ⟨inputs, outputs⟩ := h.typed (name, v) List.mem_cons_self
  by_cases hinputs : name = "inputs"
  · subst hinputs
    obtain ⟨s, rfl⟩ := inputs rfl
    have free : fields.inputs = none := h.inputs.2 List.mem_cons_self
    simp only [member, if_pos, free]
    refine ((agrees_text s).accepts.once "inputs").map fun found hfound => ?_
    obtain ⟨a, -, rfl⟩ := hfound
    exact h.next (fun hne => absurd rfl hne) (fun _ => rfl) nofun
  · by_cases houtputs : name = "outputs"
    · subst houtputs
      have free : fields.outputs = none := h.outputs List.mem_cons_self
      simp only [member, if_neg hinputs, if_pos, free]
      refine ((accepts_optionalText (outputs rfl)).once "outputs").map fun found _ => ?_
      exact h.next (fun _ => rfl) (fun hne => absurd rfl hne) fun heq => absurd heq hinputs
    · simp only [member, if_neg hinputs, if_neg houtputs]
      exact (accepts_ignore v).map fun _ _ =>
        h.next (fun _ => rfl) (fun _ => rfl) fun heq => absurd heq hinputs

/-- A signature in its stored form: its members have their types, and the inputs are there. -/
def IsValue (v : Value) : Prop :=
  ∃ members, v = .record members ∧ (∀ e ∈ members, Typed e.1 e.2) ∧
    "inputs" ∈ members.map Prod.fst

theorem reaches_finish {fields : Fields} (h : Pending [] fields) :
    Reaches (do return ⟨← required "inputs" fields.inputs, fields.outputs.getD none⟩ :
      Read SignatureTexts) around jumps (fun _ => True) jumps := by
  cases hinputs : fields.inputs with
  | none => exact nomatch h.inputs.1 hinputs
  | some s =>
    have found : Reaches (required "inputs" (some s)) around jumps (fun _ => True) jumps :=
      reaches_pure trivial (Nat.le_refl _)
    exact found.bind fun _ _ _ hjumps' => reaches_pure trivial hjumps'

theorem IsValue.solid {v : Value} (h : IsValue v) : v.Solid := by
  obtain ⟨members, rfl, -⟩ := h
  trivial

theorem accepts_ofNode {v : Value} (h : IsValue v) : Accepts ofNode v fun _ => True := by
  obtain ⟨members, rfl, typed, inputs⟩ := h
  refine accepts_of_unrepeated fun unrepeated => accepts_recordThen accepts_member ?_ reaches_finish
  exact ⟨typed, Value.nodup_of_unrepeated unrepeated, iff_of_true rfl inputs, fun _ => rfl⟩

end SignatureTexts

namespace Manifest

/-- The types of the known members, where the values that may be anything are of a kind. -/
def Typed (kind : Value → Prop) (name : String) (v : Value) : Prop :=
  match name with
  | "flavors" => v.IsRecord fun _ config => config.IsRecord fun _ => kind
  | "signature" => v = .null ∨ SignatureTexts.IsValue v
  | "metadata" => v = .null ∨ v.IsRecord fun _ => kind
  | "artifact_path" | "model_uuid" | "run_id" | "utc_time_created" => v = .null ∨ v.IsText
  | _ => True

/-- The members that the library does not know. -/
def unknownOf (members : List (String × Value)) : List (String × Value) :=
  members.filter fun e => e.1 ∉ memberNames

/-- The values in flavors and metadata are of a kind. -/
structure Holds (kind : Value → Prop) (m : Manifest) : Prop where
  flavors : m.flavors.Holds (Dictionary.Holds kind)
  metadata : ∀ d ∈ m.metadata, Dictionary.Holds kind d

namespace Fields

/-- Whether a known member was read before. -/
def has (fields : Fields) (name : String) : Bool :=
  match name with
  | "artifact_path" => fields.artifactPath.isSome
  | "flavors" => fields.flavors.isSome
  | "model_uuid" => fields.modelId.isSome
  | "run_id" => fields.runId.isSome
  | "signature" => fields.signature.isSome
  | "utc_time_created" => fields.created.isSome
  | "metadata" => fields.metadata.isSome
  | _ => false

structure Holds (kind : Value → Prop) (fields : Fields) : Prop where
  flavors : ∀ d ∈ fields.flavors, d.Holds (Dictionary.Holds kind)
  metadata : ∀ found ∈ fields.metadata, ∀ d ∈ found, Dictionary.Holds kind d

end Fields

theorem has_eq_of_member {depth : Depth} {fields fields' : Fields} {name other : String}
    {route : Route} {node : Node} (hne : other ≠ name)
    (h : Yields (member depth fields name route node) around jumps fields' after) :
    fields'.has other = fields.has other := by
  unfold member at h
  split at h
  all_goals
    obtain ⟨x, between, -, h⟩ := yields_bind.1 h
    obtain ⟨rfl, -⟩ := yields_pure.1 h
    unfold Fields.has
    split <;> first | rfl | exact absurd rfl hne

/-- A known member is accepted if it has a value of its type and was not read before. -/
theorem accepts_known {kind : Value → Prop} {name : String} {v : Value} {fields : Fields}
    (known : name ∈ memberNames) (typed : Typed kind name v) (free : fields.has name = false)
    (holds : fields.Holds kind) :
    Accepts (fun depth route node => member depth fields name route node) v
      (Fields.Holds kind) := by
  simp only [memberNames, List.mem_cons, List.not_mem_nil, or_false] at known
  rcases known with rfl | rfl | rfl | rfl | rfl | rfl | rfl
  · have free : fields.artifactPath = none := by simpa [Fields.has] using free
    simp only [member, free]
    exact ((accepts_optionalText typed).once _).map fun _ _ => ⟨holds.flavors, holds.metadata⟩
  · have free : fields.flavors = none := by simpa [Fields.has] using free
    simp only [member, free]
    have typed : v.IsRecord fun _ config => config.IsRecord fun _ => kind := typed
    have configs := accepts_dictionary (typed.mono fun _ _ hconfig => accepts_values hconfig)
    refine (configs.once _).map fun found hfound => ⟨?_, holds.metadata⟩
    obtain ⟨flavors, hflavors, rfl⟩ := hfound
    intro d hd
    obtain rfl := Option.some.inj hd
    exact hflavors
  · have free : fields.modelId = none := by simpa [Fields.has] using free
    simp only [member, free]
    exact ((accepts_optionalText typed).once _).map fun _ _ => ⟨holds.flavors, holds.metadata⟩
  · have free : fields.runId = none := by simpa [Fields.has] using free
    simp only [member, free]
    exact ((accepts_optionalText typed).once _).map fun _ _ => ⟨holds.flavors, holds.metadata⟩
  · have free : fields.signature = none := by simpa [Fields.has] using free
    simp only [member, free]
    have texts := accepts_optional (typed.imp_right fun h =>
      ⟨h.solid, SignatureTexts.accepts_ofNode h⟩)
    exact (texts.once _).map fun _ _ => ⟨holds.flavors, holds.metadata⟩
  · have free : fields.created = none := by simpa [Fields.has] using free
    simp only [member, free]
    exact ((accepts_optionalText typed).once _).map fun _ _ => ⟨holds.flavors, holds.metadata⟩
  · have free : fields.metadata = none := by simpa [Fields.has] using free
    simp only [member, free]
    have notes := accepts_optional (typed.imp_right fun h => ⟨h.solid, accepts_values h⟩)
    refine (notes.once _).map fun found hfound => ⟨holds.flavors, ?_⟩
    obtain ⟨metadata, hmetadata, rfl⟩ := hfound
    intro found hfound
    obtain rfl := Option.some.inj hfound
    exact hmetadata

/-! ### Whole manifests -/

/-- What holds of the fields while some members are still to be read: these have their types and are
not read yet, and with the unknown ones among them all of the unknown ones are there. -/
structure Pending (kind : Value → Prop) (unknown members : List (String × Value))
    (fields : Fields) : Prop where
  typed : ∀ e ∈ members, Typed kind e.1 e.2
  untagged : ∀ e ∈ members, e.1 ∉ memberNames → e.2.hasTag = false
  nodup : (members.map Prod.fst).Nodup
  free : ∀ e ∈ members, fields.has e.1 = false
  holds : fields.Holds kind
  unknown : fields.unknown.reverse ++ unknownOf members = unknown

theorem Pending.next {kind : Value → Prop} {unknown rest : List (String × Value)} {name : String}
    {v : Value} {fields fields' : Fields} (h : Pending kind unknown ((name, v) :: rest) fields)
    (holds : fields'.Holds kind)
    (others : ∀ other, other ≠ name → fields'.has other = fields.has other)
    (added : fields'.unknown.reverse = fields.unknown.reverse ++ unknownOf [(name, v)]) :
    Pending kind unknown rest fields' := by
  obtain ⟨hname, nodup⟩ := List.nodup_cons.1 h.nodup
  refine ⟨fun e he => h.typed e (List.mem_cons_of_mem _ he),
    fun e he => h.untagged e (List.mem_cons_of_mem _ he), nodup, fun e he => ?_, holds, ?_⟩
  · have hne : e.1 ≠ name := by
      rintro rfl
      exact hname (List.mem_map.2 ⟨e, he, rfl⟩)
    rw [others e.1 hne]
    exact h.free e (List.mem_cons_of_mem _ he)
  · rw [added, List.append_assoc, unknownOf, unknownOf, ← List.filter_append]
    exact h.unknown

theorem accepts_member {kind : Value → Prop} {unknown rest : List (String × Value)} {name : String}
    {v : Value} {fields : Fields} (h : Pending kind unknown ((name, v) :: rest) fields) :
    Accepts (fun depth route node => member depth fields name route node) v
      (Pending kind unknown rest) := by
  by_cases known : name ∈ memberNames
  · have typed := accepts_known known (h.typed _ List.mem_cons_self) (h.free _ List.mem_cons_self)
      h.holds
    have accepted : Accepts (fun depth route node => member depth fields name route node) v
        fun fields' => fields'.Holds kind ∧
          (∀ other, other ≠ name → fields'.has other = fields.has other) ∧
            fields'.unknown = fields.unknown :=
      typed.and fun h => ⟨fun other hne => has_eq_of_member hne h, unknown_eq_of_member known h⟩
    refine accepted.mono fun fields' hfields' => ?_
    obtain ⟨holds, others, same⟩ := hfields'
    have none : unknownOf [(name, v)] = [] := List.filter_cons_of_neg (by simpa using known)
    exact h.next holds others (by rw [same, none, List.append_nil])
  · simp only [member_of_not_mem known]
    refine (agrees_valueAs (h.untagged _ List.mem_cons_self known)).accepts.map fun w same => ?_
    subst same
    have one : unknownOf [(name, v)] = [(name, v)] := List.filter_cons_of_pos (by simpa using known)
    exact h.next ⟨h.holds.flavors, h.holds.metadata⟩ (fun _ _ => rfl)
      (by rw [one, List.reverse_cons])

theorem reaches_ofFields {kind : Value → Prop} {unknown : List (String × Value)} {fields : Fields}
    (unrepeated : ∀ e ∈ unknown, e.2.repetition? = none) (h : Pending kind unknown [] fields) :
    Reaches (ofFields fields) around jumps
      (fun m => m.extra = .ofList unknown ∧ m.Holds kind) jumps := by
  have same : fields.unknown.reverse = unknown := by
    rw [← h.unknown]
    exact (List.append_nil _).symm
  have flavors : (fields.flavors.getD .empty).Holds (Dictionary.Holds kind) := by
    cases hflavors : fields.flavors with
    | none => exact nofun
    | some d => exact h.holds.flavors d hflavors
  have metadata : ∀ d ∈ fields.metadata.getD none, Dictionary.Holds kind d := by
    cases hmetadata : fields.metadata with
    | none => exact nofun
    | some found => exact h.holds.metadata found hmetadata
  refine ⟨_, jumps, ⟨rfl, flavors, metadata⟩, Nat.le_refl _,
    yields_bind.2 ⟨unknown, jumps, ?_, yields_pure.2 ⟨rfl, rfl⟩⟩⟩
  rw [same]
  exact yields_unrepeated.2 ⟨unrepeated, rfl, rfl⟩

/-- A mapping is accepted as a manifest if its known members have their types and its unknown ones
have no tags. -/
theorem accepts_record {kind : Value → Prop} {members : List (String × Value)}
    (typed : ∀ e ∈ members, Typed kind e.1 e.2)
    (untagged : ∀ e ∈ members, e.1 ∉ memberNames → e.2.hasTag = false) :
    Accepts (fun depth route node => recordThen "struct Model" depth route node
      ⟨none, none, none, none, none, none, none, []⟩ member ofFields) (.record members)
      fun m => m.extra = .ofList (unknownOf members) ∧ m.Holds kind := by
  refine accepts_of_unrepeated fun unrepeated => accepts_recordThen accepts_member ?_
    (reaches_ofFields fun e he => ?_)
  · refine ⟨typed, untagged, Value.nodup_of_unrepeated unrepeated, fun e _ => ?_, ⟨nofun, nofun⟩,
      rfl⟩
    unfold Fields.has
    split <;> rfl
  · exact repetition?_of_mem unrepeated (List.mem_map.2 ⟨e, (List.mem_filter.1 he).1, rfl⟩)

theorem ofText_of_typed {kind : Value → Prop} {members : List (String × Value)} {t : String}
    (holds : Value.ofText t = .ok (.record members))
    (unquoted : (Document.ofText t).root.quotesNull = false)
    (typed : ∀ e ∈ members, Typed kind e.1 e.2)
    (untagged : ∀ e ∈ members, e.1 ∉ memberNames → e.2.hasTag = false) :
    ∃ m, ofText t = .ok m ∧ m.extra = .ofList (unknownOf members) ∧ m.Holds kind := by
  obtain ⟨m, hm, hread⟩ := (accepts_record typed untagged).read holds unquoted
  refine ⟨m, ?_, hm⟩
  have hread : Yaml.read ofNode t = .ok m := hread
  rw [ofText, hread]
  rfl

/-! ### Tags -/

/-- Unknown members that were read have no tags. -/
theorem untagged_of_yields {depth : Depth} {route : Route} {list : List (Node × Node)}
    {known : List (Value × Value)} {members : List (String × Value)} {fields last : Fields}
    {jumps' after' : Nat}
    (hentries : Entries anyReading (value depth) around route known list jumps
      (members.map fun (name, v) => (.string name, v)) after)
    (h : Yields (recordMembers route member depth list fields) around jumps' last after') :
    ∀ e ∈ members, e.1 ∉ memberNames → e.2.hasTag = false := by
  induction members generalizing list known jumps jumps' fields with
  | nil => exact nofun
  | cons first rest ih =>
    cases hentries with
    | cons atKey _ atItem others =>
      rw [recordMembers, List.foldlM_cons] at h
      obtain ⟨next, _, hentry, hrest⟩ := yields_bind.1 h
      obtain ⟨name, _, hname, hentry⟩ := yields_bind.1 hentry
      obtain rfl := (steady_textAs _ _ _).unique hname ((agrees_textAs _ _).yields atKey)
      refine List.forall_mem_cons.2 ⟨fun unknown => ?_, ih others hrest⟩
      rw [member_of_not_mem unknown] at hentry
      obtain ⟨v, _, hv, -⟩ := yields_bind.1 hentry
      exact hasTag_eq_false_of_both rfl atItem hv

theorem untagged_of_ofText {members : List (String × Value)} {t : String} {m : Manifest}
    (holds : Value.ofText t = .ok (.record members)) (h : ofText t = .ok m) :
    ∀ e ∈ members, e.1 ∉ memberNames → e.2.hasTag = false := by
  obtain ⟨after, hvalue, -⟩ := whole_eq_ok.1 holds
  obtain ⟨after', hroot, -⟩ := whole_eq_ok.1 (eq_ok_of_mapError h)
  obtain ⟨place, p, list, between, deeper, hfollow, hdepth, hentries⟩ := mapping_of_value hvalue
  obtain ⟨target, between', hfollow', hroot⟩ := yields_atNode.1 hroot
  obtain ⟨rfl, rfl⟩ := yields_unique hfollow hfollow'
  have hroot : Yields (descend place greatestDepth fun depth => do
      ofFields (← recordMembers .top member depth list
        ⟨none, none, none, none, none, none, none, []⟩)) _ _ m after' := hroot
  -- Both readings go one level down, so they see the same entries at the same depth.
  rw [hdepth] at hroot
  obtain ⟨fields, _, hmembers, -⟩ := yields_bind.1 hroot
  exact untagged_of_yields hentries hmembers

/-- If the known members have their types, a manifest is read if and only if no unknown member has a
tag. -/
theorem ofText_isOk_iff {members : List (String × Value)} {t : String}
    (holds : Value.ofText t = .ok (.record members))
    (unquoted : (Document.ofText t).root.quotesNull = false)
    (typed : ∀ e ∈ members, Typed (fun _ => True) e.1 e.2) :
    (∃ m, ofText t = .ok m) ↔ ∀ e ∈ members, e.1 ∉ memberNames → e.2.hasTag = false := by
  constructor
  · rintro ⟨m, hm⟩
    exact untagged_of_ofText holds hm
  · intro untagged
    obtain ⟨m, hm, -⟩ := ofText_of_typed holds unquoted typed untagged
    exact ⟨m, hm⟩

/-! ### Unknown members -/

/-- Each unknown member is there with its value. -/
def Keeps (m : Manifest) (members : List (String × Value)) : Prop :=
  ∀ e ∈ members, e.1 ∉ memberNames → m.extra? e.1 = some e.2

theorem nodup_of_ofText {members : List (String × Value)} {t : String}
    (holds : Value.ofText t = .ok (.record members)) : (members.map Prod.fst).Nodup := by
  obtain ⟨after, hroot, -⟩ := whole_eq_ok.1 holds
  exact Value.nodup_of_unrepeated
    (repetition?_eq_none_of_yields (rfl : anyReading.mayRepeat = false) hroot)

theorem keeps_of_extra {members : List (String × Value)} {m : Manifest}
    (nodup : (members.map Prod.fst).Nodup) (h : m.extra = .ofList (unknownOf members)) :
    m.Keeps members := by
  intro e he unknown
  have nodup : ((unknownOf members).map Prod.fst).Nodup :=
    nodup.sublist ((List.filter_sublist).map _)
  rw [extra?, h]
  exact Dictionary.get?_ofList_of_mem nodup (List.mem_filter.2 ⟨he, decide_eq_true unknown⟩)

/-! ### Writing -/

theorem isWritable_record {members : List (String × Value)} :
    (Value.record members).isWritable = true ↔ ∀ e ∈ members, e.2.isWritable = true := by
  rw [Value.record, Value.isWritable_of_texts, List.forall_mem_map]
  intro e he
  obtain ⟨member, -, rfl⟩ := List.mem_map.1 he
  exact ⟨member.1, rfl⟩

theorem isRecord_writable {typed typed' : String → Value → Prop} {v : Value} (h : v.IsRecord typed)
    (hv : v.isWritable = true)
    (himp : ∀ {name w}, typed name w → w.isWritable = true → typed' name w) :
    v.IsRecord typed' := by
  obtain ⟨members, rfl, hmembers⟩ := h
  exact ⟨members, rfl, fun e he => himp (hmembers e he) (isWritable_record.1 hv e he)⟩

theorem Typed.writable {name : String} {v : Value} (h : Typed (fun _ => True) name v)
    (hv : v.isWritable = true) : Typed (·.isWritable = true) name v := by
  have values {v : Value} (h : v.IsRecord fun _ _ => True) (hv : v.isWritable = true) :
      v.IsRecord fun _ w => w.isWritable = true := isRecord_writable h hv fun _ hw => hw
  unfold Typed at h ⊢
  split
  · exact isRecord_writable h hv values
  · exact h
  · exact h.imp_right fun h => values h hv
  all_goals first | exact h | trivial

theorem key_of_optional {name : String} {encode : α → Value} {a : Option α} :
    ∀ e ∈ optionalMember name encode a, ∃ key, e.1 = .string key := by
  intro e he
  obtain ⟨x, -, rfl⟩ := Option.map_eq_some_iff.1 (Option.mem_toList.1 he)
  exact ⟨name, rfl⟩

theorem writable_optional {name : String} {encode : α → Value} {a : Option α} :
    (∀ e ∈ optionalMember name encode a, e.2.isWritable = true) ↔
      ∀ x ∈ a, (encode x).isWritable = true := by
  cases a with
  | none => exact ⟨fun _ => nofun, fun _ => nofun⟩
  | some x => simp [optionalMember]

theorem isWritable_dictionary {encode : α → Value} {d : Dictionary α} :
    (d.toValue encode).isWritable = true ↔ d.Holds fun a => (encode a).isWritable = true := by
  rw [Dictionary.toValue, Value.isWritable_of_texts, List.forall_mem_map]
  · rfl
  · rw [List.forall_mem_map]
    exact fun e _ => ⟨e.1, rfl⟩

theorem isWritable_texts (texts : SignatureTexts) : texts.toValue.isWritable = true := by
  rw [SignatureTexts.toValue, Value.isWritable_of_texts, List.forall_mem_cons, writable_optional]
  · exact ⟨rfl, fun _ _ => rfl⟩
  · exact List.forall_mem_cons.2 ⟨⟨_, rfl⟩, key_of_optional⟩

/-- A manifest can be written if and only if the values in it can. -/
theorem isWritable_toValue {m : Manifest} : m.toValue.isWritable = true ↔
    m.Holds (·.isWritable = true) ∧ m.extra.Holds (·.isWritable = true) := by
  have extraKeys : ∀ e ∈ m.extra.entries.map fun e => (Value.string e.1, e.2),
      ∃ key, e.1 = .string key := by
    rw [List.forall_mem_map]
    exact fun e _ => ⟨e.1, rfl⟩
  rw [toValue, Value.isWritable_of_texts]
  · simp only [List.forall_mem_append, List.forall_mem_singleton, List.forall_mem_map,
      writable_optional, isWritable_dictionary]
    constructor
    · rintro ⟨⟨⟨⟨⟨⟨⟨-, flavors⟩, -⟩, -⟩, -⟩, -⟩, metadata⟩, extra⟩
      exact ⟨⟨flavors, metadata⟩, extra⟩
    · rintro ⟨⟨flavors, metadata⟩, extra⟩
      exact ⟨⟨⟨⟨⟨⟨⟨fun _ _ => rfl, flavors⟩, fun _ _ => rfl⟩, fun _ _ => rfl⟩,
        fun texts _ => isWritable_texts texts⟩, fun _ _ => rfl⟩, metadata⟩, extra⟩
  · simp only [List.forall_mem_append, List.forall_mem_singleton]
    exact ⟨⟨⟨⟨⟨⟨⟨key_of_optional, ⟨_, rfl⟩⟩, key_of_optional⟩, key_of_optional⟩, key_of_optional⟩,
      key_of_optional⟩, key_of_optional⟩, extraKeys⟩

/-- Whether a manifest can be written does not depend on its signature. -/
theorem isWritable_setSignature (m : Manifest) (signature : Option Signature) :
    (m.setSignature signature).toValue.isWritable = m.toValue.isWritable := by
  have same : (m.setSignature signature).Holds (·.isWritable = true) ↔
      m.Holds (·.isWritable = true) :=
    ⟨fun h => ⟨h.flavors, h.metadata⟩, fun h => ⟨h.flavors, h.metadata⟩⟩
  rw [Bool.eq_iff_iff, isWritable_toValue, isWritable_toValue, same]
  rfl

/-- Writing a manifest answers, unless a value in it cannot be written. -/
theorem toText_cases (m : Manifest) :
    (m.toValue.isWritable = true ∧ ∃ text, m.toText = .ok text) ∨
    (m.toValue.isWritable = false ∧ ∃ message, m.toText = .error (.serialization message)) := by
  have writable := Value.isOk_toText m.toValue
  rw [toText]
  cases written : m.toValue.toText with
  | ok text =>
    rw [written] at writable
    exact .inl ⟨writable.symm, text, rfl⟩
  | error fault =>
    rw [written] at writable
    exact .inr ⟨writable.symm, fault.message, rfl⟩

theorem holds_of_extra {kind : Value → Prop} {members : List (String × Value)} {m : Manifest}
    (h : m.extra = .ofList (unknownOf members)) (hmembers : ∀ e ∈ members, kind e.2) :
    m.extra.Holds kind := by
  intro e he
  rw [h] at he
  exact hmembers e (List.mem_filter.1 (Dictionary.mem_ofList he)).1

/-- Another signature may be recorded in a manifest that was read, and the manifest written and read
again. -/
theorem ofText_toText_setSignature {members : List (String × Value)} {t : String} {m : Manifest}
    (hm : ofText t = .ok m) (holds : m.Holds (·.isWritable = true))
    (extra : m.extra = .ofList (unknownOf members))
    (writable : ∀ e ∈ members, e.2.isWritable = true) {signature : Option Signature}
    (faithful : (m.setSignature signature).toValue.ReadsBack) :
    ∃ t', (m.setSignature signature).toText = .ok t' ∧
      ofText t' = .ok (m.setSignature signature) := by
  have hwritable : (m.setSignature signature).toValue.isWritable = true :=
    isWritable_toValue.2 ⟨⟨holds.flavors, holds.metadata⟩, holds_of_extra extra writable⟩
  obtain ⟨-, t', written⟩ | ⟨notWritable, -⟩ := (m.setSignature signature).toText_cases
  · refine ⟨t', written, ofText_of_value ?_ ?_ (faithful t' (eq_ok_of_mapError written))⟩
    · exact fun e he => (unknown_of_ofText hm e he).1
    · exact fun e he => (unknown_of_ofText hm e he).2
  · cases hwritable.symm.trans notWritable

/-- A manifest whose known members have their types is read if and only if no unknown member has a
tag. Each unknown member is then there with its value; it still is after another signature was
recorded, and the manifest was written and read again.

No scalar may be both quoted and tagged as nothing. Such a scalar stands for nothing, but where a
member may be left out, as metadata may, it is not taken for one that is, and the manifest is
refused. -/
theorem unknown_kept {members : List (String × Value)} {t : String}
    (holds : Value.ofText t = .ok (.record members))
    (unquoted : (Document.ofText t).root.quotesNull = false)
    (typed : ∀ e ∈ members, Typed (fun _ => True) e.1 e.2) :
    ((∃ m, ofText t = .ok m) ↔ ∀ e ∈ members, e.1 ∉ memberNames → e.2.hasTag = false) ∧
    ∀ m, ofText t = .ok m → m.Keeps members ∧
      ((Value.record members).isWritable = true → ∀ signature,
        (m.setSignature signature).toValue.ReadsBack →
          ∃ t', (m.setSignature signature).toText = .ok t' ∧
            ofText t' = .ok (m.setSignature signature) ∧
            (m.setSignature signature).Keeps members) := by
  refine ⟨ofText_isOk_iff holds unquoted typed, ?_⟩
  intro m hm
  have untagged := untagged_of_ofText holds hm
  have keeps {m' : Manifest} (h : m'.extra = .ofList (unknownOf members)) : m'.Keeps members :=
    keeps_of_extra (nodup_of_ofText holds) h
  refine ⟨?_, ?_⟩
  · obtain ⟨m', hm', extra, -⟩ := ofText_of_typed holds unquoted typed untagged
    obtain rfl := Except.ok.inj (hm.symm.trans hm')
    exact keeps extra
  · intro writable signature faithful
    -- The manifest is read once more, now with what is known of the values in it.
    have hmembers := isWritable_record.1 writable
    obtain ⟨m', hm', extra, hvalues⟩ := ofText_of_typed holds unquoted
      (fun e he => (typed e he).writable (hmembers e he)) untagged
    obtain rfl := Except.ok.inj (hm.symm.trans hm')
    obtain ⟨t', written, read⟩ := ofText_toText_setSignature hm hvalues extra hmembers faithful
    exact ⟨t', written, read, keeps extra⟩

/-- A manifest with unknown members in it and in its signature. -/
def foreignText : String :=
  "owner: [1, {a: ~}]
flavors:
  onnx:
    opset: 17
signature:
  params: null
  inputs: '['
" ++
    "metadata:
model_uuid: m-1
? ''
: true
"

def foreignMembers : List (String × Value) :=
  [("owner", .sequence [.integer 1, .mapping [(.string "a", .null)]]),
    ("flavors", .record [("onnx", .record [("opset", .integer 17)])]),
    ("signature", .record [("params", .null), ("inputs", .string "[")]),
    ("metadata", .null), ("model_uuid", .string "m-1"), ("", .bool true)]

/-- What is read of it. -/
def foreign : Manifest where
  artifactPath := none
  flavors := .ofList [("onnx", .ofList [("opset", .integer 17)])]
  modelId := some "m-1"
  runId := none
  signature := some ⟨"[", none⟩
  created := none
  metadata := none
  extra := .ofList [("", .bool true),
    ("owner", .sequence [.integer 1, .mapping [(.string "a", .null)]])]

def foreignSignature : Signature :=
  ⟨⟨[.column ⟨.long, some "a"⟩], by decide, by decide⟩, none⟩

def foreignWritten : String :=
  "flavors:\n  onnx:\n    opset: 17\nmodel_uuid: m-1\nsignature:\n" ++
    "  inputs: '[\x7b\"type\": \"long\", \"name\": \"a\"\x7d]'\n'': true\nowner:\n- 1\n- a: null\n"

/-- A manifest with an unknown member that has a tag. -/
def taggedText : String := "flavors: \x7b\x7d\ncustom: !secret abc\n"

def taggedMembers : List (String × Value) :=
  [("flavors", .record []), ("custom", .tagged "secret" (.string "abc"))]

theorem foreign_runs :
    (Value.ofText foreignText).toOption = some (.record foreignMembers) ∧
    (Document.ofText foreignText).root.quotesNull = false ∧
    (ofText foreignText).toOption = some foreign ∧
    (Value.record foreignMembers).isWritable = true ∧
    (foreign.setSignature (some foreignSignature)).toValue.toText.toOption = some foreignWritten ∧
    (Value.ofText foreignWritten).toOption =
      some (foreign.setSignature (some foreignSignature)).toValue ∧
    (Value.ofText taggedText).toOption = some (.record taggedMembers) ∧
    (ofText taggedText).toOption = none := by
  decide +kernel

theorem foreign_typed : ∀ e ∈ foreignMembers, Typed (fun _ => True) e.1 e.2 := by
  have flavors : Typed (fun _ => True) "flavors"
      (.record [("onnx", .record [("opset", .integer 17)])]) :=
    ⟨_, rfl, List.forall_mem_singleton.2 ⟨_, rfl, fun _ _ => trivial⟩⟩
  have signature : Typed (fun _ => True) "signature"
      (.record [("params", .null), ("inputs", .string "[")]) := by
    refine .inr ⟨_, rfl, ?_, by decide⟩
    refine List.forall_mem_cons.2 ⟨⟨nofun, nofun⟩, List.forall_mem_singleton.2 ⟨?_, nofun⟩⟩
    exact fun _ => ⟨_, rfl⟩
  intro e he
  simp only [foreignMembers, List.mem_cons, List.not_mem_nil, or_false] at he
  rcases he with rfl | rfl | rfl | rfl | rfl | rfl
  · trivial
  · exact flavors
  · exact signature
  · exact .inl rfl
  · exact .inr ⟨_, rfl⟩
  · trivial

theorem unknown_kept_foreign :
    foreign.Keeps foreignMembers ∧
    ∃ t', (foreign.setSignature (some foreignSignature)).toText = .ok t' ∧
      ofText t' = .ok (foreign.setSignature (some foreignSignature)) ∧
      (foreign.setSignature (some foreignSignature)).Keeps foreignMembers := by
  obtain ⟨holds, unquoted, read, writable, written, again, -⟩ := foreign_runs
  obtain ⟨-, kept⟩ := unknown_kept (eq_ok_of_toOption holds) unquoted foreign_typed
  obtain ⟨keeps, rewritten⟩ := kept foreign (eq_ok_of_toOption read)
  exact ⟨keeps, rewritten writable _ (readsBack_of_toOption written again)⟩

/-- A manifest in which an unknown member has a tag is not read, although it is a mapping and its
known members have their types. -/
theorem tagged_not_read :
    Value.ofText taggedText = .ok (.record taggedMembers) ∧
    (∀ e ∈ taggedMembers, Typed (fun _ => True) e.1 e.2) ∧
    ("custom", .tagged "secret" (.string "abc")) ∈ taggedMembers ∧ "custom" ∉ memberNames ∧
    ∀ m, ofText taggedText ≠ .ok m := by
  obtain ⟨-, -, -, -, -, -, holds, unread⟩ := foreign_runs
  refine ⟨eq_ok_of_toOption holds, ?_, by decide, by decide, fun m hm => ?_⟩
  · exact List.forall_mem_cons.2 ⟨⟨[], rfl, nofun⟩, List.forall_mem_singleton.2 trivial⟩
  · rw [hm] at unread
    cases unread

end Manifest

end ModelShelf
