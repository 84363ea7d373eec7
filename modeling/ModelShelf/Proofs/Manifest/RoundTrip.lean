import ModelShelf.Manifest.Printer
import ModelShelf.Manifest.Reader
import ModelShelf.Proofs.Results
import ModelShelf.Proofs.Yaml.Readings

/-!
A manifest is read back from its text. What is written is a mapping of members, and every reader of
a member agrees with the value that is written for it; what is left out stays absent. Unknown
members come back as they were, provided that they have no tags, because the reader refuses those.
-/

namespace ModelShelf

open Yaml (Value Node Route Read Surroundings)
open Yaml.Read

variable {around : Surroundings} {jumps after : Nat}

/-- The text that is written for a value, if it is written, gives the value back. -/
def Yaml.Value.ReadsBack (v : Value) : Prop :=
  ∀ text, v.toText = .ok text → Value.ofText text = .ok v

theorem readsBack_of_toOption {v : Value} {text : String} (written : v.toText.toOption = some text)
    (read : (Value.ofText text).toOption = some v) : v.ReadsBack := by
  intro other h
  obtain rfl := Except.ok.inj ((eq_ok_of_toOption written).symm.trans h)
  exact eq_ok_of_toOption read

/-! ### Parts of a manifest -/

theorem yields_dictionary {read : Depth → Route → Node → Read α} {encode : α → Value}
    {entries : List (String × α)} (h : ∀ e ∈ entries, Agrees read (encode e.2) e.2)
    {depth : Depth} {route : Route} {known : List (Value × Value)} {list : List (Node × Node)}
    (hentries : Entries anyReading (value depth) around route known list jumps
      (entries.map fun e => (.string e.1, encode e.2)) after) (d : Dictionary α) :
    Yields (list.foldlM (fun d (key, item) => do
      let name ← text route key
      return d.insert name (← read depth (routeOf route key) item)) d) around jumps
      (entries.foldl (fun d (e : String × α) => d.insert e.1 e.2) d) after := by
  induction entries generalizing known list jumps d with
  | nil =>
    cases hentries
    exact yields_pure.2 ⟨rfl, rfl⟩
  | cons first rest ih =>
    obtain ⟨hfirst, hrest⟩ := List.forall_mem_cons.1 h
    cases hentries with
    | cons atKey _ atItem others =>
      rw [List.foldlM_cons]
      refine yields_bind.2
        ⟨_, _, yields_bind.2 ⟨_, _, (agrees_text _).yields atKey, ?_⟩, ih hrest others _⟩
      exact yields_bind.2 ⟨_, _, hfirst.yields atItem, yields_pure.2 ⟨rfl, rfl⟩⟩

theorem agrees_dictionary {read : Depth → Route → Node → Read α} {encode : α → Value}
    {d : Dictionary α} (h : ∀ e ∈ d.entries, Agrees read (encode e.2) e.2) :
    Agrees (dictionary read) (d.toValue encode) d := by
  refine agrees_entries fun hentries => ?_
  have hd := yields_dictionary h hentries .empty
  rwa [d.foldl_insert_entries] at hd

/-- A member that is left out when it is absent takes the members read so far on if it agrees when
it is present. -/
theorem membersAgree_optional {σ : Type} (member : Depth → σ → String → Route → Node → Read σ)
    (name : String) (encode : α → Value) (next : Option α → σ) (a : Option α)
    (h : ∀ x, Agrees (fun depth route node => member depth (next none) name route node) (encode x)
      (next (some x))) :
    MembersAgree member (next none) (optionalMember name encode a) (next a) := by
  cases a with
  | none => exact .nil
  | some x => exact .cons (h x) .nil

theorem Yaml.Read.Agrees.map {read : Depth → Route → Node → Read α} {v : Value} {a : α} {f : α → β}
    (h : Agrees read v a) :
    Agrees (fun depth route node => do return f (← read depth route node)) v (f a) :=
  ⟨fun hvalue => yields_bind.2 ⟨a, _, h.yields hvalue, yields_pure.2 ⟨rfl, rfl⟩⟩⟩

theorem getD_map_some (a : Option α) : (a.map some).getD none = a := by
  cases a <;> rfl

namespace SignatureTexts

theorem membersAgree (texts : SignatureTexts) :
    MembersAgree (fun _ => member) ⟨none, none⟩
      ((.string "inputs", .string texts.inputs) :: optionalMember "outputs" .string texts.outputs)
      ⟨some texts.inputs, texts.outputs.map some⟩ := by
  refine .cons (Agrees.map (Agrees.once (agrees_text texts.inputs)))
    (membersAgree_optional _ _ _ (fun outputs => (⟨some texts.inputs, outputs.map some⟩ : Fields))
      texts.outputs fun s => ?_)
  exact Agrees.map (Agrees.once (Agrees.optional (agrees_text s) trivial))

theorem agrees_ofNode (texts : SignatureTexts) : Agrees ofNode texts.toValue texts := by
  refine agrees_recordThen texts.membersAgree fun {_ _} => ?_
  refine yields_bind.2 ⟨texts.inputs, _, yields_pure.2 ⟨rfl, rfl⟩, yields_pure.2 ⟨?_, rfl⟩⟩
  rw [getD_map_some]

end SignatureTexts

namespace Manifest

/-- The names of the members that the library knows. -/
def memberNames : List String :=
  ["artifact_path", "flavors", "model_uuid", "run_id", "signature", "utc_time_created", "metadata"]

theorem member_of_not_mem {name : String} (unknown : name ∉ memberNames) (depth : Depth)
    (fields : Fields) :
    member depth fields name = fun route node => do
      return { fields with
        unknown := (name, ← valueAs unknownReading depth route node) :: fields.unknown } := by
  funext route node
  unfold member
  split <;> first | rfl | exact absurd (by decide) unknown

theorem membersAgree_unknown {entries : List (String × Value)}
    (unknown : ∀ e ∈ entries, e.1 ∉ memberNames) (untagged : ∀ e ∈ entries, e.2.hasTag = false)
    (fields : Fields) :
    MembersAgree member fields (entries.map fun (name, v) => (.string name, v))
      { fields with unknown := entries.reverse ++ fields.unknown } := by
  induction entries generalizing fields with
  | nil => exact .nil
  | cons first rest ih =>
    obtain ⟨hname, hnames⟩ := List.forall_mem_cons.1 unknown
    obtain ⟨hfirst, hrest⟩ := List.forall_mem_cons.1 untagged
    rw [List.reverse_cons, List.append_assoc, List.singleton_append]
    refine .cons ?_ (ih hnames hrest { fields with unknown := first :: fields.unknown })
    simp only [member_of_not_mem hname]
    exact (agrees_valueAs hfirst).map

/-- What the members of a written manifest say. -/
def readFields (m : Manifest) : Fields where
  artifactPath := m.artifactPath.map some
  flavors := some m.flavors
  modelId := m.modelId.map some
  runId := m.runId.map some
  signature := m.signature.map some
  created := m.created.map some
  metadata := m.metadata.map some
  unknown := m.extra.entries.reverse

theorem agrees_optional_text (s : String) :
    Agrees (fun _ => optional text) (.string s) (some s) :=
  (agrees_text s).optional trivial

/-- The members of a written manifest, with what is read after each of them. -/
theorem membersAgree {m : Manifest} (unknown : ∀ e ∈ m.extra.entries, e.1 ∉ memberNames)
    (untagged : ∀ e ∈ m.extra.entries, e.2.hasTag = false) :
    ∃ es, m.toValue = .mapping es ∧
      MembersAgree member ⟨none, none, none, none, none, none, none, []⟩ es m.readFields := by
  have artifactPath := membersAgree_optional member "artifact_path" .string
    (fun x => (⟨x.map some, none, none, none, none, none, none, []⟩ : Fields))
    m.artifactPath fun s => by
      simp only [member]
      exact (agrees_optional_text s).once.map
  have flavors : Agrees (fun depth route node => member depth
      ⟨m.artifactPath.map some, none, none, none, none, none, none, []⟩ "flavors" route node)
      (m.flavors.toValue (Dictionary.toValue id))
      ⟨m.artifactPath.map some, some m.flavors, none, none, none, none, none, []⟩ := by
    simp only [member]
    exact (agrees_dictionary fun _ _ => agrees_dictionary fun e _ => agrees_value e.2).once.map
  have modelId := membersAgree_optional member "model_uuid" .string
    (fun x => (⟨m.artifactPath.map some, some m.flavors, x.map some, none, none, none, none, []⟩ :
      Fields))
    m.modelId fun s => by
      simp only [member]
      exact (agrees_optional_text s).once.map
  have runId := membersAgree_optional member "run_id" .string
    (fun x => { m.readFields with
      runId := x.map some, signature := none, created := none, metadata := none, unknown := [] })
    m.runId fun s => by
      simp only [member]
      exact (agrees_optional_text s).once.map
  have signature := membersAgree_optional member "signature" SignatureTexts.toValue
    (fun x => { m.readFields with
      signature := x.map some, created := none, metadata := none, unknown := [] })
    m.signature fun texts => by
      simp only [member]
      exact (texts.agrees_ofNode.optional trivial).once.map
  have created := membersAgree_optional member "utc_time_created" .string
    (fun x => { m.readFields with created := x.map some, metadata := none, unknown := [] })
    m.created fun s => by
      simp only [member]
      exact (agrees_optional_text s).once.map
  have metadata := membersAgree_optional member "metadata" (Dictionary.toValue id)
    (fun x => { m.readFields with metadata := x.map some, unknown := [] })
    m.metadata fun d => by
      simp only [member]
      exact ((agrees_dictionary fun e _ => agrees_value e.2).optional trivial).once.map
  have rest := membersAgree_unknown unknown untagged { m.readFields with unknown := [] }
  rw [List.append_nil] at rest
  exact ⟨_, rfl, ((((((artifactPath.append (.cons flavors .nil)).append modelId).append
    runId).append signature).append created).append metadata).append rest⟩

/-- The unknown members, none of which may repeat a key. -/
theorem yields_unrepeated {entries es : List (String × Value)} :
    Yields (entries.mapM fun (name, v) => do
      match v.repetition? with
      | some key => mismatch (repetition key)
      | none => return (name, v)) around jumps es after ↔
      (∀ e ∈ entries, e.2.repetition? = none) ∧ es = entries ∧ after = jumps := by
  induction entries generalizing jumps after es with
  | nil =>
    rw [List.mapM_nil, yields_pure]
    exact ⟨fun h => ⟨nofun, h⟩, And.right⟩
  | cons first rest ih =>
    rw [List.mapM_cons, yields_bind, List.forall_mem_cons]
    constructor
    · rintro ⟨e, between, hfirst, hrest⟩
      simp only at hfirst
      split at hfirst
      · exact absurd hfirst (not_yields_mismatch _)
      · rename_i unrepeated
        obtain ⟨rfl, rfl⟩ := yields_pure.1 hfirst
        obtain ⟨others, behind, hothers, hlast⟩ := yields_bind.1 hrest
        obtain ⟨allUnrepeated, rfl, rfl⟩ := ih.1 hothers
        obtain ⟨rfl, rfl⟩ := yields_pure.1 hlast
        exact ⟨⟨unrepeated, allUnrepeated⟩, rfl, rfl⟩
    · rintro ⟨⟨hfirst, hrest⟩, rfl, rfl⟩
      refine ⟨first, _, ?_,
        yields_bind.2 ⟨rest, _, ih.2 ⟨hrest, rfl, rfl⟩, yields_pure.2 ⟨rfl, rfl⟩⟩⟩
      simp only [hfirst]
      exact yields_pure.2 ⟨rfl, rfl⟩

theorem yields_ofFields {m : Manifest}
    (unrepeated : ∀ e ∈ m.extra.entries, e.2.repetition? = none) :
    Yields (ofFields m.readFields) around jumps m jumps := by
  refine yields_bind.2 ⟨m.extra.entries, jumps, ?_, yields_pure.2 ⟨?_, rfl⟩⟩
  · rw [readFields, List.reverse_reverse]
    exact yields_unrepeated.2 ⟨unrepeated, rfl, rfl⟩
  · simp only [readFields, getD_map_some, Dictionary.ofList_entries, Option.getD_some]

theorem agrees_record {m : Manifest} (unknown : ∀ e ∈ m.extra.entries, e.1 ∉ memberNames)
    (untagged : ∀ e ∈ m.extra.entries, e.2.hasTag = false)
    (unrepeated : ∀ e ∈ m.extra.entries, e.2.repetition? = none) :
    Agrees (fun depth route node => recordThen "struct Model" depth route node
      ⟨none, none, none, none, none, none, none, []⟩ member ofFields) m.toValue m := by
  obtain ⟨es, hes, agree⟩ := membersAgree unknown untagged
  rw [hes]
  exact agrees_recordThen agree (yields_ofFields unrepeated)

/-- A text that holds the value of a manifest holds the manifest. -/
theorem ofText_of_value {m : Manifest} (unknown : ∀ e ∈ m.extra.entries, e.1 ∉ memberNames)
    (untagged : ∀ e ∈ m.extra.entries, e.2.hasTag = false) {t : String}
    (holds : Value.ofText t = .ok m.toValue) : ofText t = .ok m := by
  have unrepeated : ∀ e ∈ m.extra.entries, e.2.repetition? = none := fun e he =>
    repetition?_of_ofText holds (List.mem_append_right _ (List.mem_map.2 ⟨e, he, rfl⟩))
  have h : Yaml.read ofNode t = .ok m := (agrees_record unknown untagged unrepeated).read holds
  rw [ofText, h]
  rfl

/-- The text of a manifest gives the manifest back: its members, present or absent, and all unknown
ones. -/
theorem ofText_toText {m : Manifest} {t : String}
    (unknown : ∀ e ∈ m.extra.entries, e.1 ∉ memberNames)
    (untagged : ∀ e ∈ m.extra.entries, e.2.hasTag = false)
    (faithful : m.toValue.ReadsBack) (written : m.toText = .ok t) : ofText t = .ok m :=
  ofText_of_value unknown untagged (faithful t (eq_ok_of_mapError written))

/-- A manifest with a flavor, a signature that is no JSON, empty metadata and unknown members. -/
def sample : Manifest where
  artifactPath := none
  flavors := .ofList [("onnx", .ofList [("opset", .integer 17)])]
  modelId := some "m-1"
  runId := none
  signature := some ⟨"[", none⟩
  created := none
  metadata := some .empty
  extra := .ofList [("owner", .null), ("tags", .sequence [.string "true", .bool true])]

def sampleText : String :=
  "flavors:\n  onnx:\n    opset: 17\nmodel_uuid: m-1\nsignature:\n  inputs: '['\n" ++
    "metadata: \x7b\x7d\nowner: null\ntags:\n- 'true'\n- true\n"

theorem sample_runs : sample.toValue.toText.toOption = some sampleText ∧
    (Value.ofText sampleText).toOption = some sample.toValue := by decide +kernel

theorem sample_readsBack : sample.toValue.ReadsBack :=
  readsBack_of_toOption sample_runs.1 sample_runs.2

theorem ofText_sampleText : sample.toText = .ok sampleText ∧ ofText sampleText = .ok sample := by
  have written : sample.toText = .ok sampleText := by
    rw [toText, eq_ok_of_toOption sample_runs.1]
    rfl
  exact ⟨written, ofText_toText (by decide) (by decide) sample_readsBack written⟩

/-! ### Manifests that were read -/

/-- A known member leaves the unknown ones as they are. -/
theorem unknown_eq_of_member {depth : Depth} {fields fields' : Fields} {name : String}
    {route : Route} {node : Node} (known : name ∈ memberNames)
    (h : Yields (member depth fields name route node) around jumps fields' after) :
    fields'.unknown = fields.unknown := by
  unfold member at h
  split at h
  all_goals
    obtain ⟨x, between, -, h⟩ := yields_bind.1 h
    obtain ⟨rfl, -⟩ := yields_pure.1 h
    first | rfl | simp_all [memberNames]

theorem unknown_of_member {depth : Depth} {fields fields' : Fields} {name : String} {route : Route}
    {node : Node} (hfields : ∀ e ∈ fields.unknown, e.1 ∉ memberNames ∧ e.2.hasTag = false)
    (h : Yields (member depth fields name route node) around jumps fields' after) :
    ∀ e ∈ fields'.unknown, e.1 ∉ memberNames ∧ e.2.hasTag = false := by
  by_cases known : name ∈ memberNames
  · rwa [unknown_eq_of_member known h]
  · rw [member_of_not_mem known] at h
    obtain ⟨v, between, hv, h⟩ := yields_bind.1 h
    obtain ⟨rfl, -⟩ := yields_pure.1 h
    intro e he
    rcases List.mem_cons.1 he with rfl | he
    · exact ⟨known, hasTag_eq_false_of_yields rfl hv⟩
    · exact hfields e he

/-- The unknown members of a manifest that was read have other names than the known ones, and no
tags. -/
theorem unknown_of_ofText {m : Manifest} {t : String} (h : ofText t = .ok m) :
    ∀ e ∈ m.extra.entries, e.1 ∉ memberNames ∧ e.2.hasTag = false := by
  obtain ⟨after, hroot, -⟩ := whole_eq_ok.1 (eq_ok_of_mapError h)
  obtain ⟨fields, between, hfields, hm⟩ := exists_of_yields_recordThen
    (P := fun fields : Fields => ∀ e ∈ fields.unknown, e.1 ∉ memberNames ∧ e.2.hasTag = false)
    (fun _ he => (List.not_mem_nil he).elim) unknown_of_member hroot
  obtain ⟨es, behind, hes, hm⟩ := yields_bind.1 hm
  obtain ⟨-, rfl, -⟩ := yields_unrepeated.1 hes
  obtain ⟨rfl, -⟩ := yields_pure.1 hm
  intro e he
  exact hfields e (List.mem_reverse.1 (Dictionary.mem_ofList he))

end Manifest

end ModelShelf
