import ModelShelf.Proofs.Store.Readers
import ModelShelf.Proofs.Store.Saving

/-!
Flavors of saved models. A manifest is built by edits; whatever else they record and wherever it is
saved, the configuration that was last given for a flavor is found there, and none was given for a
flavor that the model does not have.
-/

namespace ModelShelf

open Resolver (succeeds eq_ok_of_succeeds)
open Yaml (Value)

variable {t t' : FileTree} {path : Path} {m : Manifest}

/-! ### Edits -/

/-- A step in which a manifest is built. -/
inductive Manifest.Edit where
  | addFlavor (name : String) (config : FlavorConfig)
  | addMetadata (key : String) (value : Value)
  | setSignature (signature : Option Signature)
  | setExtra (key : String) (value : Value)

namespace Manifest

def edit (m : Manifest) : Edit → Manifest
  | .addFlavor name config => m.addFlavor name config
  | .addMetadata key value => m.addMetadata key value
  | .setSignature signature => m.setSignature signature
  | .setExtra key value => m.setExtra key value

/-- The manifest after edits, from the first to the last. -/
def edited (m : Manifest) (edits : List Edit) : Manifest := edits.foldl edit m

namespace Edit

/-- The configuration that an edit gives for a flavor. -/
def config? (flavor : String) : Edit → Option FlavorConfig
  | .addFlavor name config => if name = flavor then some config else none
  | _ => none

/-- An edit that sets no member under the name of a known one, and none with tags. -/
def Readable : Edit → Prop
  | .setExtra key value => key ∉ memberNames ∧ value.hasTag = false
  | _ => True

instance (e : Edit) : Decidable e.Readable :=
  match e with
  | .setExtra key value =>
    inferInstanceAs (Decidable (key ∉ memberNames ∧ value.hasTag = false))
  | .addFlavor .. | .addMetadata .. | .setSignature .. => inferInstanceAs (Decidable True)

end Edit

/-- The configurations that edits give for a flavor, from the first to the last. -/
def configs (edits : List Edit) (flavor : String) : List FlavorConfig :=
  edits.filterMap (Edit.config? flavor)

theorem get?_flavors_edit (m : Manifest) (e : Edit) (flavor : String) :
    (m.edit e).flavors.get? flavor = (e.config? flavor).or (m.flavors.get? flavor) := by
  cases e with
  | addFlavor name config =>
    rw [edit, addFlavor, Dictionary.get?_insert, Edit.config?]
    by_cases h : name = flavor
    · rw [if_pos h, if_pos h.symm, Option.some_or]
    · rw [if_neg h, if_neg (Ne.symm h), Option.none_or]
  | _ => rfl

/-- The last configuration that is given for a flavor takes the place of all earlier ones. -/
theorem get?_flavors_edited (m : Manifest) (edits : List Edit) (flavor : String) :
    (m.edited edits).flavors.get? flavor =
      (configs edits flavor).getLast?.or (m.flavors.get? flavor) := by
  induction edits generalizing m with
  | nil => rfl
  | cons e rest ih =>
    rw [edited, List.foldl_cons, ← edited, ih, get?_flavors_edit, ← Option.or_assoc, configs,
      configs, List.filterMap_cons]
    cases e.config? flavor with
    | none => rw [Option.or_none]
    | some config =>
      rw [List.getLast?_cons]
      cases (rest.filterMap (Edit.config? flavor)).getLast? <;> rfl

/-- What is said of the unknown members of a manifest holds after an edit, if it holds of the one
that the edit sets. -/
theorem extra_edit {holds : String × Value → Prop} {e : Edit} (h : ∀ e ∈ m.extra.entries, holds e)
    (hset : ∀ key value, e = .setExtra key value → holds (key, value)) :
    ∀ entry ∈ (m.edit e).extra.entries, holds entry := by
  cases e with
  | setExtra key value =>
    intro entry hentry
    rcases Dictionary.mem_put hentry with rfl | hentry
    · exact hset key value rfl
    · exact h entry hentry
  | _ => exact h

theorem extra_edited {holds : String × Value → Prop} (m : Manifest) (edits : List Edit)
    (h : ∀ e ∈ m.extra.entries, holds e)
    (hset : ∀ key value, .setExtra key value ∈ edits → holds (key, value)) :
    ∀ entry ∈ (m.edited edits).extra.entries, holds entry := by
  induction edits generalizing m with
  | nil => exact h
  | cons e rest ih =>
    refine ih (m.edit e) (extra_edit h fun key value heq => hset key value ?_)
      fun key value hmem => ?_
    · exact heq ▸ List.mem_cons_self
    · exact hset key value (List.mem_cons_of_mem e hmem)

/-- The unknown members of a manifest that was built by readable edits can be read back. -/
theorem unknown_edited {edits : List Edit} (readable : ∀ e ∈ edits, e.Readable) (modelId : String)
    (now : Time.Instant) : ∀ e ∈ ((new modelId now).edited edits).extra.entries,
      e.1 ∉ memberNames ∧ e.2.hasTag = false :=
  extra_edited _ edits nofun fun _ _ hmem => readable _ hmem

end Manifest

/-! ### Saving and looking up -/

/-- The manifest of a model that was saved is written in its directory. -/
theorem read_of_saveModel (saved : saveModel path m t = .ok () t') :
    ∃ text, m.toText = .ok text ∧ t'.read (path.join manifestName) = .ok text.toUTF8 := by
  obtain ⟨-, _, text, -, htext, hwrite⟩ := eq_ok_of_saveModel saved
  obtain ⟨g, front, name, hg, -, -, hfile, -⟩ := Change.lands_of_writeBelow hwrite
  exact ⟨text, htext, FileTree.read_join plain_manifestName hg hfile⟩

/-- The flavors of a model that was saved are those of its manifest. -/
theorem flavorConfig_of_saveModel
    (unknown : ∀ e ∈ m.extra.entries, e.1 ∉ Manifest.memberNames ∧ e.2.hasTag = false)
    (faithful : m.toValue.ReadsBack) (saved : saveModel path m t = .ok () t') (flavor : String) :
    flavorConfig t' path flavor = m.flavor flavor := by
  obtain ⟨text, written, hread⟩ := read_of_saveModel saved
  have readBack : Manifest.ofText text = .ok m := Manifest.ofText_toText
    (fun e he => (unknown e he).1) (fun e he => (unknown e he).2) faithful written
  rw [flavorConfig_of_read flavor hread,
    Manifest.ofBytes_of_text (Text.decodeUtf8_toUTF8 text), readBack]
  rfl

/-- What is found for a flavor of a saved model is what was last given for it, whatever else was
recorded. -/
theorem flavorConfig_edited {modelId : String} {now : Time.Instant}
    {edits : List Manifest.Edit} (readable : ∀ e ∈ edits, e.Readable)
    (faithful : ((Manifest.new modelId now).edited edits).toValue.ReadsBack)
    (saved : saveModel path ((Manifest.new modelId now).edited edits) t = .ok () t')
    (flavor : String) :
    (∀ config, (Manifest.configs edits flavor).getLast? = some config →
      flavorConfig t' path flavor = .ok config) ∧
    (Manifest.configs edits flavor = [] → flavorConfig t' path flavor =
      .error (.notFound ("Model does not have the \"" ++ flavor ++ "\" flavor"))) := by
  have found : ((Manifest.new modelId now).edited edits).flavors.get? flavor =
      (Manifest.configs edits flavor).getLast? := by
    rw [Manifest.get?_flavors_edited]
    exact Option.or_none
  rw [flavorConfig_of_saveModel (Manifest.unknown_edited readable modelId now) faithful saved,
    Manifest.flavor, found]
  refine ⟨fun config hconfig => ?_, fun hnone => ?_⟩
  · rw [hconfig]
  · rw [hnone]
    rfl

/-- The configuration of a flavor with a tag deep inside it. -/
def pinnedConfig : FlavorConfig :=
  .ofList [("env", .mapping [(.string "pip", .sequence [.tagged "v" (.string "3"), .null])])]

/-- A flavor is given twice, and other things are recorded under its name. -/
def pinningEdits : List Manifest.Edit :=
  [.addFlavor "onnx" .empty, .setExtra "onnx" .null, .addFlavor "onnx" pinnedConfig,
    .addMetadata "onnx" (.bool true), .setSignature none]

def pinnedText : String :=
  "flavors:\n  onnx:\n    env:\n      pip:\n      - !v '3'\n      - null\nmodel_uuid: m\n" ++
    "utc_time_created: 1970-01-01 00:00:00.000000\nmetadata:\n  onnx: true\nonnx: null\n"

theorem pinned_runs :
    ((Manifest.new "m" ⟨0, 0⟩).edited pinningEdits).toValue.toText.toOption = some pinnedText ∧
    (Value.ofText pinnedText).toOption =
      some ((Manifest.new "m" ⟨0, 0⟩).edited pinningEdits).toValue ∧
    succeeds (saveModel ⟨"b/../missing/c"⟩ ((Manifest.new "m" ⟨0, 0⟩).edited pinningEdits)
      olderModels) (fun _ _ => true) = true := by
  decide +kernel

theorem flavorConfig_pinned : ∃ t', saveModel ⟨"b/../missing/c"⟩
      ((Manifest.new "m" ⟨0, 0⟩).edited pinningEdits) olderModels = .ok () t' ∧
    flavorConfig t' ⟨"b/../missing/c"⟩ "onnx" = .ok pinnedConfig ∧
    flavorConfig t' ⟨"b/../missing/c"⟩ "spark" =
      .error (.notFound "Model does not have the \"spark\" flavor") := by
  obtain ⟨written, read, succeeded⟩ := pinned_runs
  obtain ⟨_, t', saved, -⟩ := eq_ok_of_succeeds succeeded
  have found := flavorConfig_edited (by decide) (readsBack_of_toOption written read) saved
  exact ⟨t', saved, (found "onnx").1 _ rfl, (found "spark").2 rfl⟩

end ModelShelf
