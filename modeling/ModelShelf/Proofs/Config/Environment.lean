import ModelShelf.Command.Run
import ModelShelf.Proofs.Results

/-!
Settings of the environment. Each setting has a variable of its own, which settles it when it is set
to a text of its type. A configuration is read where all variables are well-formed, and has what
each of them settles. Where one of them is not, the built-in configuration takes its place, and what
the other variables settle is lost; only the command line still goes by the variable of tracking.
-/

namespace ModelShelf

/-! ### One variable -/

section Setting

variable {α : Type} {read : String → Option α} {default a : α} {text : Option String}

/-- What a variable settles by its own text: the value of the text, if it is set and has one, and
otherwise the default. -/
def settled (read : String → Option α) (default : α) (text : Option String) : α :=
  (text.bind read).getD default

/-- A variable is well-formed if it is not set, or set to a text that has a value. -/
def WellFormed (read : String → Option α) (text : Option String) : Prop :=
  ∀ raw, text = some raw → ∃ a, read raw = some a

/-- A reader that takes the default for a variable that is not set, and fails for a text without a
value, answers what is settled. -/
theorem elim_eq_some : text.elim (some default) read = some a ↔
    WellFormed read text ∧ a = settled read default text := by
  cases text with
  | none =>
    have unset : WellFormed read none := fun raw h => by cases h
    rw [and_iff_right unset, Option.elim_none, Option.some.injEq]
    exact eq_comm
  | some raw =>
    rw [Option.elim_some]
    constructor
    · intro h
      refine ⟨fun _ same => ⟨a, Option.some.inj same ▸ h⟩, ?_⟩
      rw [settled, Option.bind_some, h, Option.getD_some]
    · rintro ⟨wellFormed, rfl⟩
      obtain ⟨b, hb⟩ := wellFormed raw rfl
      rw [settled, Option.bind_some, hb, Option.getD_some]

theorem settled_of_malformed (h : ¬ WellFormed read text) :
    settled read default text = default := by
  cases text with
  | none => rfl
  | some raw =>
    have none : read raw = none := by
      by_contra hvalue
      obtain ⟨b, hb⟩ := Option.ne_none_iff_exists'.1 hvalue
      exact h fun _ same => ⟨b, Option.some.inj same ▸ hb⟩
    rw [settled, Option.bind_some, none, Option.getD_none]

end Setting

/-- The value of a text of a variable. -/
def Variable.value? {α : Type} (v : Variable α) (raw : String) : Option α := (v.read raw).toOption

theorem Variable.toOption_get {α : Type} (v : Variable α) (env : Environment) :
    (v.get env).toOption = (env v.name).elim (some v.default) v.value? := by
  rw [get]
  cases env v.name with
  | none => rfl
  | some raw =>
    rw [Option.elim_some, value?]
    dsimp only
    cases v.read raw <;> rfl

theorem Switch.toOption_get (s : Switch) (env : Environment) :
    (s.get env).toOption = (env s.name).elim (some s.default) parse? := by
  rw [get]
  cases env s.name with
  | none => rfl
  | some raw =>
    rw [Option.elim_some]
    dsimp only
    cases parse? raw <;> rfl

/-- The texts of truth values are two words and two digits, in any case. -/
theorem Switch.exists_parse?_iff {raw : String} :
    (∃ b, parse? raw = some b) ↔ raw.map Char.toLower ∈ ["true", "1", "false", "0"] := by
  rw [parse?]
  generalize raw.map Char.toLower = word
  split <;> simp_all

/-! ### All variables -/

namespace Config

variable {env : Environment} {config : Config}

/-- The configuration in which each variable settles its own setting. -/
def ofVariables (env : Environment) : Config where
  trackingUri :=
    settled trackingVariable.value? trackingVariable.default (env trackingVariable.name)
  codeDirectory := settled codeVariable.value? codeVariable.default (env codeVariable.name)
  validatesCode := settled Switch.parse? validationSwitch.default (env validationSwitch.name)

/-- Every variable of the environment is well-formed. -/
structure IsWellFormed (env : Environment) : Prop where
  trackingUri : WellFormed trackingVariable.value? (env trackingVariable.name)
  codeDirectory : WellFormed codeVariable.value? (env codeVariable.name)
  validatesCode : WellFormed Switch.parse? (env validationSwitch.name)

/-- Any text will do for a place or a name, so that only the switch can be malformed. -/
theorem isWellFormed_iff :
    IsWellFormed env ↔ WellFormed Switch.parse? (env validationSwitch.name) :=
  ⟨IsWellFormed.validatesCode, fun h => ⟨fun raw _ => ⟨raw, rfl⟩, fun raw _ => ⟨raw, rfl⟩, h⟩⟩

/-- A configuration is read where all variables are well-formed, and has what they settle. -/
theorem ofEnvironment_eq_ok :
    ofEnvironment env = .ok config ↔ IsWellFormed env ∧ config = ofVariables env := by
  simp only [ofEnvironment, bind_eq_ok, ← toOption_eq_some (x := Variable.get _ _),
    ← toOption_eq_some (x := Switch.get _ _), Variable.toOption_get, Switch.toOption_get,
    elim_eq_some]
  constructor
  · rintro ⟨_, ⟨htracking, rfl⟩, _, ⟨hcode, rfl⟩, _, ⟨hvalidation, rfl⟩, h⟩
    exact ⟨⟨htracking, hcode, hvalidation⟩, (Except.ok.inj h).symm⟩
  · rintro ⟨⟨htracking, hcode, hvalidation⟩, rfl⟩
    exact ⟨_, ⟨htracking, rfl⟩, _, ⟨hcode, rfl⟩, _, ⟨hvalidation, rfl⟩, rfl⟩

theorem ofEnvironmentOrBuiltin_of_isWellFormed (h : IsWellFormed env) :
    ofEnvironmentOrBuiltin env = ofVariables env := by
  rw [ofEnvironmentOrBuiltin, ofEnvironment_eq_ok.2 ⟨h, rfl⟩]
  rfl

theorem ofEnvironmentOrBuiltin_of_malformed (h : ¬ IsWellFormed env) :
    ofEnvironmentOrBuiltin env = builtin := by
  rw [ofEnvironmentOrBuiltin]
  cases hread : ofEnvironment env with
  | ok config => exact absurd (ofEnvironment_eq_ok.1 hread).1 h
  | error e => rfl

/-- The command line takes the place of runs from its option, or else from the variable alone. -/
theorem trackingUri_configOf (env : Environment) (uri : Option String) :
    (Outcome.configOf env uri).trackingUri = uri.getD (ofVariables env).trackingUri := by
  rw [Outcome.configOf]
  cases uri with
  | some uri => rfl
  | none =>
    rw [Option.none_or, Option.getD_none]
    cases htext : env trackingVariable.name with
    | some text =>
      simp only [ofVariables, htext]
      rfl
    | none =>
      by_cases h : IsWellFormed env
      · rw [ofEnvironmentOrBuiltin_of_isWellFormed h]
      · rw [ofEnvironmentOrBuiltin_of_malformed h]
        simp only [ofVariables, htext]
        rfl

/-- A configuration is read exactly where every variable that is set has a value, and each setting
is then what its own variable settles. The configuration that is taken in any case agrees with the
variables there, and otherwise exactly if those of the place of runs and of the code directory ask
for nothing but the defaults: it is the built-in one as soon as the switch is malformed. -/
theorem ofEnvironmentOrBuiltin_eq_iff (env : Environment) :
    (∀ config, ofEnvironment env = .ok config ↔ IsWellFormed env ∧ config = ofVariables env) ∧
    (IsWellFormed env ↔ ∀ raw, env validationSwitch.name = some raw →
      raw.map Char.toLower ∈ ["true", "1", "false", "0"]) ∧
    (ofEnvironmentOrBuiltin env = ofVariables env ↔ IsWellFormed env ∨
      (ofVariables env).trackingUri = builtin.trackingUri ∧
        (ofVariables env).codeDirectory = builtin.codeDirectory) ∧
    (ofEnvironmentOrBuiltin env).validatesCode = (ofVariables env).validatesCode ∧
    (¬ IsWellFormed env → ofEnvironmentOrBuiltin env = builtin) ∧
    ∀ uri, (Outcome.configOf env uri).trackingUri = uri.getD (ofVariables env).trackingUri := by
  have switch (h : ¬ IsWellFormed env) : (ofVariables env).validatesCode = builtin.validatesCode :=
    settled_of_malformed (mt isWellFormed_iff.2 h)
  refine ⟨fun _ => ofEnvironment_eq_ok, ?truth, ?agrees, ?validates,
    ofEnvironmentOrBuiltin_of_malformed, trackingUri_configOf env⟩
  case truth => simp only [isWellFormed_iff, WellFormed, Switch.exists_parse?_iff]
  case agrees =>
    by_cases h : IsWellFormed env
    · exact iff_of_true (ofEnvironmentOrBuiltin_of_isWellFormed h) (.inl h)
    · rw [ofEnvironmentOrBuiltin_of_malformed h, or_iff_right h]
      constructor
      · intro heq
        rw [← heq]
        exact ⟨rfl, rfl⟩
      · rintro ⟨htracking, hcode⟩
        have hswitch := switch h
        generalize ofVariables env = config at htracking hcode hswitch
        obtain ⟨trackingUri, codeDirectory, validatesCode⟩ := config
        cases htracking
        cases hcode
        cases hswitch
        rfl
  case validates =>
    by_cases h : IsWellFormed env
    · rw [ofEnvironmentOrBuiltin_of_isWellFormed h]
    · rw [ofEnvironmentOrBuiltin_of_malformed h, switch h]

/-- Runs and code have places of their own, and the switch has a text that is no truth value. -/
def malformedSwitch : Environment := fun name =>
  [("MODELKIT_TRACKING_URI", "/data/runs"), ("MODELKIT_CODE_DIR", "src"),
    ("MODELKIT_VALIDATE_CODE_PATHS", "yes")].lookup name

theorem malformed_switch_discards_places :
    (ofVariables malformedSwitch).trackingUri = "/data/runs" ∧
    (ofVariables malformedSwitch).codeDirectory = "src" ∧
    (ofEnvironmentOrBuiltin malformedSwitch).trackingUri = "./mlruns" ∧
    (ofEnvironmentOrBuiltin malformedSwitch).codeDirectory = "code" ∧
    ¬ ∀ env, ofEnvironmentOrBuiltin env = ofVariables env := by
  have tracked : (ofVariables malformedSwitch).trackingUri = "/data/runs" := rfl
  have malformed : ¬ IsWellFormed malformedSwitch := by
    intro h
    exact absurd (Switch.exists_parse?_iff.1 (h.validatesCode "yes" rfl)) (by decide +kernel)
  have builtinTaken := ofEnvironmentOrBuiltin_of_malformed malformed
  refine ⟨tracked, rfl, ?_, ?_, fun always => ?_⟩
  · rw [builtinTaken]
    rfl
  · rw [builtinTaken]
    rfl
  · rw [← always, builtinTaken] at tracked
    exact absurd tracked (by decide)

end Config

end ModelShelf
