import UrlRebase.Pack.Start
import UrlRebase.Proofs.BlindPacking
import UrlRebase.Proofs.StoredFiles

/-!
# Packs do not depend on the past

A packer keeps what it found out about files from one call to the next, and a call that
fails leaves behind what it found out before.  A pack forgets all of it at its start, and
does not look at what is left, so it does what a pack of a packer does that was just made of
the same configuration, whatever was packed before and however the files have changed.
-/

namespace UrlRebase.Packer

open Workspace Work Blind

/-! ## Packers that are made -/

/-- The configuration that a packer is made of: what the configuration file says, with other
settings in place of its own. -/
def configuration (tools : Toolchain) (base : Text) (file : Setting)
    (settings : Setting.Members) : Work Setting.Members := do
  Work.lift (mergedConfig (← ({ tools, base } : Packer).loadConfig file) settings)

section Making

variable {tools : Toolchain} {base : Text} {file : Setting} {settings config : Setting.Members}
  {workspace after : Workspace} {packer : Packer}

/-- The packer that a configuration makes in a directory, and whether all of the configuration
could be taken over. -/
def configured (tools : Toolchain) (base current : Text) (config : Setting.Members) :
    Except Failure Unit × Packer :=
  (configureParts current config).run.run { tools, base }

def ofConfig (tools : Toolchain) (base : Text) (config : Setting.Members) : Work Packer := do
  let (outcome, packer) ← ({ tools, base } : Packer).configure config
  Work.lift outcome
  return packer

theorem start_eq :
    start tools base file settings =
      configuration tools base file settings >>= ofConfig tools base := by
  unfold start configuration
  rw [bind_assoc]
  rfl

theorem runs_liftM {α : Type} (action : StateM Workspace α) (workspace : Workspace) :
    Runs (liftM action : Work α) workspace (.ok (action.run workspace).1)
      (action.run workspace).2 := rfl

section Output

variable (houtput : ((config.at? "output".text).getD .null).truthy = true)
include houtput

/-- Taking a configuration with an output over depends on the current directory only, and
forgets what is known about files if all of it can be taken over. -/
theorem configure_run :
    (({ tools, base } : Packer).configure config).run workspace =
      (configured tools base workspace.files.current config,
        match (configured tools base workspace.files.current config).1 with
        | .ok () => forgotten workspace
        | .error _ => workspace) := by
  unfold configure
  rw [houtput, if_pos rfl, StateT.run_bind, StateT.run_get, pure_bind]
  dsimp only
  rw [← configured]
  cases configured tools base workspace.files.current config with
  | mk outcome made => cases outcome <;> rfl

theorem runs_ofConfig
    (hconfigured : configured tools base workspace.files.current config = (.ok (), packer)) :
    Runs (ofConfig tools base config) workspace (.ok packer) (forgotten workspace) := by
  have hconfigure := runs_liftM (({ tools, base } : Packer).configure config) workspace
  rw [configure_run houtput, hconfigured] at hconfigure
  exact hconfigure.bind (Runs.of_pure packer (forgotten workspace))

theorem runs_ofConfig_error
    {error : Failure}
    (hconfigured : configured tools base workspace.files.current config = (.error error, packer)) :
    Runs (ofConfig tools base config) workspace (.error error) workspace := by
  have hconfigure := runs_liftM (({ tools, base } : Packer).configure config) workspace
  rw [configure_run houtput, hconfigured] at hconfigure
  exact hconfigure.bind (Runs.of_lift (.error error) workspace).bind_error

theorem runs_start_iff
    (hconfig : Runs (configuration tools base file settings) workspace (.ok config) workspace) :
    Runs (start tools base file settings) workspace (.ok packer) after ↔
      configured tools base workspace.files.current config = (.ok (), packer) ∧
        after = forgotten workspace := by
  rw [start_eq]
  constructor
  · intro hruns
    cases hconfigured : configured tools base workspace.files.current config with
    | mk outcome made =>
        cases outcome with
        | ok value =>
            have hmade := hconfig.bind (runs_ofConfig houtput hconfigured)
            obtain ⟨hpacker, rfl⟩ := Prod.mk.inj (hruns.symm.trans hmade)
            rw [Except.ok.inj hpacker]
            exact ⟨rfl, rfl⟩
        | error error =>
            have hfailed := hconfig.bind (runs_ofConfig_error houtput hconfigured)
            cases (Prod.mk.inj (hruns.symm.trans hfailed)).1
  · rintro ⟨hconfigured, rfl⟩
    exact hconfig.bind (runs_ofConfig houtput hconfigured)

end Output

end Making

/-! ## Histories -/

/-- What can happen to a workspace with a packer: a pack or an asset that is packed as bytes,
which both may fail, and any change of the files. -/
inductive Event (packer : Packer) : Workspace → Workspace → Prop
  | pack {before after : Workspace} {result : Except Failure Unit} (asset : Option Text)
      (force : Bool) (hruns : Runs (packer.pack asset force) before result after) :
      Event packer before after
  | packedBytes {before after : Workspace} {result : Except Failure ByteArray}
      (asset encoding : Text) (hruns : Runs (packer.packedBytes asset encoding) before result after) :
      Event packer before after
  | change (workspace : Workspace) (files : FileSystem)
      (hcurrent : files.current = workspace.files.current) :
      Event packer workspace { workspace with files }

variable {packer : Packer}

theorem current_of_event {before after : Workspace} (h : packer.Event before after) :
    after.files.current = before.files.current := by
  cases h with
  | pack asset force hruns => exact (packer.blind_pack asset force).current hruns
  | packedBytes asset encoding hruns =>
      exact (packer.blind_packedBytes asset encoding).current hruns
  | change files hcurrent => exact hcurrent

theorem current_of_history
    {made before : Workspace} (h : Relation.ReflTransGen packer.Event made before) :
    before.files.current = made.files.current := by
  induction h with
  | refl => rfl
  | tail _ hevent ih => exact (current_of_event hevent).trans ih

/-- A pack forgets what was known about files, so it does not matter what that was. -/
theorem runs_pack_forgotten
    {asset : Option Text} {force : Bool} {before after : Workspace} {result : Except Failure Unit} :
    Runs (packer.pack asset force) before result after ↔
      Runs (packer.pack asset force) (forgotten before) result after :=
  Iff.rfl

/-- What is left of a workspace besides its files and what it tells is forgotten by a pack. -/
theorem forgotten_eq (workspace : Workspace) :
    forgotten workspace = (Past.of workspace).before { files := workspace.files } := by
  simp [forgotten, Past.of, Past.before]

/-- After any history a pack does what it does on a workspace with the same files in which
nothing has happened yet. -/
theorem runs_pack_iff
    {asset : Option Text} {force : Bool} {before after : Workspace} {result : Except Failure Unit} :
    Runs (packer.pack asset force) before result after ↔
      ∃ fresh, Runs (packer.pack asset force) { files := before.files } result fresh ∧
        after = (Past.of before).before fresh := by
  rw [runs_pack_forgotten, forgotten_eq]
  exact (packer.blind_pack asset force).runs_iff (Past.of before)

theorem runs_readText_of_missing
    {path : Text} {workspace : Workspace} (h : workspace.files.exists? path = false) :
    Runs (readText path) workspace (.error (.file (.notFound path))) workspace := by
  rw [FileSystem.exists?, Bool.or_eq_false_iff, FileSystem.isFile, Option.isSome_eq_false_iff,
    Option.isNone_iff_eq_none] at h
  apply Runs.bind_error
  apply (Runs.of_get workspace).bind
  rw [FileSystem.read, h.2, h.1]
  rfl

theorem runs_configuration_of_missing
    {tools : Toolchain} {base : Text} {settings config : Setting.Members} {workspace : Workspace}
    (hsettings : mergedConfig (.table none []) settings = .ok config)
    (hmissing : workspace.files.exists?
      (({ tools, base } : Packer).fromBase workspace.files.current standardConfig) = false) :
    Runs (configuration tools base .null settings) workspace (.ok config) workspace := by
  have hcurrent : Runs current workspace (.ok workspace.files.current) workspace := rfl
  have hload : Runs (({ tools, base } : Packer).loadConfig .null) workspace
      (.ok (.table none [])) workspace := by
    apply (Runs.of_lift (.ok standardConfig) workspace).bind
    apply hcurrent.bind
    apply (runs_readText_of_missing hmissing).attempt.bind
    exact Runs.of_pure _ workspace
  apply hload.bind
  rw [hsettings]
  exact Runs.of_lift (.ok config) workspace

theorem eq_ok_of_isOk {ε : Type} {result : Except ε Unit} (h : result.isOk = true) :
    result = .ok () := by
  cases result with
  | ok value => rfl
  | error error => simp [Except.isOk, Except.toBool] at h

theorem exists_error_of_isOk {ε α : Type} {result : Except ε α} (h : result.isOk = false) :
    ∃ error, result = .error error := by
  cases result with
  | ok value => simp [Except.isOk, Except.toBool] at h
  | error error => exact ⟨error, rfl⟩

/-- The settings of a packer of two style sheets that names files by their contents. -/
def twoSheetSettings : Setting.Members :=
  [(.text "output".text, .text "out".text), (.text "search".text, .text "src".text),
    (.text "assets".text, .table none
      [(.text "a.css".text, .text "a.css".text), (.text "b.css".text, .text "b.css".text)]),
    (.text "rebase".text, .table none
      [(.text "mode".text, .text "content-derived".text), (.text "source_map".text, .bool false)])]

end UrlRebase.Packer
