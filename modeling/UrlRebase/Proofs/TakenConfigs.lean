import UrlRebase.Proofs.RepeatedPacks
import UrlRebase.Proofs.SteadyRuns
import UrlRebase.Setting.Table

/-!
# Configurations that are taken over

Taking a configuration over goes part by part, and each part changes one thing about a packer.
So a packer is made of a configuration just if no part of it is refused, and then it is known
field by field.
-/

namespace UrlRebase

open Setting.Members

theorem Except.forM_eq_ok_iff {α ε : Type} {check : α → Except ε Unit} {list : List α} :
    list.forM check = .ok () ↔ ∀ a ∈ list, check a = .ok () := by
  rw [List.forM_eq_forM]
  induction list with
  | nil => exact iff_of_true rfl (by simp)
  | cons a rest ih =>
      rw [List.forM_cons, List.forall_mem_cons, ← ih, Except.bind_eq_ok]
      exact Unique.exists_iff

namespace Packer

variable {tools : Toolchain} {base current : Text} {config : Setting.Members}
  {before between after packer : Packer}

/-! ## Taking a configuration over -/

/-- A computation that takes over all that it should. -/
def Takes (action : Configuring Unit) (before after : Packer) : Prop :=
  Eq (α := Except Failure Unit × Packer) (action.run.run before) (.ok (), after)

theorem takes_bind_iff {action : Configuring Unit} {next : Unit → Configuring Unit} :
    Takes (action >>= next) before after ↔
      ∃ between, Takes action before between ∧ Takes (next ()) between after := by
  have hrun : Eq (α := Except Failure Unit × Packer) ((action >>= next).run.run before)
      (match action.run.run before with
      | (.ok value, between) => (next value).run.run between
      | (.error error, between) => (.error error, between)) := by
    rw [ExceptT.run_bind, StateT.run_bind]
    cases action.run.run before with
    | mk outcome between => cases outcome <;> rfl
  unfold Takes
  rw [hrun]
  cases hfirst : action.run.run before with
  | mk outcome between => cases outcome <;> simp

theorem takes_modify_iff (change : Packer → Packer) :
    Takes (modify change) before after ↔ change before = after := by
  change Eq (α := Except Failure Unit × Packer) (.ok (), change before) (.ok (), after) ↔ _
  simp

theorem takes_set_iff {packer : Packer} : Takes (set packer) before after ↔ packer = after :=
  takes_modify_iff fun _ => packer

theorem takes_lift_iff {α : Type} {result : Except Failure α} {next : α → Configuring Unit} :
    Takes (ExceptT.mk (pure result) >>= next) before after ↔
      ∃ value, result = .ok value ∧ Takes (next value) before after := by
  cases result with
  | ok value =>
      constructor
      · exact fun h => ⟨value, rfl, h⟩
      · rintro ⟨_, hvalue, h⟩
        exact Except.ok.inj hvalue ▸ h
  | error error =>
      constructor
      · exact fun h => nomatch (Prod.mk.inj h).1
      · exact fun ⟨_, hvalue, _⟩ => nomatch hvalue

theorem takes_get_iff {next : Packer → Configuring Unit} :
    Takes (get >>= next) before after ↔ Takes (next before) before after := Iff.rfl

theorem takes_configureLocation_iff {output : Setting} (houtput : output.truthy = true) :
    Takes (configureLocation output) before after ↔
      { before with location := output, ephemeral := false } = after := by
  rw [configureLocation, takes_modify_iff, if_pos houtput]

/-- A setting as a list, where one text stands for a list of it. -/
def listed : Setting → Setting
  | .text value => .list none [.text value]
  | value => value

theorem takes_configureSearch_iff {search : Setting} :
    Takes (configureSearch search) before after ↔
      { before with search := listed search } = after := by
  unfold configureSearch
  rw [takes_modify_iff]
  cases search <;> rfl

theorem update_of_table {members others : Setting.Members} {value : Setting}
    (h : value.members? = some others) : members.update value = (members.putAll others, none) := by
  cases value <;> simp_all [Setting.members?, update]

theorem takes_check_iff : Takes (check none) before after ↔ before = after :=
  takes_modify_iff id

theorem takes_configureProcessors_iff {register : Setting} {others : Setting.Members}
    (h : register.members? = some others) :
    Takes (configureProcessors register) before after ↔
      { before with processors := Processor.registrations.putAll others } = after := by
  rw [configureProcessors, update_of_table h]
  dsimp only
  simp only [takes_bind_iff, takes_modify_iff, takes_check_iff, exists_eq_left']

theorem takes_configureSeparators_iff {separators : Setting} {others : Setting.Members}
    (h : separators.members? = some others) :
    Takes (configureSeparators separators) before after ↔
      { before with separators := standardSeparators.putAll others } = after := by
  rw [configureSeparators, update_of_table h]
  dsimp only
  simp only [takes_bind_iff, takes_modify_iff, takes_check_iff, exists_eq_left']

/-- Whether a setting gives processors that are there. -/
def Offers (packer : Packer) (value : Setting) : Prop :=
  ∃ names, value.elements? = some names ∧ ∀ name ∈ names, packer.checkProcessor name = .ok ()

theorem configureDefault_eq (extension value : Setting) :
    configureDefault extension value =
      (match (listed value).elements? with
      | none => throw .wrongKind
      | some names => do
          let packer ← get
          ExceptT.mk (pure (names.forM packer.checkProcessor))
          set { packer with defaults := packer.defaults.put extension (listed value) }) := by
  cases value <;> rfl

theorem takes_configureDefault_iff {extension value : Setting} :
    Takes (configureDefault extension value) before after ↔
      before.Offers (listed value) ∧
      { before with defaults := before.defaults.put extension (listed value) } = after := by
  rw [configureDefault_eq, Offers]
  cases (listed value).elements? with
  | none =>
      constructor
      · exact fun h => nomatch (Prod.mk.inj h).1
      · exact fun ⟨⟨_, hnames, _⟩, _⟩ => nomatch hnames
  | some names =>
      simp only [takes_get_iff, takes_lift_iff, takes_set_iff, Option.some.injEq, exists_eq_left',
        ← Except.forM_eq_ok_iff]
      exact Unique.exists_iff

theorem takes_forM_configureDefault_iff {members : Setting.Members} :
    Takes (members.forM fun member => configureDefault member.1 member.2) before after ↔
      (∀ member ∈ members, before.Offers (listed member.2)) ∧
      { before with
        defaults := before.defaults.putAll
          (members.map fun member => (member.1, listed member.2)) } = after := by
  rw [List.forM_eq_forM]
  induction members generalizing before with
  | nil => exact takes_check_iff.trans ⟨fun h => ⟨by simp, h⟩, And.right⟩
  | cons member rest ih =>
      rw [List.forM_cons, takes_bind_iff, List.forall_mem_cons, List.map_cons]
      simp only [takes_configureDefault_iff, ih]
      constructor
      · rintro ⟨between, ⟨hoffers, rfl⟩, hrest, rfl⟩
        exact ⟨⟨hoffers, hrest⟩, rfl⟩
      · rintro ⟨⟨hoffers, hrest⟩, rfl⟩
        exact ⟨_, ⟨hoffers, rfl⟩, hrest, rfl⟩

theorem takes_configureDefaults_iff {defaults : Setting} {others : Setting.Members}
    (h : defaults.members? = some others) :
    Takes (configureDefaults defaults) before after ↔
      (∀ member ∈ others, before.Offers (listed member.2)) ∧
      { before with
        defaults := standardDefaults.putAll
          (others.map fun member => (member.1, listed member.2)) } = after := by
  unfold configureDefaults
  rw [takes_bind_iff]
  simp only [takes_modify_iff, exists_eq_left', h]
  exact takes_forM_configureDefault_iff

theorem takes_configureOptions_iff {value : Setting} :
    Takes (configureOptions current value) before after ↔
      ∃ given options searchPath, Options.ofConfig value [] = .ok given ∧
        before.resolvedOptions current given = .ok options ∧
        SearchPath.ofConfig current options.modules options.root options.debug = .ok searchPath ∧
        { before with options, searchPath } = after := by
  unfold configureOptions
  simp only [takes_lift_iff, takes_get_iff, takes_set_iff]
  constructor
  · rintro ⟨given, hgiven, options, hoptions, searchPath, hsearch, h⟩
    exact ⟨given, options, searchPath, hgiven, hoptions, hsearch, h⟩
  · rintro ⟨given, options, searchPath, hgiven, hoptions, hsearch, h⟩
    exact ⟨given, hgiven, options, hoptions, searchPath, hsearch, h⟩

/-! ## All parts -/

def part (config : Setting.Members) (key : String) (default : Setting) : Setting :=
  (config.at? key.text).getD default

theorem configureParts_eq (current : Text) (config : Setting.Members) :
    configureParts current config = (do
      configureLocation (part config "output" .null)
      configureSearch (part config "search" (.text ['.']))
      modify fun packer => { packer with urlBase := part config "prefix" (.text []) }
      configureProcessors (part config "register" (.table none []))
      configureDefaults (part config "defaults" (.table none []))
      configureSeparators (part config "concat" (.table none []))
      modify fun packer => { packer with assets := part config "assets" (.table none []) }
      configureOptions current (part config "rebase" (.table none []))) := rfl

section Taken

variable {register defaults separators : Setting.Members}

/-- The packer of a configuration with some tables, up to its options. -/
def ofParts (tools : Toolchain) (base : Text) (config register defaults separators : Setting.Members) :
    Packer where
  tools := tools
  base := base
  location := part config "output" .null
  ephemeral := false
  search := listed (part config "search" (.text ['.']))
  urlBase := part config "prefix" (.text [])
  processors := Processor.registrations.putAll register
  defaults := standardDefaults.putAll (defaults.map fun member => (member.1, listed member.2))
  separators := standardSeparators.putAll separators
  assets := part config "assets" (.table none [])

theorem configured_iff
    (houtput : (part config "output" .null).truthy = true)
    (hregister : (part config "register" (.table none [])).members? = some register)
    (hdefaults : (part config "defaults" (.table none [])).members? = some defaults)
    (hseparators : (part config "concat" (.table none [])).members? = some separators) :
    configured tools base current config = (.ok (), packer) ↔
      (∀ member ∈ defaults,
        (ofParts tools base config register defaults separators).Offers (listed member.2)) ∧
      ∃ given options searchPath,
        Options.ofConfig (part config "rebase" (.table none [])) [] = .ok given ∧
        (ofParts tools base config register defaults separators).resolvedOptions current given =
          .ok options ∧
        SearchPath.ofConfig current options.modules options.root options.debug = .ok searchPath ∧
        { ofParts tools base config register defaults separators with options, searchPath } =
          packer := by
  change Takes (configureParts current config) _ packer ↔ _
  rw [configureParts_eq]
  simp only [takes_bind_iff, takes_modify_iff, takes_configureLocation_iff houtput,
    takes_configureSearch_iff, takes_configureProcessors_iff hregister,
    takes_configureDefaults_iff hdefaults, takes_configureSeparators_iff hseparators,
    takes_configureOptions_iff, exists_eq_left']
  constructor
  · rintro ⟨between, ⟨hoffers, rfl⟩, h⟩
    exact ⟨hoffers, h⟩
  · rintro ⟨hoffers, h⟩
    exact ⟨_, ⟨hoffers, rfl⟩, h⟩

end Taken

end Packer

end UrlRebase
