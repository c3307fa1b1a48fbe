import UrlRebase.Proofs.PackedSources
import UrlRebase.Proofs.TakenConfigs
import UrlRebase.Proofs.ToldTables

/-!
# Configurations that packers tell

A packer tells its configuration without what goes without saying.  A packer that is made of
what was told has the same assets, directories, processors of inputs, separators and options.
It has the same registered processors just if none of those that are there without being
registered was given another registration, as such a one is not told.
-/

namespace UrlRebase

open Setting.Members

/-! ## Options -/

namespace Options

theorem keys_toConfig (options : Options) : options.toConfig.keys = Options.keys.map .text := rfl

theorem areTexts_toConfig (options : Options) : AreTexts options.toConfig.keys := by
  intro key hkey
  rw [keys_toConfig, List.mem_map] at hkey
  obtain ⟨text, -, rfl⟩ := hkey
  exact ⟨text, rfl⟩

theorem nodup_toConfig (options : Options) : options.toConfig.keys.Nodup := by
  have htext : Function.Injective Setting.text := fun _ _ => Setting.text.inj
  rw [keys_toConfig]
  exact (by decide : Options.keys.Nodup).map htext

/-- The options that differ from the standard ones. -/
def told (options : Options) : Setting.Members :=
  options.toConfig.filter (differs ({} : Options).toConfig)

theorem at?_told {options : Options} {key : String} (value standard : Setting)
    (hvalue : (.text key.text, value) ∈ options.toConfig)
    (hstandard : (.text key.text, standard) ∈ ({} : Options).toConfig) :
    options.told.at? key.text = if value.same standard then none else some value := by
  have htold := get?_filter (differs ({} : Options).toConfig)
    (areTexts_toConfig options) (nodup_toConfig options) ⟨key.text, rfl⟩
  have hget := get?_of_mem (areTexts_toConfig options) (nodup_toConfig options) hvalue
  have hdefault := get?_of_mem (areTexts_toConfig {}) (nodup_toConfig {}) hstandard
  rw [told, at?, htold, hget, Option.filter_some]
  simp only [differs, hdefault]
  cases value.same standard <;> rfl

/-- What is read of an option that is a truth value. -/
theorem flag_told {options : Options} {key : String} {value default : Bool}
    (hvalue : (.text key.text, .bool value) ∈ options.toConfig)
    (hstandard : (.text key.text, .bool default) ∈ ({} : Options).toConfig) :
    ((options.told.at? key.text).map Setting.truthy).getD default = value := by
  rw [at?_told _ _ hvalue hstandard]
  cases value <;> cases default <;>
    simp [Setting.same, Setting.sameScalar, Setting.number?, Setting.sameNumber, Setting.truthy]

theorem mode_told (options : Options) :
    (options.told.at? "mode".text = none ∧ .absolute = options.mode) ∨
    ∃ value, options.told.at? "mode".text = some value ∧
      choose "mode" Mode.all Mode.name value = .ok options.mode := by
  rw [at?_told (.text options.mode.name) (.text Mode.absolute.name)
    (by simp [toConfig]) (by simp [toConfig]), Setting.same_text]
  cases options.mode with
  | absolute => exact .inl ⟨rfl, rfl⟩
  | contentDerived => exact .inr ⟨_, rfl, rfl⟩
  | keep => exact .inr ⟨_, rfl, rfl⟩

theorem granularity_told (options : Options) :
    (options.told.at? "granularity".text = none ∧ .start = options.granularity) ∨
    ∃ value, options.told.at? "granularity".text = some value ∧
      choose "granularity" Granularity.all Granularity.name value =
        .ok options.granularity := by
  rw [at?_told (.text options.granularity.name) (.text Granularity.start.name)
    (by simp [toConfig]) (by simp [toConfig]), Setting.same_text]
  cases options.granularity with
  | start => exact .inl ⟨rfl, rfl⟩
  | startAndEnd => exact .inr ⟨_, rfl, rfl⟩

theorem modules_told (options : Options) :
    moduleList ((options.told.at? "modules".text).getD .null) = .ok options.modules := by
  rw [at?_told (.list none options.modules) (.list none [])
    (by simp [toConfig]) (by simp [toConfig])]
  cases options.modules with
  | nil => simp [Setting.same, Setting.sameItems, moduleList, Setting.truthy]
  | cons first rest =>
      simp [Setting.same, Setting.sameItems, moduleList, Setting.truthy, Setting.elements?,
        Setting.itemsOf]

theorem root_told (options : Options) :
    (options.told.at? "root".text).getD .null = options.root := by
  rw [at?_told options.root .null
    (by simp [toConfig]) (by simp [toConfig])]
  by_cases hsame : options.root.same .null = true
  · rw [if_pos hsame, Setting.eq_null_of_same hsame]
    rfl
  · rw [if_neg hsame]
    rfl

theorem known_told (options : Options) :
    (options.told.any fun setting =>
      !(Options.keys.any fun known => setting.1.same (.text known))) = false := by
  rw [List.any_eq_false]
  intro setting hsetting
  have hkey : setting.1 ∈ options.toConfig.keys :=
    List.mem_map_of_mem (List.mem_of_mem_filter hsetting)
  rw [keys_toConfig, List.mem_map] at hkey
  obtain ⟨key, hkey, hsame⟩ := hkey
  rw [Bool.not_eq_true, Bool.not_eq_false', List.any_eq_true, ← hsame]
  exact ⟨key, hkey, by simp⟩

theorem ofSettings_told (options : Options) : ofSettings options.told = .ok options := by
  have hquery : ((options.told.at? "keep_query".text).map Setting.truthy).getD true =
      options.keepQuery := flag_told (by simp [toConfig]) (by simp [toConfig])
  have hattempt : ((options.told.at? "attempt_resolve".text).map Setting.truthy).getD true =
      options.attemptResolve := flag_told (by simp [toConfig]) (by simp [toConfig])
  have hmap : ((options.told.at? "source_map".text).map Setting.truthy).getD true =
      options.sourceMap := flag_told (by simp [toConfig]) (by simp [toConfig])
  have hsilent : ((options.told.at? "silent".text).map Setting.truthy).getD false =
      options.silent := flag_told (by simp [toConfig]) (by simp [toConfig])
  have hdebug : ((options.told.at? "debug".text).map Setting.truthy).getD false =
      options.debug := flag_told (by simp [toConfig]) (by simp [toConfig])
  have hdrop : ((options.told.at? "remove_cr".text).map Setting.truthy).getD false =
      options.dropReturns := flag_told (by simp [toConfig]) (by simp [toConfig])
  unfold ofSettings
  simp only [known_told, modules_told, root_told, hquery, hattempt, hmap, hsilent, hdebug, hdrop]
  rcases mode_told options with ⟨hfound, hmode⟩ | ⟨mode, hfound, hmode⟩ <;>
    rcases granularity_told options with
      ⟨hfound', hgranularity⟩ | ⟨granularity, hfound', hgranularity⟩ <;>
    simp only [hfound, hfound', hmode, hgranularity] <;> rfl

theorem ofConfig_told (options : Options) :
    ofConfig (.table none options.told) [] = .ok options := by
  have hkeys : options.told.keys ⊆ options.toConfig.keys :=
    (List.filter_sublist.map Prod.fst).subset
  have hmembers : options.told.mapM (fun member => do return (← optionKey member.1, member.2)) =
      (.ok options.told : Except Failure Setting.Members) := by
    rw [Except.mapM_eq_ok_iff]
    refine List.forall₂_same.mpr ?_
    rintro ⟨name, value⟩ hmember
    have hkey := hkeys (List.mem_map_of_mem hmember)
    rw [keys_toConfig, List.mem_map] at hkey
    obtain ⟨key, hkey, rfl⟩ := hkey
    have hcanonical : ∀ key ∈ Options.keys, canonicalKey key = key := by decide
    dsimp only
    rw [optionKey, hcanonical key hkey]
    rfl
  have hassigned : putAll [] options.told = options.told :=
    putAll_of_nodup (fun key hkey => areTexts_toConfig options key (hkeys hkey))
      ((nodup_toConfig options).sublist (List.filter_sublist.map Prod.fst))
  have hread : ofConfig (.table none options.told) [] =
      (options.told.mapM (fun member => do return (← optionKey member.1, member.2)) >>=
        fun settings => ofSettings (.ofAssignments (settings ++ []))) := rfl
  rw [hread, hmembers, Except.bind_eq_ok]
  refine ⟨_, rfl, ?_⟩
  rw [List.append_nil, ofAssignments, hassigned]
  exact ofSettings_told options

end Options

namespace Packer

variable {tools : Toolchain} {base current : Text} {config : Setting.Members} {packer : Packer}

/-! ## Documented configurations -/

/-- A setting that is a table of texts, or of other values of some kind, by texts. -/
def IsTableOf (IsValue : Setting → Prop) (value : Setting) : Prop :=
  ∃ members, value.members? = some members ∧ AreTexts (keys members) ∧
    ∀ member ∈ members, IsValue member.2

def IsText (value : Setting) : Prop :=
  ∃ text, value = .text text

def IsTexts (value : Setting) : Prop :=
  ∃ mark texts, value = .list mark texts ∧ ∀ text ∈ texts, IsText text

/-- A configuration with an output whose parts are of the documented kinds.  Of the assets any
setting is taken as it is, and of the options what reading them does not refuse. -/
structure Documented (config : Setting.Members) : Prop where
  output : (part config "output" .null).truthy = true
  search : IsTexts (listed (part config "search" (.text ['.'])))
  urlBase : IsText (part config "prefix" (.text []))
  register : IsTableOf IsText (part config "register" (.table none []))
  defaults : IsTableOf (fun value => IsTexts (listed value)) (part config "defaults" (.table none []))
  separators : IsTableOf IsText (part config "concat" (.table none []))

/-! ## What a packer tells -/

def toldProcessors (packer : Packer) : Setting.Members :=
  Processor.registrations.besides packer.processors

def toldDefaults (packer : Packer) : Setting.Members :=
  packer.defaults.filter (differs standardDefaults)

def toldSeparators (packer : Packer) : Setting.Members :=
  packer.separators.filter (differs standardSeparators)

/-- The parts of a configuration that a packer may tell, each with whether it is told. -/
def toldParts (packer : Packer) : List (String × Bool × Setting) :=
  [("assets", true, packer.assets),
    ("output", !packer.ephemeral, packer.location),
    ("search", !packer.search.same (.list none [.text ['.']]), packer.search),
    ("prefix", packer.urlBase.truthy, packer.urlBase),
    ("register", !packer.toldProcessors.isEmpty, .table none packer.toldProcessors),
    ("defaults", !packer.toldDefaults.isEmpty, .table none packer.toldDefaults),
    ("concat", !packer.toldSeparators.isEmpty, .table none packer.toldSeparators),
    ("rebase", !packer.options.told.isEmpty, .table none packer.options.told)]

def toldMembers (entries : List (String × Bool × Setting)) : Setting.Members :=
  entries.flatMap fun entry => member entry.1 entry.2.1 entry.2.2

theorem toConfig_eq (packer : Packer) : packer.toConfig = toldMembers packer.toldParts := by
  simp only [toConfig, toldMembers, toldParts, List.flatMap_cons, List.flatMap_nil, List.append_assoc,
    List.append_nil]
  rfl

theorem at?_toldMembers_cons (entry : String × Bool × Setting)
    (rest : List (String × Bool × Setting)) (key : Text) :
    at? (toldMembers (entry :: rest)) key =
      if entry.2.1 = true ∧ entry.1.text = key then some entry.2.2 else (toldMembers rest).at? key := by
  obtain ⟨name, isTold, value⟩ := entry
  rw [toldMembers, List.flatMap_cons, ← toldMembers]
  cases isTold <;> simp [member, at?, get?_cons]

theorem at?_toldMembers_of_not_mem {entries : List (String × Bool × Setting)} {key : String}
    (h : key.text ∉ entries.map (·.1.text)) : (toldMembers entries).at? key.text = none := by
  induction entries with
  | nil => rfl
  | cons entry rest ih =>
      rw [List.map_cons, List.mem_cons, not_or] at h
      rw [at?_toldMembers_cons, if_neg fun hkey => h.1 hkey.2.symm]
      exact ih h.2

theorem at?_toldMembers {entries : List (String × Bool × Setting)} {key : String} {isTold : Bool}
    {value : Setting} (hnodup : (entries.map (·.1.text)).Nodup)
    (h : (key, isTold, value) ∈ entries) :
    (toldMembers entries).at? key.text = if isTold then some value else none := by
  induction entries with
  | nil => cases h
  | cons entry rest ih =>
      rw [List.map_cons, List.nodup_cons] at hnodup
      rw [at?_toldMembers_cons]
      rcases List.mem_cons.mp h with rfl | h
      · cases isTold with
        | true => simp
        | false => simpa using at?_toldMembers_of_not_mem hnodup.1
      · have hne : ¬(entry.2.1 = true ∧ entry.1.text = key.text) := fun hkey =>
          hnodup.1 (hkey.2 ▸ List.mem_map_of_mem h)
        rw [if_neg hne]
        exact ih hnodup.2 h

theorem part_toConfig (key : String) (isTold : Bool) (value default : Setting)
    (h : (key, isTold, value) ∈ packer.toldParts) :
    part packer.toConfig key default = if isTold then value else default := by
  have hnodup : (packer.toldParts.map (·.1.text)).Nodup := by
    change (["assets", "output", "search", "prefix", "register", "defaults", "concat",
      "rebase"].map String.text).Nodup
    decide
  rw [part, toConfig_eq, at?_toldMembers hnodup h]
  cases isTold <;> rfl

/-- A table that is told unless it is empty. -/
theorem part_toConfig_table {key : String} {members : Setting.Members}
    (h : (key, !members.isEmpty, .table none members) ∈ packer.toldParts) :
    part packer.toConfig key (.table none []) = .table none members := by
  rw [part_toConfig _ _ _ _ h]
  cases members <;> rfl

/-! ## The packer of what was told -/

theorem fromBase_fromBase (hcurrent : Path.isAbsolute current = true) (path : Text) :
    packer.fromBase current (packer.fromBase current path) = packer.fromBase current path := by
  by_cases hbase : packer.base = []
  · unfold fromBase
    rw [if_pos (.inr hbase)]
  · have habsolute := isAbsolute_fromBase hcurrent hbase path
    rw [fromBase, if_pos (.inl habsolute)]

def resolved (packer : Packer) (current : Text) (path : Setting) : Except Failure Setting := do
  return .text (packer.fromBase current (← path.toText))

theorem resolved_of_resolved {path directory : Setting} (hcurrent : Path.isAbsolute current = true)
    (h : packer.resolved current path = .ok directory) :
    packer.resolved current directory = .ok directory := by
  obtain ⟨text, -, hdirectory⟩ := Except.bind_eq_ok.mp h
  obtain rfl := Except.ok.inj hdirectory
  change Except.ok (Setting.text (packer.fromBase current (packer.fromBase current text))) = _
  rw [fromBase_fromBase hcurrent]

theorem resolvedOptions_eq (packer : Packer) (current : Text) (options : Options) :
    packer.resolvedOptions current options =
      (options.modules.mapM (packer.resolved current) >>= fun modules =>
        (if options.root.truthy then packer.resolved current options.root else .ok options.root) >>=
          fun root => .ok { options with modules, root }) := by
  unfold resolvedOptions
  cases options.root.truthy <;> rfl

theorem resolvedOptions_eq_ok_iff {options after : Options} :
    packer.resolvedOptions current options = .ok after ↔
      ∃ modules, options.modules.mapM (packer.resolved current) = .ok modules ∧
        ∃ root, (if options.root.truthy then packer.resolved current options.root
            else .ok options.root) = .ok root ∧
          { options with modules, root } = after := by
  rw [resolvedOptions_eq]
  simp only [Except.bind_eq_ok, Except.ok.injEq]

theorem resolvedOptions_of_resolved {options after : Options}
    (hcurrent : Path.isAbsolute current = true)
    (h : packer.resolvedOptions current options = .ok after) :
    packer.resolvedOptions current after = .ok after := by
  obtain ⟨modules, hmodules, root, hroot, rfl⟩ := resolvedOptions_eq_ok_iff.mp h
  refine resolvedOptions_eq_ok_iff.mpr ⟨modules, ?_, root, ?_, rfl⟩
  · rw [Except.mapM_eq_ok_iff] at hmodules ⊢
    refine List.forall₂_same.mpr fun directory hdirectory => ?_
    obtain ⟨path, -, hpath⟩ := Forall₂.exists_of_mem_right hmodules hdirectory
    exact resolved_of_resolved hcurrent hpath
  · dsimp only
    by_cases htruthy : options.root.truthy = true
    · rw [if_pos htruthy] at hroot
      rw [resolved_of_resolved hcurrent hroot, ite_self]
    · rw [if_neg htruthy] at hroot
      obtain rfl := Except.ok.inj hroot
      rw [if_neg htruthy]

theorem Offers.congr {other : Packer} {value : Setting}
    (hkeys : packer.processors.keys = other.processors.keys) (h : packer.Offers value) :
    other.Offers value := by
  obtain ⟨names, hnames, hchecked⟩ := h
  refine ⟨names, hnames, fun name hname => ?_⟩
  have hsame : other.checkProcessor name = packer.checkProcessor name := by
    unfold checkProcessor
    rw [isSome_get?_congr hkeys name]
  exact hsame.trans (hchecked name hname)

section Told

variable {register defaults separators : Setting.Members}

theorem extends_registrations : Extends Processor.registrations Processor.registrations :=
  .self (Processor.builtin.map Prod.fst) rfl (by decide)

theorem extends_standardDefaults : Extends standardDefaults standardDefaults :=
  .self ["css".text, "scss".text, "sass".text] rfl (by decide)

theorem extends_standardSeparators : Extends standardSeparators standardSeparators :=
  .self ["css".text] rfl (by decide)

theorem extends_defaults (hdefaults : AreTexts (keys defaults)) :
    Extends standardDefaults
      (standardDefaults.putAll (defaults.map fun member => (member.1, listed member.2))) := by
  apply extends_standardDefaults.putAll
  rw [keys, List.map_map]
  exact hdefaults

/-- Processors that are there without being registered are offered. -/
theorem offers_of_builtin (hextends : Extends Processor.registrations packer.processors)
    {names : List Text} (h : ∀ name ∈ names, name ∈ Processor.builtin.map Prod.fst) :
    packer.Offers (.list none (names.map .text)) := by
  refine ⟨_, rfl, fun name hname => ?_⟩
  obtain ⟨text, htext, rfl⟩ := List.mem_map.mp hname
  have hkey : .text text ∈ packer.processors.keys :=
    hextends.starts.subset (List.mem_map_of_mem (h text htext))
  rw [checkProcessor, (isSome_get?_iff hextends.texts ⟨text, rfl⟩).mpr hkey]
  rfl

theorem isTexts_of_texts (names : List Text) : IsTexts (.list none (names.map .text)) := by
  refine ⟨none, names.map .text, rfl, fun value hvalue => ?_⟩
  obtain ⟨text, -, rfl⟩ := List.mem_map.mp hvalue
  exact ⟨text, rfl⟩

theorem IsTexts.listed {value : Setting} (h : IsTexts value) : listed value = value := by
  obtain ⟨mark, texts, rfl, -⟩ := h
  rfl

theorem IsTexts.same_self {value : Setting} (h : IsTexts value) : value.same value = true := by
  obtain ⟨mark, texts, rfl, htexts⟩ := h
  rw [Setting.same]
  exact Setting.sameItems_self htexts

theorem forall_defaults (hprocessors : Extends Processor.registrations packer.processors)
    (htexts : ∀ member ∈ defaults, IsTexts (listed member.2))
    (hoffers : ∀ member ∈ defaults, packer.Offers (listed member.2)) :
    ∀ member ∈ standardDefaults.putAll
      (defaults.map fun member => (member.1, listed member.2)),
      IsTexts member.2 ∧ packer.Offers member.2 := by
  have hstandard : ∀ member ∈ standardDefaults, ∃ names : List Text,
      member.2 = .list none (names.map .text) ∧
        ∀ name ∈ names, name ∈ Processor.builtin.map Prod.fst := by
    simp only [standardDefaults, List.forall_mem_cons, List.map_cons, List.map_nil]
    exact ⟨⟨["rewrite".text], rfl, by decide⟩, ⟨["sass".text, "rewrite".text], rfl, by decide⟩,
      ⟨["sass".text, "rewrite".text], rfl, by decide⟩, by simp⟩
  apply forall_putAll (P := fun value => IsTexts value ∧ packer.Offers value)
  · intro member hmember
    obtain ⟨names, hvalue, hnames⟩ := hstandard member hmember
    rw [hvalue]
    exact ⟨isTexts_of_texts names, offers_of_builtin hprocessors hnames⟩
  · intro member hmember
    obtain ⟨given, hgiven, rfl⟩ := List.mem_map.mp hmember
    exact ⟨htexts given hgiven, hoffers given hgiven⟩

theorem forall_separators (htexts : ∀ member ∈ separators, IsText member.2) :
    ∀ member ∈ standardSeparators.putAll separators, IsText member.2 := by
  have hstandard : ∀ member ∈ standardSeparators, IsText member.2 := by
    simp only [standardSeparators, List.forall_mem_cons]
    exact ⟨⟨_, rfl⟩, by simp⟩
  exact forall_putAll hstandard htexts

end Told

/-- What a packer tells of its search gives the same directories again. -/
theorem same_listed_search (h : IsTexts packer.search) :
    packer.search.same (listed (part packer.toConfig "search" (.text ['.']))) = true := by
  rw [part_toConfig "search" (!packer.search.same (.list none [.text ['.']])) packer.search _
    (by simp [toldParts])]
  cases hsame : packer.search.same (.list none [.text ['.']]) with
  | true => exact hsame
  | false => exact h.listed.symm ▸ h.same_self

/-- What a packer has that a documented configuration made. -/
structure IsDocumented (packer : Packer) (current : Text) : Prop where
  told : packer.ephemeral = false
  output : packer.location.truthy = true
  search : IsTexts packer.search
  urlBase : IsText packer.urlBase
  processors : Extends Processor.registrations packer.processors
  defaults : Extends standardDefaults packer.defaults
  steps : ∀ member ∈ packer.defaults, IsTexts member.2 ∧ packer.Offers member.2
  separators : Extends standardSeparators packer.separators
  between : ∀ member ∈ packer.separators, IsText member.2
  options : packer.resolvedOptions current packer.options = .ok packer.options
  searchPath : SearchPath.ofConfig current packer.options.modules packer.options.root
    packer.options.debug = .ok packer.searchPath

theorem isDocumented_of_configured
    (hcurrent : Path.isAbsolute current = true) (hdocumented : Documented config)
    (hconfigured : configured tools base current config = (.ok (), packer)) :
    packer.tools = tools ∧ packer.base = base ∧ packer.IsDocumented current := by
  obtain ⟨register, hregister, hregisterkeys, -⟩ := hdocumented.register
  obtain ⟨defaults, hdefaults, hdefaultskeys, hdefaultstexts⟩ := hdocumented.defaults
  obtain ⟨separators, hseparators, hseparatorskeys, hseparatorstexts⟩ := hdocumented.separators
  obtain ⟨hoffers, given, options, searchPath, -, hoptions, hsearch, rfl⟩ :=
    (configured_iff hdocumented.output hregister hdefaults hseparators).mp hconfigured
  exact ⟨rfl, rfl, {
    told := rfl
    output := hdocumented.output
    search := hdocumented.search
    urlBase := hdocumented.urlBase
    processors := extends_registrations.putAll hregisterkeys
    defaults := extends_defaults hdefaultskeys
    steps := forall_defaults (extends_registrations.putAll hregisterkeys) hdefaultstexts hoffers
    separators := extends_standardSeparators.putAll hseparatorskeys
    between := forall_separators hseparatorstexts
    options := resolvedOptions_of_resolved hcurrent hoptions
    searchPath := hsearch }⟩

/-- The packer that is made of what a packer tells. -/
def reread (packer : Packer) : Packer where
  tools := packer.tools
  base := packer.base
  location := packer.location
  ephemeral := false
  search := listed (part packer.toConfig "search" (.text ['.']))
  urlBase := packer.urlBase
  processors := Processor.registrations.putAll packer.toldProcessors
  defaults := standardDefaults.putAll packer.toldDefaults
  separators := standardSeparators.putAll packer.toldSeparators
  assets := packer.assets
  options := packer.options
  searchPath := packer.searchPath

theorem IsDocumented.reread_configured (h : packer.IsDocumented current) :
    configured packer.tools packer.base current packer.toConfig = (.ok (), packer.reread) := by
  have hassets : part packer.toConfig "assets" (.table none []) = packer.assets :=
    part_toConfig _ true _ _ (by simp [toldParts])
  have hlocation : part packer.toConfig "output" .null = packer.location :=
    part_toConfig _ true _ _ (by simp [toldParts, h.told])
  have hprefix : part packer.toConfig "prefix" (.text []) = packer.urlBase := by
    obtain ⟨text, htext⟩ := h.urlBase
    rw [part_toConfig _ packer.urlBase.truthy packer.urlBase _ (by simp [toldParts]), htext]
    cases text <;> rfl
  have hregister : part packer.toConfig "register" (.table none []) =
      .table none packer.toldProcessors := part_toConfig_table (by simp [toldParts])
  have hdefaults : part packer.toConfig "defaults" (.table none []) =
      .table none packer.toldDefaults := part_toConfig_table (by simp [toldParts])
  have hseparators : part packer.toConfig "concat" (.table none []) =
      .table none packer.toldSeparators := part_toConfig_table (by simp [toldParts])
  have hrebase : part packer.toConfig "rebase" (.table none []) =
      .table none packer.options.told := part_toConfig_table (by simp [toldParts])
  have htold : ∀ member ∈ packer.toldDefaults, IsTexts member.2 ∧ packer.Offers member.2 :=
    fun member hmember => h.steps member (List.mem_of_mem_filter hmember)
  have hlisted : packer.toldDefaults.map (fun member => (member.1, listed member.2)) =
      packer.toldDefaults := by
    refine (List.map_congr_left fun member hmember => ?_).trans (List.map_id _)
    rw [(htold member hmember).1.listed]
    rfl
  have hmade : { ofParts packer.tools packer.base packer.toConfig packer.toldProcessors
      packer.toldDefaults packer.toldSeparators with
      options := packer.options, searchPath := packer.searchPath } = packer.reread := by
    rw [ofParts, reread, hassets, hlocation, hprefix, hlisted]
  have hkeys : packer.processors.keys = packer.reread.processors.keys :=
    (keys_putAll_besides extends_registrations h.processors).symm
  refine (configured_iff (hlocation ▸ h.output) (hregister ▸ rfl) (hdefaults ▸ rfl)
    (hseparators ▸ rfl)).mpr
    ⟨?_, packer.options, packer.options, packer.searchPath, ?_, h.options, h.searchPath, hmade⟩
  · intro member hmember
    rw [(htold member hmember).1.listed]
    exact (htold member hmember).2.congr hkeys
  · rw [hrebase]
    exact Options.ofConfig_told packer.options

/-- A packer that is made of what a packer tells of itself has the same assets, output, prefix,
separators and options, and equal directories to look in and processors of inputs.  It has the
same registered processors just if those that are there without being registered have their
own registrations. -/
theorem configured_toConfig
    (hcurrent : Path.isAbsolute current = true) (hdocumented : Documented config)
    (hconfigured : configured tools base current config = (.ok (), packer)) :
    ∃ reread, configured tools base current packer.toConfig = (.ok (), reread) ∧
      reread.assets = packer.assets ∧ reread.location = packer.location ∧
      packer.search.same reread.search = true ∧ reread.urlBase = packer.urlBase ∧
      Agree packer.defaults reread.defaults ∧ reread.separators = packer.separators ∧
      reread.options = packer.options ∧
      (reread.processors = packer.processors ↔
        ∀ entry ∈ Processor.registrations, packer.processors.get? entry.1 = some entry.2) := by
  obtain ⟨rfl, rfl, hpacker⟩ := isDocumented_of_configured hcurrent hdocumented hconfigured
  have hreread := hpacker.reread_configured
  refine ⟨packer.reread, hreread, rfl, rfl, same_listed_search hpacker.search, rfl, ?_, ?_, rfl,
    putAll_besides_eq_iff extends_registrations hpacker.processors⟩
  · exact agree_putAll_differs extends_standardDefaults hpacker.defaults
      fun member hmember => (hpacker.steps member hmember).1.same_self
  · have hself : ∀ member ∈ packer.separators, member.2.same member.2 = true := by
      intro member hmember
      obtain ⟨text, htext⟩ := hpacker.between member hmember
      rw [htext, Setting.same_text]
      exact decide_eq_true rfl
    exact (agree_putAll_differs extends_standardSeparators hpacker.separators hself).eq_of_texts
      hpacker.between

def registering (name : String) : Setting.Members :=
  [(.text "output".text, .text "out".text),
    (.text "register".text, .table none [(.text name.text, .text "oracle_procs.banner".text)]),
    (.text "defaults".text, .table none [(.text "css".text, .text name.text)])]

theorem members?_registering (name : String) :
    (part (registering name) "register" (.table none [])).members? =
      some [(.text name.text, .text "oracle_procs.banner".text)] := by
  simp +decide [part, registering, at?, get?_cons, Setting.members?, Setting.membersOf]

theorem documented_registering (name : String) : Documented (registering name) where
  output := by simp +decide [part, registering, at?, get?_cons, Setting.truthy]
  search := ⟨none, [.text ['.']], by simp +decide [part, registering, at?, get?_cons]; rfl, by simp [IsText]⟩
  urlBase := ⟨[], by simp +decide [part, registering, at?, get?_cons]⟩
  register := ⟨_, members?_registering name, by simp [keys, AreTexts], by simp [IsText]⟩
  defaults := ⟨[(.text "css".text, .text name.text)],
    by simp +decide [part, registering, at?, get?_cons, Setting.members?, Setting.membersOf],
    by simp [keys, AreTexts], by simp [IsTexts, IsText, listed]⟩
  separators := ⟨[], by simp +decide [part, registering, at?, get?_cons, Setting.members?, Setting.membersOf],
    by simp [keys, AreTexts], by simp⟩

theorem configured_registering {name : String} (h : name = "banner" ∨ name = "rewrite") :
    ∃ packer, configured (.ofTable []) "/p".text "/p".text (registering name) = (.ok (), packer) ∧
      packer.processors = Processor.registrations.putAll
        [(.text name.text, .text "oracle_procs.banner".text)] := by
  have hok : (configured (.ofTable []) "/p".text "/p".text (registering name)).1.isOk = true := by
    rcases h with rfl | rfl <;> decide +kernel
  have hconfigured : configured (.ofTable []) "/p".text "/p".text (registering name) =
      (.ok (), (configured (.ofTable []) "/p".text "/p".text (registering name)).2) :=
    Prod.ext (eq_ok_of_isOk hok) rfl
  have hdocumented := documented_registering name
  obtain ⟨defaults, hdefaults, -⟩ := hdocumented.defaults
  obtain ⟨separators, hseparators, -⟩ := hdocumented.separators
  obtain ⟨-, _, _, _, -, -, -, hmade⟩ := (configured_iff hdocumented.output
    (members?_registering name) hdefaults hseparators).mp hconfigured
  exact ⟨_, hconfigured, hmade ▸ rfl⟩

theorem configured_toConfig_of_banner :
    ∃ packer reread,
      configured (.ofTable []) "/p".text "/p".text (registering "banner") = (.ok (), packer) ∧
      configured (.ofTable []) "/p".text "/p".text packer.toConfig = (.ok (), reread) ∧
      reread.options = packer.options ∧ reread.processors = packer.processors := by
  obtain ⟨packer, hconfigured, hprocessors⟩ := configured_registering (.inl rfl)
  obtain ⟨reread, hreread, -, -, -, -, -, -, hoptions, hsame⟩ :=
    configured_toConfig (by decide) (documented_registering "banner") hconfigured
  refine ⟨packer, reread, hconfigured, hreread, hoptions, hsame.mpr ?_⟩
  rw [hprocessors]
  simp +decide [Processor.registrations, Processor.builtin, putAll, put, get?_cons]

/-- The registration of a processor by the name of one that is there without being registered
is not told. -/
theorem exists_forgotten_registration :
    ∃ (config : Setting.Members) (packer reread : Packer), Documented config ∧
      configured (.ofTable []) "/p".text "/p".text config = (.ok (), packer) ∧
      configured (.ofTable []) "/p".text "/p".text packer.toConfig = (.ok (), reread) ∧
      reread.processors ≠ packer.processors := by
  obtain ⟨packer, hconfigured, hprocessors⟩ := configured_registering (.inr rfl)
  have hdocumented := documented_registering "rewrite"
  obtain ⟨htools, hbase, hpacker⟩ := isDocumented_of_configured (by decide) hdocumented hconfigured
  refine ⟨_, packer, packer.reread, hdocumented, hconfigured, ?_, fun heq => ?_⟩
  · have hreread := hpacker.reread_configured
    rwa [htools, hbase] at hreread
  · have hall := (putAll_besides_eq_iff extends_registrations hpacker.processors).mp heq
    have hrewrite := hall (.text "rewrite".text, .text "cssrebase.processors.rewrite.process".text)
      (by simp +decide [Processor.registrations, Processor.builtin])
    rw [hprocessors] at hrewrite
    simp +decide [Processor.registrations, Processor.builtin, putAll, put, get?_cons] at hrewrite

end Packer

end UrlRebase
