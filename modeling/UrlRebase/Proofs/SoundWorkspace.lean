import UrlRebase.Asset.DigestName
import UrlRebase.Asset.Lookup
import UrlRebase.Proofs.AcceptedMap

/-!
# Sound workspaces

The caches of a workspace are sound when they hold what lookups and digests give: for a key
the outcome of a lookup with this key, and for a path a name that is not empty.  A
computation `Yields` values and failures of some kind if it gives only such on sound
workspaces, and leaves them sound.  Resolving a reference fails only for want of a root
directory, whether the outcome is held already or not, and finds only paths that are not
empty.
-/

namespace UrlRebase

/-! ## Outcomes of lookups -/

namespace Path

theorem normalize_ne_nil (path : Text) : normalize path ≠ [] := by
  unfold normalize
  simp only
  split
  · simp
  · assumption

theorem absolute_ne_nil (current path : Text) : absolute current path ≠ [] :=
  normalize_ne_nil _

end Path

namespace SearchPath

/-- Whether the path of a payload leads to the root directory where none is known. -/
def LacksRoot (root : Option Text) (path : Text) : Prop :=
  Path.isAbsolute (Percent.decode (unescape path)) = true ∧ root = none

theorem candidates_of_not_lacksRoot
    {searchPath : SearchPath} {path : Text} (hroot : ¬LacksRoot searchPath.root path)
    (current directory : Text) :
    ∃ candidates, searchPath.candidates current directory path = .ok candidates ∧
      ∀ candidate ∈ candidates, candidate ≠ [] := by
  unfold candidates
  simp only
  split
  · refine ⟨_, rfl, ?_⟩
    intro candidate hcandidate
    obtain ⟨module, -, rfl⟩ := List.mem_map.mp hcandidate
    exact Path.absolute_ne_nil _ _
  · split
    · rename_i habsolute
      cases hknown : searchPath.root with
      | none => exact absurd ⟨habsolute, hknown⟩ hroot
      | some root =>
          refine ⟨_, rfl, ?_⟩
          intro candidate hcandidate
          rw [List.mem_singleton.mp hcandidate]
          exact Path.absolute_ne_nil _ _
    · refine ⟨_, rfl, ?_⟩
      intro candidate hcandidate
      rw [List.mem_singleton.mp hcandidate]
      exact Path.absolute_ne_nil _ _

theorem candidates_of_lacksRoot
    {searchPath : SearchPath} {path : Text} (hroot : LacksRoot searchPath.root path)
    (current directory : Text) :
    searchPath.candidates current directory path = .error .noRoot := by
  obtain ⟨habsolute, hnone⟩ := hroot
  have hmark : (Percent.decode (unescape path)).head? ≠ some moduleMark := by
    intro hhead
    simp only [Path.isAbsolute, hhead] at habsolute
    revert habsolute
    decide
  unfold candidates
  simp only [if_neg hmark, habsolute, if_true, hnone]

/-- The outcome of a lookup with a key: a root directory was known if one was needed, and a
path that was found is not empty. -/
structure Outcome (key : Key) (resolution : Resolution) : Prop where
  rooted : ¬LacksRoot key.root key.path
  nonempty : resolution.path? ≠ some []

theorem outcome_ofFiles
    {key : Key} {candidates files : List Text} (hroot : ¬LacksRoot key.root key.path)
    (hcandidates : ∀ candidate ∈ candidates, candidate ≠ []) (hfiles : files ⊆ candidates) :
    Outcome key (.ofFiles candidates files) where
  rooted := hroot
  nonempty := by
    cases files with
    | nil => simp [Resolution.ofFiles, Resolution.path?]
    | cons path shadowed =>
        simpa [Resolution.ofFiles, Resolution.path?] using
          hcandidates path (hfiles List.mem_cons_self)

end SearchPath

namespace Workspace

/-- Whether the caches hold what lookups and digests give. -/
structure Sound (workspace : Workspace) : Prop where
  resolutions : ∀ entry ∈ workspace.resolutions.entries, SearchPath.Outcome entry.1 entry.2
  names : ∀ entry ∈ workspace.names.entries, entry.2 ≠ []

theorem sound_of_files (files : FileSystem) : Sound { files } where
  resolutions := by simp [Cache.empty]
  names := by simp [Cache.empty]

end Workspace

namespace Work

variable {α β : Type}

/-- Whether a computation on a sound workspace leaves it sound and gives a value or a
failure of which something is true. -/
def Yields (action : Work α) (value : α → Prop) (failure : Failure → Prop) : Prop :=
  ∀ workspace : Workspace, workspace.Sound →
    (action.run.run workspace).2.Sound ∧
      match (action.run.run workspace).1 with
      | .ok a => value a
      | .error error => failure error

theorem lift_ok (a : α) : lift (.ok a) = pure a := rfl

namespace Yields

variable {action : Work α} {value value' : α → Prop} {failure failure' : Failure → Prop}

theorem mono
    (h : Yields action value failure) (hvalue : ∀ a, value a → value' a)
    (hfailure : ∀ error, failure error → failure' error) :
    Yields action value' failure' := by
  intro workspace hworkspace
  have houtcome := h workspace hworkspace
  cases hresult : (action.run.run workspace).1 with
  | ok a =>
      rw [hresult] at houtcome
      exact houtcome.imp_right (hvalue a)
  | error error =>
      rw [hresult] at houtcome
      exact houtcome.imp_right (hfailure error)

theorem of_pure {a : α} (ha : value a) : Yields (pure a) value failure :=
  fun _ hworkspace => ⟨hworkspace, ha⟩

theorem of_lift
    {result : Except Failure α} (hvalue : ∀ a, result = .ok a → value a)
    (hfailure : ∀ error, result = .error error → failure error) :
    Yields (lift result) value failure := by
  intro workspace hworkspace
  cases result with
  | ok a => exact ⟨hworkspace, hvalue a rfl⟩
  | error error => exact ⟨hworkspace, hfailure error rfl⟩

/-- A failure ends the computation. -/
theorem of_lift_error_bind
    {error : Failure} {next : α → Work β} {goal : β → Prop} (herror : failure error) :
    Yields (lift (.error error) >>= next) goal failure :=
  fun _ hworkspace => ⟨hworkspace, herror⟩

theorem of_get : Yields (get : Work Workspace) Workspace.Sound failure :=
  fun _ hworkspace => ⟨hworkspace, hworkspace⟩

theorem of_modify
    {change : Workspace → Workspace}
    (hchange : ∀ workspace : Workspace, workspace.Sound → (change workspace).Sound) :
    Yields (modify change : Work PUnit) (fun _ => True) failure :=
  fun workspace hworkspace => ⟨hchange workspace hworkspace, trivial⟩

theorem bind
    {next : α → Work β} {goal : β → Prop} (h : Yields action value failure)
    (hnext : ∀ a, value a → Yields (next a) goal failure) :
    Yields (action >>= next) goal failure := by
  intro workspace hworkspace
  obtain ⟨hsound, houtcome⟩ := h workspace hworkspace
  rw [ExceptT.run_bind, StateT.run_bind]
  generalize action.run.run workspace = outcome at hsound houtcome
  obtain ⟨result, after⟩ := outcome
  cases result with
  | ok a => exact hnext a houtcome after hsound
  | error error => exact ⟨hsound, houtcome⟩

/-- What went wrong becomes the value. -/
theorem attempt (h : Yields action value failure) :
    Yields (attempt action)
      (fun
        | .ok a => value a
        | .error error => failure error) failure' := by
  intro workspace hworkspace
  have houtcome := h workspace hworkspace
  unfold Work.attempt
  rw [ExceptT.run_lift, StateT.run_map]
  generalize action.run.run workspace = outcome at houtcome
  obtain ⟨result, after⟩ := outcome
  exact houtcome

theorem mapM
    {f : α → Work β} {relation : α → β → Prop} {list : List α}
    (h : ∀ a ∈ list, Yields (f a) (relation a) failure) :
    Yields (list.mapM f) (List.Forall₂ relation list) failure := by
  induction list with
  | nil => exact of_pure .nil
  | cons a rest ih =>
      rw [List.mapM_cons]
      apply (h a List.mem_cons_self).bind
      intro b hb
      apply (ih fun a' ha' => h a' (List.mem_cons_of_mem a ha')).bind
      intro others hothers
      exact of_pure (.cons hb hothers)

/-- A loop over a list that does nothing but run an action for each element. -/
theorem forIn
    {f : α → Work PUnit} {list : List α} (h : ∀ a ∈ list, Yields (f a) (fun _ => True) failure) :
    Yields (ForIn.forIn list PUnit.unit fun a _ => do
      f a
      return ForInStep.yield PUnit.unit) (fun _ => True) failure := by
  induction list with
  | nil => exact of_pure trivial
  | cons a rest ih =>
      rw [List.forIn_cons, bind_assoc]
      apply (h a List.mem_cons_self).bind
      intro _ _
      rw [pure_bind]
      exact ih fun a' ha' => h a' (List.mem_cons_of_mem a ha')

end Yields

/-- A value that is held for its key is what the key's computation yields. -/
theorem yields_fetch
    {κ : Type} [BEq κ] [LawfulBEq κ] {cacheOf : Workspace → Cache κ α}
    {withCache : Workspace → Cache κ α → Workspace} {key : κ} {compute : Work α}
    {value : α → Prop} {failure : Failure → Prop}
    (hheld : ∀ workspace : Workspace, workspace.Sound →
      ∀ a, (key, a) ∈ (cacheOf workspace).entries → value a)
    (hcompute : Yields compute value failure)
    (hinsert : ∀ workspace : Workspace, workspace.Sound → ∀ a, value a →
      (withCache workspace ((cacheOf workspace).insert key a)).Sound) :
    Yields (Cache.fetch cacheOf withCache key compute) value failure := by
  unfold Cache.fetch
  apply Yields.of_get.bind
  intro workspace hworkspace
  cases hfound : (cacheOf workspace).find? key with
  | some a =>
      obtain ⟨before, behind, hentries, -⟩ := List.lookup_eq_some_iff.mp hfound
      refine Yields.of_pure (hheld workspace hworkspace a ?_)
      rw [hentries]
      exact List.mem_append_right _ List.mem_cons_self
  | none =>
      apply hcompute.bind
      intro a ha
      apply (Yields.of_modify fun workspace hworkspace =>
        hinsert workspace hworkspace a ha).bind
      intro
      exact fun _ => Yields.of_pure ha

section Steps

variable {failure : Failure → Prop}

theorem yields_current : Yields current (fun _ => True) failure :=
  Yields.of_get.bind fun _ _ => Yields.of_pure trivial

theorem yields_log (level : LogLevel) (message : Text) :
    Yields (log level message) (fun _ => True) failure :=
  Yields.of_modify fun _ hworkspace => ⟨hworkspace.resolutions, hworkspace.names⟩

theorem yields_isFile (path : Text) : Yields (isFile path) (fun _ => True) failure := by
  have hcount : Yields
      (modify fun workspace => { workspace with lookups := workspace.lookups + 1 } : Work PUnit)
      (fun _ => True) failure :=
    Yields.of_modify fun _ hworkspace => ⟨hworkspace.resolutions, hworkspace.names⟩
  exact hcount.bind fun _ _ => Yields.of_get.bind fun _ _ => Yields.of_pure trivial

theorem yields_filterM_isFile (candidates : List Text) :
    Yields (candidates.filterM isFile) (· ⊆ candidates) failure := by
  have haux (rest kept : List Text) (hrest : rest ⊆ candidates) (hkept : kept ⊆ candidates) :
      Yields (rest.filterAuxM isFile kept) (· ⊆ candidates) failure := by
    induction rest generalizing kept with
    | nil => exact Yields.of_pure hkept
    | cons path rest ih =>
        obtain ⟨hpath, hrest⟩ := List.cons_subset.mp hrest
        unfold List.filterAuxM
        apply (yields_isFile path).bind
        intro isFile _
        apply ih _ hrest
        cases isFile with
        | true => exact List.cons_subset.mpr ⟨hpath, hkept⟩
        | false => exact hkept
  unfold List.filterM
  apply (haux candidates [] (List.Subset.refl _) (List.nil_subset _)).bind
  intro kept hkept
  apply Yields.of_pure
  intro path hpath
  exact hkept (List.mem_reverse.mp hpath)

end Steps

end Work

namespace SearchPath

open Work

/-- Looking a path up fails only if it leads to a root directory that is not known. -/
theorem yields_lookUp (searchPath : SearchPath) (directory path : Text) :
    Yields (searchPath.lookUp directory path) (Outcome (searchPath.key directory path))
      (fun error => error = .noRoot ∧ LacksRoot searchPath.root path) := by
  unfold lookUp
  apply yields_current.bind
  intro current _
  by_cases hroot : LacksRoot searchPath.root path
  · rw [candidates_of_lacksRoot hroot]
    exact Yields.of_lift_error_bind ⟨rfl, hroot⟩
  · obtain ⟨tried, htried, hnonempty⟩ := candidates_of_not_lacksRoot hroot current directory
    rw [htried, lift_ok, pure_bind]
    apply (yields_filterM_isFile tried).bind
    intro files hfiles
    have houtcome : Outcome (searchPath.key directory path) (.ofFiles tried files) :=
      outcome_ofFiles hroot hnonempty hfiles
    simp only
    split
    · exact (yields_log _ _).bind fun _ _ => Yields.of_pure houtcome
    · exact Yields.of_pure houtcome

/-- Resolving a reference fails only if it names a file below a root directory that is not
known, and what it finds is not empty. -/
theorem yields_resolve (searchPath : SearchPath) (directory : Text) (payload : Payload) :
    Yields (searchPath.resolve directory payload)
      (fun resolution => resolution.path? ≠ some [] ∧
        ¬(namesNoFile payload.path searchPath.root = false ∧
          LacksRoot searchPath.root payload.path))
      (fun error => error = .noRoot ∧ namesNoFile payload.path searchPath.root = false ∧
        LacksRoot searchPath.root payload.path) := by
  unfold resolve
  split
  · rename_i hname
    refine Yields.of_pure ⟨by simp [Resolution.path?], ?_⟩
    simp [hname]
  · rename_i hname
    have hfetch : Yields (Cache.fetch Workspace.resolutions
        (fun workspace resolutions => { workspace with resolutions })
        (searchPath.key directory payload.path) (searchPath.lookUp directory payload.path))
        (Outcome (searchPath.key directory payload.path))
        (fun error => error = .noRoot ∧ LacksRoot searchPath.root payload.path) := by
      apply yields_fetch
      · exact fun workspace hworkspace a ha => hworkspace.resolutions _ ha
      · exact searchPath.yields_lookUp directory payload.path
      · intro workspace hworkspace a ha
        refine ⟨?_, hworkspace.names⟩
        intro entry hentry
        rcases List.mem_cons.mp hentry with rfl | hentry
        · exact ha
        · exact hworkspace.resolutions entry (List.mem_of_mem_filter hentry)
    apply hfetch.mono
    · exact fun resolution houtcome =>
        ⟨houtcome.nonempty, fun hlacks => houtcome.rooted hlacks.2⟩
    · exact fun error herror =>
        ⟨herror.1, Bool.eq_false_of_not_eq_true hname, herror.2⟩

end SearchPath

/-! ## Names after contents -/

theorem Text.hex_ne_nil {width : Nat} (hwidth : 0 < width) (n : Nat) : hex width n ≠ [] := by
  intro hnil
  have hlength := congrArg List.length hnil
  simp only [hex, List.length_append, List.length_replicate, List.length_nil] at hlength
  omega

theorem digestName_ne_nil (bytes : ByteArray) (path : Text) : digestName bytes path ≠ [] := by
  intro hnil
  have hbytes := List.flatMap_eq_nil_iff.mp (List.append_eq_nil_iff.mp hnil).1
  obtain ⟨byte, hbyte⟩ : ∃ byte, byte ∈ Md5.digest bytes.data.toList := by
    apply List.exists_mem_of_ne_nil
    simp [Md5.digest, Md5.littleEndian]
  exact Text.hex_ne_nil Nat.two_pos _ (hbytes byte hbyte)

namespace Work

theorem yields_read (path : Text) :
    Yields (read path) (fun _ => True) (fun error => ∃ cause, error = .file cause) := by
  unfold read
  apply Yields.of_get.bind
  intro workspace _
  apply Yields.of_lift
  · exact fun _ _ => trivial
  · intro error herror
    obtain ⟨cause, -, rfl⟩ := Except.mapError_eq_error.mp herror
    exact ⟨cause, rfl⟩

/-- Naming a file by the digest of its content fails only if the file cannot be read. -/
theorem yields_digestName (path : Text) :
    Yields (digestName path) (· ≠ []) (fun error => ∃ cause, error = .file cause) := by
  unfold digestName
  apply yields_fetch
  · exact fun workspace hworkspace a ha => hworkspace.names _ ha
  · have hcount : Yields
        (modify fun workspace => { workspace with reads := workspace.reads + 1 } : Work PUnit)
        (fun _ => True) (fun error => ∃ cause, error = .file cause) :=
      Yields.of_modify fun _ hworkspace => ⟨hworkspace.resolutions, hworkspace.names⟩
    apply hcount.bind
    intro _ _
    exact (yields_read path).bind fun bytes _ => Yields.of_pure (digestName_ne_nil bytes path)
  · intro workspace hworkspace a ha
    refine ⟨hworkspace.resolutions, ?_⟩
    intro entry hentry
    rcases List.mem_cons.mp hentry with rfl | hentry
    · exact ha
    · exact hworkspace.names entry (List.mem_of_mem_filter hentry)

end Work

end UrlRebase
