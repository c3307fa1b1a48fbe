import UrlRebase.Proofs.ReturnedRuns
import UrlRebase.Proofs.TransparentCaches

/-!
# Computations on files that are known

The caches of a workspace hold nothing but what some files give, and where a computation
looks the workspace shows these files.  Then the computation `Gives` what it would give on
these files without any cache, and the workspace knows them behind it as before.  So what it
gives is the same on all workspaces that know the files.
-/

namespace UrlRebase

open Work

namespace FileSystem

theorem exists_contentName {files : FileSystem} {path : Text}
    (h : (files.read path).isOk = true) : ∃ name, files.contentName path = .ok name := by
  unfold contentName
  cases hread : files.read path with
  | ok bytes => exact ⟨_, rfl⟩
  | error error => simp [hread, Except.isOk, Except.toBool] at h

/-- Whether two file systems show the same at some paths. -/
structure SameAt (paths : Set Text) (files files' : FileSystem) : Prop where
  current : files'.current = files.current
  file : ∀ path ∈ paths, files'.file? path = files.file? path
  directory : ∀ path ∈ paths, files'.isDirectory path = files.isDirectory path

variable {paths paths' : Set Text} {files files' files'' : FileSystem} {path : Text}

theorem SameAt.refl (paths : Set Text) (files : FileSystem) : SameAt paths files files :=
  ⟨rfl, fun _ _ => rfl, fun _ _ => rfl⟩

theorem SameAt.trans (h : SameAt paths files files') (h' : SameAt paths files' files'') :
    SameAt paths files files'' :=
  ⟨h'.current.trans h.current,
    fun path hpath => (h'.file path hpath).trans (h.file path hpath),
    fun path hpath => (h'.directory path hpath).trans (h.directory path hpath)⟩

theorem SameAt.mono (h : SameAt paths files files') (hpaths : paths' ⊆ paths) :
    SameAt paths' files files' :=
  ⟨h.current, fun path hpath => h.file path (hpaths hpath),
    fun path hpath => h.directory path (hpaths hpath)⟩

section

variable (h : SameAt paths files files') (hpath : path ∈ paths)
include h hpath

theorem SameAt.isFile : files'.isFile path = files.isFile path := by
  rw [FileSystem.isFile, FileSystem.isFile, h.file path hpath]

theorem SameAt.exists? : files'.exists? path = files.exists? path := by
  rw [FileSystem.exists?, FileSystem.exists?, h.isFile hpath, h.directory path hpath]

theorem SameAt.read : files'.read path = files.read path := by
  rw [FileSystem.read, FileSystem.read, h.directory path hpath, h.file path hpath]

theorem SameAt.timeOf : files'.timeOf path = files.timeOf path := by
  rw [FileSystem.timeOf, FileSystem.timeOf, h.directory path hpath, h.file path hpath]

end

end FileSystem

namespace SearchPath

/-- Whether all candidates of a path are among some paths. -/
def StaysIn (searchPath : SearchPath) (paths : Set Text) (current directory path : Text) : Prop :=
  ∀ candidates, searchPath.candidates current directory path = .ok candidates →
    ∀ candidate ∈ candidates, candidate ∈ paths

theorem outcome_of_sameAt
    {searchPath : SearchPath} {paths : Set Text} {files files' : FileSystem}
    {directory path : Text} (h : files.SameAt paths files')
    (hstays : searchPath.StaysIn paths files.current directory path) :
    searchPath.outcome files' directory path = searchPath.outcome files directory path := by
  unfold outcome
  rw [h.current]
  cases hcandidates : searchPath.candidates files.current directory path with
  | error error => rfl
  | ok candidates =>
      have hfilter : candidates.filter files'.isFile = candidates.filter files.isFile :=
        List.filter_congr fun candidate hcandidate =>
          h.isFile (hstays candidates hcandidates candidate hcandidate)
      rw [Except.map, Except.map, hfilter]

end SearchPath

/-- Whether a workspace shows some files at the given paths, and holds what they give. -/
structure Workspace.Knows (paths : Set Text) (files : FileSystem) (workspace : Workspace) :
    Prop where
  same : files.SameAt paths workspace.files
  resolutions : ∀ key resolution, workspace.resolutions.find? key = some resolution →
    key.outcome files = .ok resolution
  names : ∀ path name, workspace.names.find? path = some name →
    files.contentName path = .ok name

theorem Workspace.knows_of_sameAt
    {paths : Set Text} {files files' : FileSystem} (h : files.SameAt paths files') :
    Knows paths files { files := files' } where
  same := h
  resolutions := by simp [Cache.empty, Cache.find?]
  names := by simp [Cache.empty, Cache.find?]

theorem Workspace.knows_of_files (paths : Set Text) (files : FileSystem) :
    Knows paths files { files } :=
  knows_of_sameAt (.refl paths files)

theorem Workspace.Knows.congr
    {paths : Set Text} {files : FileSystem} {before after : Workspace}
    (h : before.Knows paths files) (hfiles : after.files = before.files)
    (hresolutions : after.resolutions = before.resolutions)
    (hnames : after.names = before.names) : after.Knows paths files :=
  ⟨hfiles ▸ h.same, hresolutions ▸ h.resolutions, hnames ▸ h.names⟩

namespace Work

variable {α β : Type} {paths : Set Text} {files : FileSystem}

/-- Whether a computation has an outcome on every workspace that knows some files, and leaves
one with the same files that does. -/
def Gives (paths : Set Text) (files : FileSystem) (action : Work α)
    (result : Except Failure α) : Prop :=
  ∀ before : Workspace, before.Knows paths files →
    ∃ after, Runs action before result after ∧ after.Knows paths files ∧
      after.files = before.files

/-- Whether a computation has the same outcome on all workspaces that know some files. -/
def Steady (paths : Set Text) (files : FileSystem) (action : Work α) : Prop :=
  ∃ result, Gives paths files action result

namespace Gives

variable {action : Work α} {result : Except Failure α} {before after : Workspace}

theorem eq_of_runs
    {result' : Except Failure α} (h : Gives paths files action result)
    (hbefore : before.Knows paths files) (hruns : Runs action before result' after) :
    result' = result ∧ after.Knows paths files ∧ after.files = before.files := by
  obtain ⟨after', hruns', hafter'⟩ := h before hbefore
  obtain ⟨rfl, rfl⟩ := Prod.mk.inj (hruns.symm.trans hruns')
  exact ⟨rfl, hafter'⟩

theorem of_pure (a : α) : Gives paths files (pure a) (.ok a) :=
  fun before hbefore => ⟨before, Runs.of_pure a before, hbefore, rfl⟩

theorem of_lift (result : Except Failure α) : Gives paths files (lift result) result :=
  fun before hbefore => ⟨before, Runs.of_lift result before, hbefore, rfl⟩

theorem of_throw (error : Failure) : Gives paths files (throw error : Work α) (.error error) :=
  of_lift (.error error)

/-- What is asked of the workspace must be something that the files tell. -/
theorem get_bind
    {next : Workspace → Work α}
    (h : ∀ before : Workspace, before.Knows paths files →
      Gives paths files (next before) result) :
    Gives paths files (get >>= next) result :=
  fun before hbefore => h before hbefore before hbefore

theorem of_modify
    {change : Workspace → Workspace}
    (h : ∀ before : Workspace, before.Knows paths files →
      (change before).Knows paths files ∧ (change before).files = before.files) :
    Gives paths files (modify change : Work PUnit) (.ok ⟨⟩) :=
  fun before hbefore => ⟨change before, Runs.of_modify change before, h before hbefore⟩

theorem bind_error
    {error : Failure} {next : α → Work β} (h : Gives paths files action (.error error)) :
    Gives paths files (action >>= next) (.error error) := by
  intro before hbefore
  obtain ⟨after, hruns, hafter⟩ := h before hbefore
  exact ⟨after, hruns.bind_error, hafter⟩

theorem bind_ok
    {a : α} {next : α → Work β} {result : Except Failure β}
    (h : Gives paths files action (.ok a)) (hnext : Gives paths files (next a) result) :
    Gives paths files (action >>= next) result := by
  intro before hbefore
  obtain ⟨between, hruns, hbetween, hfiles⟩ := h before hbefore
  obtain ⟨after, hruns', hafter, hfiles'⟩ := hnext between hbetween
  exact ⟨after, hruns.bind hruns', hafter, hfiles'.trans hfiles⟩

theorem bind
    {next : α → Work β} {next' : α → Except Failure β} (h : Gives paths files action result)
    (hnext : ∀ a, result = .ok a → Gives paths files (next a) (next' a)) :
    Gives paths files (action >>= next) (result >>= next') := by
  cases result with
  | error error => exact h.bind_error
  | ok a => exact h.bind_ok (hnext a rfl)

theorem lift_bind
    {next : α → Work β} {next' : α → Except Failure β}
    (hnext : ∀ a, result = .ok a → Gives paths files (next a) (next' a)) :
    Gives paths files (lift result >>= next) (result >>= next') :=
  (of_lift result).bind hnext

theorem attempt (h : Gives paths files action result) :
    Gives paths files (attempt action) (.ok result) := by
  intro before hbefore
  obtain ⟨after, hruns, hafter⟩ := h before hbefore
  exact ⟨after, hruns.attempt, hafter⟩

theorem mapM
    {f : α → Work β} {f' : α → Except Failure β} {list : List α}
    (h : ∀ a ∈ list, Gives paths files (f a) (f' a)) :
    Gives paths files (list.mapM f) (list.mapM f') := by
  induction list with
  | nil => exact of_pure []
  | cons a rest ih =>
      rw [List.mapM_cons, List.mapM_cons]
      refine (h a List.mem_cons_self).bind fun b _ => ?_
      refine (ih fun a' ha' => h a' (List.mem_cons_of_mem a ha')).bind fun others _ => ?_
      exact of_pure _

/-- A loop over a list that does nothing but run an action for each element. -/
theorem forIn
    {f : α → Work PUnit} {list : List α}
    (h : ∀ a ∈ list, Gives paths files (f a) (.ok ⟨⟩)) :
    Gives paths files (ForIn.forIn list PUnit.unit fun a _ => do
      f a
      return ForInStep.yield PUnit.unit) (.ok ⟨⟩) := by
  induction list with
  | nil => exact of_pure _
  | cons a rest ih =>
      rw [List.forIn_cons, bind_assoc]
      apply (h a List.mem_cons_self).bind_ok
      rw [pure_bind]
      exact ih fun a' ha' => h a' (List.mem_cons_of_mem a ha')

/-- A value that is held is the one that would be computed. -/
theorem fetch
    {κ : Type} [BEq κ] {cacheOf : Workspace → Cache κ α}
    {withCache : Workspace → Cache κ α → Workspace} {key : κ} {compute : Work α}
    (hheld : ∀ before : Workspace, before.Knows paths files →
      ∀ a, (cacheOf before).find? key = some a → result = .ok a)
    (hcompute : Gives paths files compute result)
    (hinsert : ∀ between : Workspace, between.Knows paths files → ∀ a, result = .ok a →
      (withCache between ((cacheOf between).insert key a)).Knows paths files ∧
        (withCache between ((cacheOf between).insert key a)).files = between.files) :
    Gives paths files (Cache.fetch cacheOf withCache key compute) result := by
  intro before hbefore
  cases hfound : (cacheOf before).find? key with
  | some a =>
      obtain rfl := hheld before hbefore a hfound
      exact ⟨before, runs_fetch_of_held hfound, hbefore, rfl⟩
  | none =>
      obtain ⟨between, hruns, hbetween, hfiles⟩ := hcompute before hbefore
      cases result with
      | ok a =>
          obtain ⟨hafter, hfiles'⟩ := hinsert between hbetween a rfl
          exact ⟨_, runs_fetch_of_computed hfound hruns, hafter, hfiles'.trans hfiles⟩
      | error error => exact ⟨between, runs_fetch_of_failed hfound hruns, hbetween, hfiles⟩

end Gives

namespace Steady

variable {action : Work α}

theorem of_gives {result : Except Failure α} (h : Gives paths files action result) :
    Steady paths files action :=
  ⟨result, h⟩

end Steady

/-! ## Steps -/

theorem gives_current : Gives paths files current (.ok files.current) :=
  Gives.get_bind fun _ hbefore => hbefore.same.current ▸ Gives.of_pure _

theorem gives_log (level : LogLevel) (message : Text) :
    Gives paths files (log level message) (.ok ⟨⟩) :=
  Gives.of_modify fun _ hbefore => ⟨hbefore.congr rfl rfl rfl, rfl⟩

section Path

variable {path : Text} (hpath : path ∈ paths)
include hpath

theorem gives_exists? : Gives paths files (exists? path) (.ok (files.exists? path)) :=
  Gives.get_bind fun _ hbefore => hbefore.same.exists? hpath ▸ Gives.of_pure _

theorem gives_read : Gives paths files (read path) ((files.read path).mapError .file) :=
  Gives.get_bind fun _ hbefore => hbefore.same.read hpath ▸ Gives.of_lift _

theorem gives_digestName : Gives paths files (digestName path) (files.contentName path) := by
  unfold digestName
  apply Gives.fetch
  · exact fun _ hbefore name hname => hbefore.names path name hname
  · have hcount : Gives paths files
        (modify fun workspace => { workspace with reads := workspace.reads + 1 } : Work PUnit)
        (.ok ⟨⟩) :=
      Gives.of_modify fun _ hbefore => ⟨hbefore.congr rfl rfl rfl, rfl⟩
    have hname : files.contentName path = ((files.read path).mapError Failure.file >>=
        fun bytes => .ok (UrlRebase.digestName bytes path)) := by
      unfold FileSystem.contentName
      cases files.read path <;> rfl
    rw [hname]
    exact hcount.bind_ok ((gives_read hpath).bind fun bytes _ => Gives.of_pure _)
  · intro between hbetween name hname
    refine ⟨⟨hbetween.same, hbetween.resolutions, ?_⟩, rfl⟩
    intro other found hother
    by_cases heq : other = path
    · rw [heq, Cache.find?_insert_self] at hother
      rw [heq, hname, Option.some.inj hother]
    · rw [Cache.find?_insert_of_ne _ _ heq] at hother
      exact hbetween.names other found hother

end Path

end Work

namespace SearchPath

open Work

variable {paths : Set Text} {files : FileSystem} {searchPath : SearchPath} {directory : Text}

theorem gives_lookUp
    {path : Text} (hstays : searchPath.StaysIn paths files.current directory path) :
    Gives paths files (searchPath.lookUp directory path)
      (searchPath.outcome files directory path) := by
  intro before hbefore
  have hsame := outcome_of_sameAt hbefore.same hstays
  cases houtcome : searchPath.outcome files directory path with
  | error error => exact ⟨before, runs_lookUp_of_error (hsame.trans houtcome), hbefore, rfl⟩
  | ok resolution =>
      obtain ⟨log, hruns⟩ := runs_lookUp_of_ok (hsame.trans houtcome)
      exact ⟨_, hruns, hbefore.congr rfl rfl rfl, rfl⟩

theorem gives_resolve
    {payload : Payload}
    (hstays : searchPath.StaysIn paths files.current directory payload.path) :
    Gives paths files (searchPath.resolve directory payload)
      (searchPath.answer files directory payload) := by
  unfold resolve answer
  split
  · exact Gives.of_pure _
  · rw [← outcome_key]
    apply Gives.fetch
    · exact fun _ hbefore resolution hheld => hbefore.resolutions _ resolution hheld
    · rw [outcome_key]
      exact gives_lookUp hstays
    · intro between hbetween resolution hresolution
      refine ⟨⟨hbetween.same, ?_, hbetween.names⟩, rfl⟩
      intro other found hother
      by_cases heq : other = searchPath.key directory payload.path
      · rw [heq, Cache.find?_insert_self] at hother
        rw [heq, hresolution, Option.some.inj hother]
      · rw [Cache.find?_insert_of_ne _ _ heq] at hother
        exact hbetween.resolutions other found hother

end SearchPath

end UrlRebase
