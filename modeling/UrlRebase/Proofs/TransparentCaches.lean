import UrlRebase.Proofs.KeyedLookups

/-!
# Caches that cannot be noticed

After any questions the caches hold, for each key and path that was asked for, what would be
computed for it again.  So whatever was asked before, each question is answered as it would
be without a cache, and it is known how often files were looked up and read.
-/

namespace UrlRebase

/-! ## Questions and their answers -/

/-- A question that is answered with the help of a cache. -/
inductive Query where
  /-- Where a payload in a source in a directory leads. -/
  | reference (searchPath : SearchPath) (directory : Text) (payload : Payload)
  /-- How the file at a path is named after its content. -/
  | content (path : Text)

/-- What a question is answered. -/
inductive Answer where
  | resolution (resolution : Resolution)
  | name (name : Text)

/-- The name of the file at a path after its content. -/
def FileSystem.contentName (files : FileSystem) (path : Text) : Except Failure Text :=
  ((files.read path).mapError .file).map fun bytes => digestName bytes path

namespace Query

/-- Answers a question with the help of the caches. -/
def perform : Query → Work Answer
  | .reference searchPath directory payload => .resolution <$> searchPath.resolve directory payload
  | .content path => .name <$> Work.digestName path

/-- Answers questions one after the other, those behind one that fails too. -/
def performAll (queries : List Query) : Work (List (Except Failure Answer)) :=
  queries.mapM fun query => Work.attempt query.perform

/-- The answer to a question that the files give without a cache. -/
def answer (files : FileSystem) : Query → Except Failure Answer
  | .reference searchPath directory payload =>
      if namesNoFile payload.path searchPath.root then .ok (.resolution .ignored)
      else (searchPath.outcome files directory payload.path).map .resolution
  | .content path => (files.contentName path).map .name

/-- The key of the lookup that a question asks for. -/
def key? : Query → Option SearchPath.Key
  | .reference searchPath directory payload =>
      if namesNoFile payload.path searchPath.root then none
      else some (searchPath.key directory payload.path)
  | .content _ => none

/-- The path of the file that a question asks the name of. -/
def path? : Query → Option Text
  | .reference .. => none
  | .content path => some path

end Query

/-! ## What the caches hold -/

/-- Whether a workspace is what it becomes while lookups with some keys are asked for. -/
structure LookedUp (files : FileSystem) (keys : List SearchPath.Key) (workspace : Workspace) :
    Prop where
  held : workspace.resolutions.Holds keys (·.outcome files)
  count : workspace.lookups = ∑ key ∈ keys.toFinset, key.tries files

/-- Whether a workspace is what it becomes while names of the files at some paths are asked
for. -/
structure Named (files : FileSystem) (paths : List Text) (workspace : Workspace) : Prop where
  held : workspace.names.Holds paths files.contentName
  count : workspace.reads =
    (paths.toFinset.filter fun path => (files.read path).isOk).card +
      paths.countP fun path => !(files.read path).isOk

/-- Whether a workspace is what it becomes while questions are answered. -/
structure Served (files : FileSystem) (queries : List Query) (workspace : Workspace) : Prop where
  unchanged : workspace.files = files
  lookedUp : LookedUp files (queries.filterMap Query.key?) workspace
  named : Named files (queries.filterMap Query.path?) workspace

theorem served_of_files (files : FileSystem) : Served files [] { files } where
  unchanged := rfl
  lookedUp := ⟨.of_empty _, rfl⟩
  named := ⟨.of_empty _, rfl⟩

namespace LookedUp

variable {files : FileSystem} {keys : List SearchPath.Key} {workspace after : Workspace}
  {key : SearchPath.Key}

theorem of_mem (h : LookedUp files keys workspace) (hkey : key ∈ keys) :
    LookedUp files (keys ++ [key]) workspace where
  held := h.held.of_mem hkey
  count := by
    rw [h.count, List.toFinset_append]
    simp [List.mem_toFinset.mpr hkey]

theorem of_failed
    {error : Failure} (h : LookedUp files keys workspace) (hkey : key.outcome files = .error error) :
    LookedUp files (keys ++ [key]) workspace where
  held := h.held.of_failed hkey
  count := by
    have htries : key.tries files = 0 := by rw [SearchPath.Key.tries, hkey]
    rw [h.count, List.toFinset_append]
    by_cases hmem : key ∈ keys
    · simp [List.mem_toFinset.mpr hmem]
    · simp [hmem, htries]

theorem of_computed
    {resolution : Resolution} (h : LookedUp files keys workspace) (hnew : key ∉ keys)
    (hkey : key.outcome files = .ok resolution)
    (hheld : after.resolutions = workspace.resolutions.insert key resolution)
    (hcount : after.lookups = workspace.lookups + resolution.candidates.length) :
    LookedUp files (keys ++ [key]) after where
  held := by
    rw [hheld]
    exact h.held.insert hkey
  count := by
    have htries : key.tries files = resolution.candidates.length := by
      rw [SearchPath.Key.tries, hkey]
    rw [hcount, h.count, List.toFinset_append]
    simp [hnew, htries, add_comm]

/-- What concerns lookups only is all that counts. -/
theorem congr
    (h : LookedUp files keys workspace) (hheld : after.resolutions = workspace.resolutions)
    (hcount : after.lookups = workspace.lookups) :
    LookedUp files keys after where
  held := hheld ▸ h.held
  count := hcount ▸ h.count

end LookedUp

theorem FileSystem.isOk_read_of_contentName
    {files : FileSystem} {path name : Text} (h : files.contentName path = .ok name) :
    (files.read path).isOk = true := by
  unfold contentName at h
  cases hread : files.read path with
  | ok bytes => rfl
  | error error => simp [hread, Except.mapError, Except.map] at h

namespace Named

variable {files : FileSystem} {paths : List Text} {workspace after : Workspace} {path name : Text}

theorem of_mem
    (h : Named files paths workspace) (hmem : path ∈ paths)
    (hpath : files.contentName path = .ok name) :
    Named files (paths ++ [path]) workspace where
  held := h.held.of_mem hmem
  count := by
    rw [h.count, List.toFinset_append, List.countP_append]
    simp [List.mem_toFinset.mpr hmem, FileSystem.isOk_read_of_contentName hpath]

theorem of_failed
    {error : FileError} (h : Named files paths workspace) (hpath : files.read path = .error error)
    (hheld : after.names = workspace.names) (hcount : after.reads = workspace.reads + 1) :
    Named files (paths ++ [path]) after where
  held := by
    have hname : files.contentName path = .error (.file error) := by
      rw [FileSystem.contentName, hpath]
      rfl
    rw [hheld]
    exact h.held.of_failed hname
  count := by
    have hread : (files.read path).isOk = false := by
      rw [hpath]
      rfl
    rw [hcount, h.count, List.toFinset_append, List.countP_append, Finset.filter_union]
    simp [hread, Finset.filter_singleton, add_assoc]

theorem of_computed
    (h : Named files paths workspace) (hnew : path ∉ paths)
    (hpath : files.contentName path = .ok name)
    (hheld : after.names = workspace.names.insert path name)
    (hcount : after.reads = workspace.reads + 1) :
    Named files (paths ++ [path]) after where
  held := by
    rw [hheld]
    exact h.held.insert hpath
  count := by
    have hread := FileSystem.isOk_read_of_contentName hpath
    rw [hcount, h.count, List.toFinset_append, List.countP_append, Finset.filter_union]
    simp [hread, Finset.filter_singleton, hnew]
    omega

theorem congr
    (h : Named files paths workspace) (hheld : after.names = workspace.names)
    (hcount : after.reads = workspace.reads) :
    Named files paths after where
  held := hheld ▸ h.held
  count := hcount ▸ h.count

end Named

/-! ## Answering one question -/

theorem Except.map_eq_error
    {ε α β : Type} {f : α → β} {result : Except ε α} {error : ε} :
    result.map f = .error error ↔ result = .error error := by
  cases result <;> simp [Except.map]

section Step

open Work

variable {files : FileSystem} {queries : List Query} {workspace : Workspace}

/-- Whether a workspace has the caches and the lookups of another. -/
structure CachesKept (before after : Workspace) : Prop where
  resolutions : after.resolutions = before.resolutions
  names : after.names = before.names
  lookups : after.lookups = before.lookups

theorem CachesKept.refl (workspace : Workspace) : CachesKept workspace workspace :=
  ⟨rfl, rfl, rfl⟩

/-- Whether a question that comes behind others is answered as without a cache, with the
workspace becoming another that keeps the caches if there is no answer. -/
structure Answered (files : FileSystem) (queries : List Query) (query : Query)
    (before after : Workspace) : Prop where
  runs : Runs query.perform before (query.answer files) after
  served : Served files (queries ++ [query]) after
  kept : ∀ error, query.answer files = .error error → CachesKept before after

/-- A lookup that is asked for through the cache has the outcome that it has in the files. -/
theorem LookedUp.exists_fetched
    {keys : List SearchPath.Key} (h : LookedUp files keys workspace)
    (hfiles : workspace.files = files) (searchPath : SearchPath) (directory path : Text) :
    ∃ after, Runs (Cache.fetch Workspace.resolutions
        (fun workspace resolutions => { workspace with resolutions })
        (searchPath.key directory path) (searchPath.lookUp directory path))
        workspace ((searchPath.key directory path).outcome files) after ∧
      after.files = files ∧ after.names = workspace.names ∧ after.reads = workspace.reads ∧
      LookedUp files (keys ++ [searchPath.key directory path]) after ∧
      ∀ error, (searchPath.key directory path).outcome files = .error error →
        CachesKept workspace after := by
  have houtcome := searchPath.outcome_key files directory path
  generalize searchPath.key directory path = key at houtcome
  cases hheld : workspace.resolutions.find? key with
  | some resolution =>
      obtain ⟨hmem, hresolution⟩ := (h.held key resolution).mp hheld
      simp only at hresolution
      refine ⟨workspace, ?_, hfiles, rfl, rfl, h.of_mem hmem, fun _ _ => .refl workspace⟩
      rw [hresolution]
      exact runs_fetch_of_held hheld
  | none =>
      cases hresolution : key.outcome files with
      | error error =>
          refine ⟨workspace, ?_, hfiles, rfl, rfl, h.of_failed hresolution,
            fun _ _ => .refl workspace⟩
          exact runs_fetch_of_failed hheld (SearchPath.runs_lookUp_of_error
            (hfiles ▸ houtcome.symm.trans hresolution))
      | ok resolution =>
          have hnew := h.held.notMem_of_find?_eq_none hheld hresolution
          obtain ⟨log, hlookup⟩ := SearchPath.runs_lookUp_of_ok
            (hfiles ▸ houtcome.symm.trans hresolution)
          exact ⟨_, runs_fetch_of_computed hheld hlookup, hfiles, rfl, rfl,
            h.of_computed hnew hresolution rfl rfl, fun _ hfailed => nomatch hfailed⟩

/-- A name that is asked for through the cache is the one after the content in the files. -/
theorem Named.exists_named
    {paths : List Text} (h : Named files paths workspace) (hfiles : workspace.files = files)
    (path : Text) :
    ∃ after, Runs (Work.digestName path) workspace (files.contentName path) after ∧
      after.files = files ∧ after.resolutions = workspace.resolutions ∧
      after.lookups = workspace.lookups ∧ Named files (paths ++ [path]) after ∧
      ∀ error, files.contentName path = .error error → CachesKept workspace after := by
  cases hheld : workspace.names.find? path with
  | some name =>
      obtain ⟨hmem, hname⟩ := (h.held path name).mp hheld
      refine ⟨workspace, ?_, hfiles, rfl, rfl, h.of_mem hmem hname, fun _ _ => .refl workspace⟩
      rw [hname]
      exact runs_fetch_of_held hheld
  | none =>
      have hread : workspace.files.read path = files.read path := by rw [hfiles]
      cases hbytes : files.read path with
      | error error =>
          rw [hbytes] at hread
          have hname : files.contentName path = .error (.file error) := by
            rw [FileSystem.contentName, hbytes]
            rfl
          refine ⟨{ workspace with reads := workspace.reads + 1 }, ?_, hfiles, rfl, rfl,
            h.of_failed hbytes rfl rfl, fun _ _ => ⟨rfl, rfl, rfl⟩⟩
          rw [hname]
          exact runs_digestName_of_error hheld hread
      | ok bytes =>
          rw [hbytes] at hread
          have hname : files.contentName path = .ok (digestName bytes path) := by
            rw [FileSystem.contentName, hbytes]
            rfl
          have hnew := h.held.notMem_of_find?_eq_none hheld hname
          rw [hname]
          exact ⟨_, runs_digestName_of_ok hheld hread, hfiles, rfl, rfl,
            h.of_computed hnew hname rfl rfl, fun _ hfailed => nomatch hfailed⟩

theorem Served.exists_reference
    (h : Served files queries workspace) (searchPath : SearchPath) (directory : Text)
    (payload : Payload) :
    ∃ after, Answered files queries (.reference searchPath directory payload) workspace after := by
  generalize hquery : Query.reference searchPath directory payload = query
  have hpaths : (queries ++ [query]).filterMap Query.path? = queries.filterMap Query.path? := by
    simp [← hquery, Query.path?]
  by_cases hname : namesNoFile payload.path searchPath.root = true
  · have hkeys : (queries ++ [query]).filterMap Query.key? = queries.filterMap Query.key? := by
      simp [← hquery, Query.key?, hname]
    refine ⟨workspace, ?_, ⟨h.unchanged, hkeys ▸ h.lookedUp, hpaths ▸ h.named⟩,
      fun _ _ => .refl workspace⟩
    rw [← hquery, Query.perform, SearchPath.resolve, if_pos hname, Query.answer, if_pos hname]
    exact (Runs.of_pure _ workspace).map _
  · have hkeys : (queries ++ [query]).filterMap Query.key? =
        queries.filterMap Query.key? ++ [searchPath.key directory payload.path] := by
      simp [← hquery, Query.key?, hname]
    have hanswer : query.answer files =
        ((searchPath.key directory payload.path).outcome files).map .resolution := by
      rw [← hquery, Query.answer, if_neg hname, searchPath.outcome_key files]
    obtain ⟨after, hruns, hunchanged, hnames, hreads, hlookedUp, hkept⟩ :=
      h.lookedUp.exists_fetched h.unchanged searchPath directory payload.path
    refine ⟨after, ?_, ⟨hunchanged, hkeys ▸ hlookedUp, hpaths ▸ h.named.congr hnames hreads⟩,
      fun error herror => hkept error ?_⟩
    · rw [hanswer, ← hquery, Query.perform, SearchPath.resolve, if_neg hname]
      exact hruns.map _
    · rw [hanswer] at herror
      exact Except.map_eq_error.mp herror

theorem Served.exists_content (h : Served files queries workspace) (path : Text) :
    ∃ after, Answered files queries (.content path) workspace after := by
  generalize hquery : Query.content path = query
  have hkeys : (queries ++ [query]).filterMap Query.key? = queries.filterMap Query.key? := by
    simp [← hquery, Query.key?]
  have hpaths : (queries ++ [query]).filterMap Query.path? =
      queries.filterMap Query.path? ++ [path] := by
    simp [← hquery, Query.path?]
  have hanswer : query.answer files = (files.contentName path).map .name := by
    rw [← hquery, Query.answer]
  obtain ⟨after, hruns, hunchanged, hresolutions, hlookups, hnamed, hkept⟩ :=
    h.named.exists_named h.unchanged path
  refine ⟨after, ?_, ⟨hunchanged, hkeys ▸ h.lookedUp.congr hresolutions hlookups,
    hpaths ▸ hnamed⟩, fun error herror => hkept error ?_⟩
  · rw [hanswer, ← hquery, Query.perform]
    exact hruns.map _
  · rw [hanswer] at herror
    exact Except.map_eq_error.mp herror

theorem Served.exists_answered (h : Served files queries workspace) (query : Query) :
    ∃ after, Answered files queries query workspace after := by
  cases query with
  | reference searchPath directory payload => exact h.exists_reference searchPath directory payload
  | content path => exact h.exists_content path

end Step

/-! ## Answering many questions -/

namespace Query

open Work

variable {files : FileSystem}

theorem runs_performAll
    {before : List Query} {workspace : Workspace} (h : Served files before workspace)
    (queries : List Query) :
    ∃ after, Runs (performAll queries) workspace (.ok (queries.map (answer files))) after ∧
      Served files (before ++ queries) after := by
  -- The invariant `Served` speaks of all that was asked before, so it is carried forward.
  induction queries generalizing before workspace with
  | nil => exact ⟨workspace, Runs.of_pure _ _, by rwa [List.append_nil]⟩
  | cons query rest ih =>
      obtain ⟨between, hquery⟩ := h.exists_answered query
      obtain ⟨after, hrest, hserved⟩ := ih hquery.served
      rw [List.append_assoc, List.singleton_append] at hserved
      refine ⟨after, ?_, hserved⟩
      rw [performAll, List.mapM_cons]
      apply hquery.runs.attempt.bind
      exact hrest.bind (Runs.of_pure _ after)

/-- Whatever was asked before, every question is answered as without a cache.  A file is
looked up once for each candidate of each distinct key, and read once for each distinct path
that can be read and each time for one that cannot.  A question without an answer leaves the
caches as they were. -/
theorem answers_of_caches (files : FileSystem) (queries : List Query) :
    ∃ after : Workspace,
      Runs (performAll queries) { files } (.ok (queries.map (answer files))) after ∧
      after.files = files ∧
      after.resolutions.Holds (queries.filterMap key?) (·.outcome files) ∧
      after.names.Holds (queries.filterMap path?) files.contentName ∧
      after.lookups = ∑ key ∈ (queries.filterMap key?).toFinset, key.tries files ∧
      after.reads = ((queries.filterMap path?).toFinset.filter fun path =>
          (files.read path).isOk).card +
        (queries.filterMap path?).countP (fun path => !(files.read path).isOk) ∧
      ∀ (query : Query) (error : Failure), query.answer files = .error error →
        ∃ after', Runs query.perform after (.error error) after' ∧ CachesKept after after' := by
  obtain ⟨after, hruns, hserved⟩ := runs_performAll (served_of_files files) queries
  rw [List.nil_append] at hserved
  refine ⟨after, hruns, hserved.unchanged, hserved.lookedUp.held, hserved.named.held,
    hserved.lookedUp.count, hserved.named.count, ?_⟩
  intro query error herror
  obtain ⟨after', hquery⟩ := hserved.exists_answered query
  exact ⟨after', herror ▸ hquery.runs, hquery.kept error herror⟩

theorem answers_of_repeated_questions :
    ∃ (files : FileSystem) (searchPath : SearchPath) (queries : List Query) (after : Workspace),
      queries = [.reference searchPath "/a".text ⟨"~b.png".text, [], []⟩,
        .reference searchPath "/c".text ⟨"~b.png".text, "?v".text, []⟩,
        .reference searchPath "/c".text ⟨"%2Fb.png".text, [], []⟩,
        .content "/b.png".text, .content "/b.png".text, .content "/m/b.png".text] ∧
      Runs (performAll queries) { files } (.ok (queries.map (answer files))) after ∧
      after.lookups = 1 ∧ after.reads = 2 ∧
      ∃ after', Runs (perform (.reference searchPath "/".text ⟨"%2Fb.png".text, [], []⟩)) after
        (.error .noRoot) after' ∧ CachesKept after after' := by
  let files : FileSystem := (FileSystem.empty "/".text).place "/b.png".text ⟨.empty, 0, true⟩
  let searchPath : SearchPath := ⟨["/m".text], none, false⟩
  obtain ⟨after, hruns, -, -, -, hlookups, hreads, hfailed⟩ := answers_of_caches files
    [.reference searchPath "/a".text ⟨"~b.png".text, [], []⟩,
      .reference searchPath "/c".text ⟨"~b.png".text, "?v".text, []⟩,
      .reference searchPath "/c".text ⟨"%2Fb.png".text, [], []⟩,
      .content "/b.png".text, .content "/b.png".text, .content "/m/b.png".text]
  have hnone : answer files (.reference searchPath "/".text ⟨"%2Fb.png".text, [], []⟩) =
      .error .noRoot := by
    cbv
  refine ⟨files, searchPath, _, after, rfl, hruns, ?_, ?_, hfailed _ _ hnone⟩
  · rw [hlookups]
    decide +kernel
  · rw [hreads]
    decide +kernel

end Query

end UrlRebase
