import UrlRebase.Proofs.SoundWorkspace

/-!
# Lookups and their keys

The outcome of a lookup depends on nothing but its key and the files: where the key leaves
the directory out, the path starts with a mark that its decoding keeps, and the candidates
are not below the directory.  A computation `Runs` on a workspace with an outcome; one that
is kept in a cache gives the value that is held, or else runs and then holds its value.
-/

namespace UrlRebase

/-! ## Marks that decoding keeps -/

theorem Percent.head?_decode
    {c : CodePoint} {rest : Text} (hascii : c.toNat < 0x80) (hc : c ≠ '%') :
    (decode (c :: rest)).head? = some c := by
  have hbytes : bytes (c :: rest.takeWhile isAscii) = c.toNat :: bytes (rest.takeWhile isAscii) := by
    rw [bytes]
    exact fun _ _ _ hpercent => absurd hpercent hc
  have hlead : Utf8.lead? c.toNat = some (c.toNat, []) := by
    simp only [Utf8.lead?, if_pos hascii]
  rw [decode, if_pos (by simpa [isAscii] using hascii), hbytes, Utf8.decodeLossy, hlead]
  simp [Utf8.follow, CodePoint.ofNat_toNat]

/-- A character of ASCII that starts no escape starts the text without the escapes too. -/
theorem head?_decode_unescape
    {c : CodePoint} {path : Text} (hascii : c.toNat < 0x80) (hpercent : c ≠ '%') (hslash : c ≠ '\\')
    (hpath : path.head? = some c) :
    (Percent.decode (unescape path)).head? = some c := by
  obtain ⟨rest, rfl⟩ := List.head?_eq_some_iff.mp hpath
  have hunescape : unescape (c :: rest) = c :: unescape rest := by
    rw [unescape]
    · exact fun hbackslash => absurd hbackslash hslash
    · exact fun _ _ hbackslash => absurd hbackslash hslash
  rw [hunescape]
  exact Percent.head?_decode hascii hpercent

/-! ## Lookups and their keys -/

namespace SearchPath

def outcome (searchPath : SearchPath) (files : FileSystem) (directory path : Text) :
    Except Failure Resolution :=
  (searchPath.candidates files.current directory path).map fun candidates =>
    .ofFiles candidates (candidates.filter files.isFile)

def Key.outcome (key : Key) (files : FileSystem) : Except Failure Resolution :=
  SearchPath.outcome ⟨key.modules, key.root, false⟩ files (key.directory.getD []) key.path

/-- How many candidates a lookup with a key has; one that fails has none. -/
def Key.tries (key : Key) (files : FileSystem) : Nat :=
  match key.outcome files with
  | .ok resolution => resolution.candidates.length
  | .error _ => 0

/-- Behind a mark the directory does not count. -/
theorem candidates_of_mark
    {searchPath : SearchPath} {path : Text}
    (hpath : path.head? = some moduleMark ∨ Path.isAbsolute path) (current directory : Text) :
    searchPath.candidates current directory path = searchPath.candidates current [] path := by
  unfold candidates
  simp only
  rcases hpath with hmark | habsolute
  · have hdecoded := head?_decode_unescape (by decide) (by decide) (by decide) hmark
    rw [if_pos hdecoded, if_pos hdecoded]
  · have hslash : path.head? = some (.char '/') := by simpa [Path.isAbsolute] using habsolute
    have hdecoded := head?_decode_unescape (by decide) (by decide) (by decide) hslash
    have hrooted : Path.isAbsolute (Percent.decode (unescape path)) = true := by
      simpa [Path.isAbsolute] using hdecoded
    simp only [hrooted, if_true]

/-- The outcome of a lookup is the one of its key. -/
theorem outcome_key (searchPath : SearchPath) (files : FileSystem) (directory path : Text) :
    (searchPath.key directory path).outcome files = searchPath.outcome files directory path := by
  have hcandidates (directory : Text) :
      candidates ⟨searchPath.modules, searchPath.root, false⟩ files.current directory path =
        searchPath.candidates files.current directory path := rfl
  unfold Key.outcome outcome key
  simp only [hcandidates]
  split
  · rename_i hmark
    rw [Option.getD_none, ← candidates_of_mark hmark]
  · rfl

theorem candidates_ofFiles (candidates files : List Text) :
    (Resolution.ofFiles candidates files).candidates = candidates := by
  cases files <;> rfl

end SearchPath

/-! ## Entries of a cache -/

namespace Cache

variable {κ α : Type} [BEq κ]

theorem find?_insert_self [LawfulBEq κ] (cache : Cache κ α) (key : κ) (value : α) :
    (cache.insert key value).find? key = some value := by
  simp [find?, insert]

theorem find?_insert_of_ne
    [LawfulBEq κ] (cache : Cache κ α) {key other : κ} (value : α) (h : other ≠ key) :
    (cache.insert key value).find? other = cache.find? other := by
  simp only [find?, insert, erase, List.lookup_cons, beq_false_of_ne h]
  induction cache.entries with
  | nil => rfl
  | cons entry entries ih =>
      by_cases hentry : key = entry.1
      · have hother : (other == entry.1) = false := by
          rw [← hentry]
          exact beq_false_of_ne h
        rw [List.filter_cons_of_neg (by simpa using hentry), ih, List.lookup_cons, hother]
      · rw [List.filter_cons_of_pos (by simpa using hentry), List.lookup_cons, ih,
          List.lookup_cons]

/-- Whether a cache holds the values that were computed for some keys; those of which the
computation fails are not held. -/
def Holds {ε : Type} (cache : Cache κ α) (keys : List κ) (outcome : κ → Except ε α) : Prop :=
  ∀ key value, cache.find? key = some value ↔ key ∈ keys ∧ outcome key = .ok value

namespace Holds

variable {ε : Type} {cache : Cache κ α} {keys : List κ} {outcome : κ → Except ε α} {key : κ}

theorem of_empty (outcome : κ → Except ε α) : (empty : Cache κ α).Holds [] outcome := by
  simp [Holds, find?, empty]

theorem of_mem (h : cache.Holds keys outcome) (hkey : key ∈ keys) :
    cache.Holds (keys ++ [key]) outcome := by
  intro other value
  have hmem : other ∈ keys ++ [key] ↔ other ∈ keys := by
    rw [List.mem_append, List.mem_singleton, or_iff_left_of_imp]
    exact fun hother => hother ▸ hkey
  rw [h, hmem]

theorem of_failed {error : ε} (h : cache.Holds keys outcome) (hkey : outcome key = .error error) :
    cache.Holds (keys ++ [key]) outcome := by
  intro other value
  rw [h, List.mem_append, List.mem_singleton]
  constructor
  · exact fun hother => ⟨.inl hother.1, hother.2⟩
  · rintro ⟨hother | rfl, hvalue⟩
    · exact ⟨hother, hvalue⟩
    · rw [hkey] at hvalue
      simp at hvalue

theorem notMem_of_find?_eq_none
    {value : α} (h : cache.Holds keys outcome) (hheld : cache.find? key = none)
    (hkey : outcome key = .ok value) : key ∉ keys := by
  intro hmem
  rw [(h key value).mpr ⟨hmem, hkey⟩] at hheld
  simp at hheld

theorem insert
    [LawfulBEq κ] {value : α} (h : cache.Holds keys outcome) (hkey : outcome key = .ok value) :
    (cache.insert key value).Holds (keys ++ [key]) outcome := by
  intro other value'
  rw [List.mem_append, List.mem_singleton]
  by_cases hother : other = key
  · subst hother
    rw [find?_insert_self, hkey]
    simp
  · rw [find?_insert_of_ne _ _ hother, h]
    simp [hother]

end Holds

end Cache

/-! ## Runs of computations -/

namespace Work

variable {α β : Type}

/-- Whether a computation on a workspace has an outcome and leaves another workspace. -/
def Runs (action : Work α) (before : Workspace) (result : Except Failure α)
    (after : Workspace) : Prop :=
  action.run.run before = (result, after)

namespace Runs

variable {action : Work α} {before between after : Workspace} {a : α}

theorem of_pure (a : α) (workspace : Workspace) : Runs (pure a) workspace (.ok a) workspace := rfl

theorem of_lift (result : Except Failure α) (workspace : Workspace) :
    Runs (lift result) workspace result workspace := rfl

theorem of_get (workspace : Workspace) :
    Runs (get : Work Workspace) workspace (.ok workspace) workspace := rfl

theorem of_modify (change : Workspace → Workspace) (workspace : Workspace) :
    Runs (modify change : Work PUnit) workspace (.ok ⟨⟩) (change workspace) := rfl

theorem bind
    {next : α → Work β} {result : Except Failure β} (h : Runs action before (.ok a) between)
    (hnext : Runs (next a) between result after) :
    Runs (action >>= next) before result after := by
  unfold Runs at *
  rw [ExceptT.run_bind, StateT.run_bind, h]
  exact hnext

theorem bind_error
    {error : Failure} {next : α → Work β} (h : Runs action before (.error error) after) :
    Runs (action >>= next) before (.error error) after := by
  unfold Runs at *
  rw [ExceptT.run_bind, StateT.run_bind, h]
  rfl

theorem map
    {result : Except Failure α} (f : α → β) (h : Runs action before result after) :
    Runs (f <$> action) before (result.map f) after := by
  rw [map_eq_pure_bind]
  cases result with
  | ok a => exact h.bind (of_pure (f a) after)
  | error error => exact h.bind_error

theorem attempt {result : Except Failure α} (h : Runs action before result after) :
    Runs (attempt action) before (.ok result) after := by
  unfold Runs at *
  rw [Work.attempt, ExceptT.run_lift, StateT.run_map, h]
  rfl

end Runs

theorem runs_isFile (path : Text) (workspace : Workspace) :
    Runs (isFile path) workspace (.ok (workspace.files.isFile path))
      { workspace with lookups := workspace.lookups + 1 } :=
  (Runs.of_modify _ workspace).bind ((Runs.of_get _).bind (Runs.of_pure _ _))

theorem runs_filterM_isFile (paths : List Text) (workspace : Workspace) :
    Runs (paths.filterM isFile) workspace (.ok (paths.filter workspace.files.isFile))
      { workspace with lookups := workspace.lookups + paths.length } := by
  have haux (kept : List Text) :
      Runs (paths.filterAuxM isFile kept) workspace
        (.ok ((paths.filter workspace.files.isFile).reverse ++ kept))
        { workspace with lookups := workspace.lookups + paths.length } := by
    induction paths generalizing kept workspace with
    | nil => exact Runs.of_pure kept workspace
    | cons path rest ih =>
        unfold List.filterAuxM
        apply (runs_isFile path workspace).bind
        have hrest := ih { workspace with lookups := workspace.lookups + 1 }
          (cond (workspace.files.isFile path) (path :: kept) kept)
        have hlength : workspace.lookups + (path :: rest).length =
            workspace.lookups + 1 + rest.length := by
          rw [List.length_cons]
          omega
        rw [hlength]
        cases hfile : workspace.files.isFile path with
        | true => simpa [hfile] using hrest
        | false => simpa [hfile] using hrest
  unfold List.filterM
  apply (haux []).bind
  rw [List.append_nil, List.reverse_reverse]
  exact Runs.of_pure _ _

section Fetch

variable {κ α : Type} [BEq κ] {cacheOf : Workspace → Cache κ α}
  {withCache : Workspace → Cache κ α → Workspace} {key : κ} {compute : Work α}
  {before after : Workspace}

theorem runs_fetch_of_held {a : α} (hheld : (cacheOf before).find? key = some a) :
    Runs (Cache.fetch cacheOf withCache key compute) before (.ok a) before := by
  unfold Cache.fetch
  apply (Runs.of_get before).bind
  rw [hheld]
  exact Runs.of_pure a before

theorem runs_fetch_of_computed
    {a : α} (hheld : (cacheOf before).find? key = none) (hcompute : Runs compute before (.ok a) after) :
    Runs (Cache.fetch cacheOf withCache key compute) before (.ok a)
      (withCache after ((cacheOf after).insert key a)) := by
  unfold Cache.fetch
  apply (Runs.of_get before).bind
  rw [hheld]
  apply hcompute.bind
  exact (Runs.of_modify _ after).bind (Runs.of_pure a _)

theorem runs_fetch_of_failed
    {error : Failure} (hheld : (cacheOf before).find? key = none)
    (hcompute : Runs compute before (.error error) after) :
    Runs (Cache.fetch cacheOf withCache key compute) before (.error error) after := by
  unfold Cache.fetch
  apply (Runs.of_get before).bind
  rw [hheld]
  exact hcompute.bind_error

end Fetch

section Content

variable {path : Text} {workspace : Workspace}

theorem runs_digestName_of_ok
    {bytes : ByteArray} (hheld : workspace.names.find? path = none)
    (hbytes : workspace.files.read path = .ok bytes) :
    Runs (digestName path) workspace (.ok (UrlRebase.digestName bytes path))
      { workspace with
        reads := workspace.reads + 1
        names := workspace.names.insert path (UrlRebase.digestName bytes path) } := by
  let between : Workspace := { workspace with reads := workspace.reads + 1 }
  have hread : Runs (read path) between (.ok bytes) between := by
    apply (Runs.of_get between).bind
    rw [show between.files.read path = .ok bytes from hbytes]
    exact Runs.of_lift _ between
  have hcompute : Runs (do
      modify fun workspace => { workspace with reads := workspace.reads + 1 }
      return UrlRebase.digestName (← read path) path) workspace
      (.ok (UrlRebase.digestName bytes path)) between := by
    apply (Runs.of_modify _ workspace).bind
    exact hread.bind (Runs.of_pure _ between)
  unfold digestName
  exact runs_fetch_of_computed hheld hcompute

theorem runs_digestName_of_error
    {error : FileError} (hheld : workspace.names.find? path = none)
    (hbytes : workspace.files.read path = .error error) :
    Runs (digestName path) workspace (.error (.file error))
      { workspace with reads := workspace.reads + 1 } := by
  let between : Workspace := { workspace with reads := workspace.reads + 1 }
  have hread : Runs (read path) between (.error (.file error)) between := by
    apply (Runs.of_get between).bind
    rw [show between.files.read path = .error error from hbytes]
    exact Runs.of_lift _ between
  refine runs_fetch_of_failed hheld ?_
  apply (Runs.of_modify _ workspace).bind
  exact hread.bind_error

end Content

end Work

namespace SearchPath

open Work

variable {searchPath : SearchPath} {directory path : Text} {workspace : Workspace}

theorem runs_lookUp_of_ok
    {resolution : Resolution}
    (h : searchPath.outcome workspace.files directory path = .ok resolution) :
    ∃ log, Runs (searchPath.lookUp directory path) workspace (.ok resolution)
      { workspace with lookups := workspace.lookups + resolution.candidates.length, log } := by
  unfold outcome at h
  obtain ⟨tried, htried, rfl⟩ : ∃ tried,
      searchPath.candidates workspace.files.current directory path = .ok tried ∧
        .ofFiles tried (tried.filter workspace.files.isFile) = resolution := by
    cases htried : searchPath.candidates workspace.files.current directory path with
    | error error => simp [htried, Except.map] at h
    | ok tried =>
        rw [htried] at h
        exact ⟨tried, rfl, Except.ok.inj h⟩
  generalize hresolution : Resolution.ofFiles tried (tried.filter workspace.files.isFile) = resolution
  have hlength : resolution.candidates.length = tried.length := by
    rw [← hresolution, candidates_ofFiles]
  rw [hlength]
  refine ⟨if searchPath.debug then workspace.log ++ [⟨.debug, report directory path resolution⟩]
    else workspace.log, ?_⟩
  unfold lookUp
  apply ((Runs.of_get workspace).bind (Runs.of_pure _ _)).bind
  rw [htried]
  apply (Runs.of_lift _ _).bind
  apply (runs_filterM_isFile tried workspace).bind
  simp only [hresolution]
  split
  · exact (Runs.of_modify _ _).bind (Runs.of_pure _ _)
  · exact Runs.of_pure _ _

theorem runs_lookUp_of_error
    {error : Failure} (h : searchPath.outcome workspace.files directory path = .error error) :
    Runs (searchPath.lookUp directory path) workspace (.error error) workspace := by
  unfold outcome at h
  have hcandidates :
      searchPath.candidates workspace.files.current directory path = .error error := by
    cases hcandidates : searchPath.candidates workspace.files.current directory path with
    | ok tried => simp [hcandidates, Except.map] at h
    | error cause =>
        rw [hcandidates] at h
        exact congrArg _ (Except.error.inj h)
  unfold lookUp
  apply ((Runs.of_get workspace).bind (Runs.of_pure _ _)).bind
  rw [hcandidates]
  exact (Runs.of_lift _ _).bind_error

end SearchPath

end UrlRebase
