import UrlRebase.Proofs.GrowingWorkspace

/-!
# Computations that are blind to the past

A workspace counts accesses, keeps a log and notes what was written.  These only tell what
happened.  A computation that is blind to them does the same, to the same end, on two
workspaces that differ in nothing else, and adds the same to what was told before.
-/

namespace UrlRebase

/-- What a workspace tells of its past. -/
structure Past where
  lookups : Nat
  reads : Nat
  log : List LogEntry
  written : List Text

namespace Past

/-- A workspace with something told before all that it tells itself. -/
def before (past : Past) (workspace : Workspace) : Workspace :=
  { workspace with
    lookups := past.lookups + workspace.lookups
    reads := past.reads + workspace.reads
    log := past.log ++ workspace.log
    written := past.written ++ workspace.written }

/-- All that a workspace tells of its past. -/
def of (workspace : Workspace) : Past :=
  ⟨workspace.lookups, workspace.reads, workspace.log, workspace.written⟩

/-- A workspace that tells nothing of its past. -/
def silent (workspace : Workspace) : Workspace :=
  { workspace with lookups := 0, reads := 0, log := [], written := [] }

theorem before_silent (workspace : Workspace) :
    (of workspace).before (silent workspace) = workspace := by
  simp [of, silent, before]

end Past

namespace Work

variable {α β : Type}

/-- Whether a computation does the same whatever was told before, and stays where it is. -/
structure Blind (action : Work α) : Prop where
  before : ∀ (past : Past) {workspace after : Workspace} {result : Except Failure α},
    Runs action workspace result after →
      Runs action (past.before workspace) result (past.before after)
  current : ∀ {workspace after : Workspace} {result : Except Failure α},
    Runs action workspace result after → after.files.current = workspace.files.current

namespace Blind

variable {action : Work α}

theorem of_lift (outcome : Except Failure α) : Blind (lift outcome) where
  before := by
    intro past workspace after result hruns
    obtain ⟨rfl, rfl⟩ := Prod.mk.inj hruns
    rfl
  current := by
    intro workspace after result hruns
    obtain ⟨rfl, rfl⟩ := Prod.mk.inj hruns
    rfl

theorem of_pure (a : α) : Blind (pure a) :=
  of_lift (.ok a)

theorem of_throw (error : Failure) : Blind (throw error : Work α) :=
  of_lift (.error error)

/-- What is asked of the workspace must be nothing of what it tells of its past. -/
theorem get_bind
    {next : Workspace → Work α}
    (hsame : ∀ (past : Past) workspace, next (past.before workspace) = next workspace)
    (h : ∀ workspace, Blind (next workspace)) : Blind (get >>= next) where
  before := by
    intro past workspace after result hruns
    have hnext := (h workspace).before past hruns
    rw [← hsame past workspace] at hnext
    exact hnext
  current := fun {workspace} _ _ hruns => (h workspace).current hruns

theorem of_modify
    {change : Workspace → Workspace}
    (hsame : ∀ (past : Past) workspace,
      change (past.before workspace) = past.before (change workspace))
    (hcurrent : ∀ workspace, (change workspace).files.current = workspace.files.current) :
    Blind (modify change : Work PUnit) where
  before := by
    intro past workspace after result hruns
    obtain ⟨rfl, rfl⟩ := Prod.mk.inj hruns
    rw [← hsame past workspace]
    rfl
  current := by
    intro workspace after result hruns
    obtain ⟨rfl, rfl⟩ := Prod.mk.inj hruns
    exact hcurrent workspace

theorem bind {next : α → Work β} (h : Blind action) (hnext : ∀ a, Blind (next a)) :
    Blind (action >>= next) where
  before := by
    intro past workspace after result hruns
    rcases runs_bind_cases hruns with ⟨a, between, haction, hrest⟩ | ⟨error, rfl, haction⟩
    · exact (h.before past haction).bind ((hnext a).before past hrest)
    · exact (h.before past haction).bind_error
  current := by
    intro workspace after result hruns
    rcases runs_bind_cases hruns with ⟨a, between, haction, hrest⟩ | ⟨error, rfl, haction⟩
    · exact ((hnext a).current hrest).trans (h.current haction)
    · exact h.current haction

theorem lift_bind
    {outcome : Except Failure α} {next : α → Work β} (hnext : ∀ a, Blind (next a)) :
    Blind (lift outcome >>= next) :=
  (of_lift outcome).bind hnext

theorem runs_of_attempt
    {workspace after : Workspace} {result : Except Failure (Except Failure α)}
    (hruns : Runs (attempt action) workspace result after) :
    ∃ outcome, result = .ok outcome ∧ Runs action workspace outcome after := by
  unfold Runs at *
  rw [Work.attempt, ExceptT.run_lift, StateT.run_map] at hruns
  obtain ⟨rfl, rfl⟩ := Prod.mk.inj hruns
  exact ⟨_, rfl, rfl⟩

theorem attempt (h : Blind action) : Blind (attempt action) where
  before := by
    intro past workspace after result hruns
    obtain ⟨outcome, rfl, haction⟩ := runs_of_attempt hruns
    exact (h.before past haction).attempt
  current := by
    intro workspace after result hruns
    obtain ⟨outcome, rfl, haction⟩ := runs_of_attempt hruns
    exact h.current haction

section Lists

variable {list : List α}

theorem mapM {f : α → Work β} (h : ∀ a, Blind (f a)) : Blind (list.mapM f) := by
  induction list with
  | nil => exact of_pure []
  | cons a rest ih =>
      rw [List.mapM_cons]
      exact (h a).bind fun b => ih.bind fun others => of_pure (b :: others)

theorem forM {f : α → Work PUnit} (h : ∀ a, Blind (f a)) : Blind (list.forM f) := by
  induction list with
  | nil => exact of_pure PUnit.unit
  | cons a rest ih => exact (h a).bind fun _ => ih

theorem forIn {f : α → Work PUnit} (h : ∀ a, Blind (f a)) :
    Blind (ForIn.forIn list PUnit.unit fun a _ => do
      f a
      return ForInStep.yield PUnit.unit) := by
  induction list with
  | nil => exact of_pure PUnit.unit
  | cons a rest ih =>
      rw [List.forIn_cons, bind_assoc]
      apply (h a).bind
      intro _
      rw [pure_bind]
      exact ih

theorem foldlM {f : β → α → Work β} (h : ∀ b a, Blind (f b a)) (init : β) :
    Blind (list.foldlM f init) := by
  induction list generalizing init with
  | nil => exact of_pure init
  | cons a rest ih =>
      rw [List.foldlM_cons]
      exact (h init a).bind ih

theorem filterM {f : α → Work Bool} (h : ∀ a, Blind (f a)) : Blind (list.filterM f) := by
  have haux (kept : List α) : Blind (list.filterAuxM f kept) := by
    induction list generalizing kept with
    | nil => exact of_pure kept
    | cons a rest ih =>
        unfold List.filterAuxM
        exact (h a).bind fun isKept => ih _
  unfold List.filterM
  exact (haux []).bind fun kept => of_pure kept.reverse

end Lists

theorem fetch
    {κ : Type} [BEq κ] {cacheOf : Workspace → Cache κ α}
    {withCache : Workspace → Cache κ α → Workspace} {key : κ} {compute : Work α}
    (hcache : ∀ (past : Past) workspace, cacheOf (past.before workspace) = cacheOf workspace)
    (hwith : ∀ (past : Past) workspace cache,
      withCache (past.before workspace) cache = past.before (withCache workspace cache))
    (hcurrent : ∀ workspace cache,
      (withCache workspace cache).files.current = workspace.files.current)
    (hcompute : Blind compute) : Blind (Cache.fetch cacheOf withCache key compute) := by
  unfold Cache.fetch
  apply get_bind
  · intro past workspace
    rw [hcache]
  · intro workspace
    split
    · exact of_pure _
    · have hmodify (a : α) : Blind
          (modify fun state => withCache state ((cacheOf state).insert key a) : Work PUnit) := by
        apply of_modify
        · intro past state
          rw [hcache, hwith]
        · exact fun state => hcurrent state _
      exact hcompute.bind fun a => (hmodify a).bind fun _ => of_pure a

end Blind

/-- A computation that is blind to the past runs on a workspace as on one without a past, and
adds what it tells to what the workspace told. -/
theorem Blind.runs_iff
    {action : Work α} (h : Blind action) (past : Past) {workspace after : Workspace}
    {result : Except Failure α} :
    Runs action (past.before workspace) result after ↔
      ∃ after', Runs action workspace result after' ∧ after = past.before after' := by
  constructor
  · intro hruns
    have hruns' := h.before past (show Runs action workspace _ _ from rfl)
    obtain ⟨rfl, rfl⟩ := Prod.mk.inj (hruns.symm.trans hruns')
    exact ⟨_, rfl, rfl⟩
  · rintro ⟨after', hruns, rfl⟩
    exact h.before past hruns

/-! ## Runs that give values -/

section Values

variable {before after : Workspace}

theorem eq_of_pure {a b : α} (h : Runs (pure a) before (.ok b) after) : a = b ∧ before = after := by
  obtain ⟨hab, hsame⟩ := Prod.mk.inj h
  exact ⟨Except.ok.inj hab, hsame⟩

theorem eq_of_current {directory : Text} (h : Runs current before (.ok directory) after) :
    before.files.current = directory ∧ before = after := by
  obtain ⟨hdirectory, hsame⟩ := Prod.mk.inj h
  exact ⟨Except.ok.inj hdirectory, hsame⟩

theorem exists_of_bind
    {action : Work α} {next : α → Work β} {b : β}
    (h : Runs (action >>= next) before (.ok b) after) :
    ∃ a between, Runs action before (.ok a) between ∧ Runs (next a) between (.ok b) after := by
  rcases runs_bind_cases h with hruns | ⟨_, hfailed, -⟩
  · exact hruns
  · cases hfailed

theorem exists_of_lift_bind
    {result : Except Failure α} {next : α → Work β} {b : β}
    (h : Runs (lift result >>= next) before (.ok b) after) :
    ∃ a, result = .ok a ∧ Runs (next a) before (.ok b) after := by
  cases result with
  | ok a => exact ⟨a, rfl, h⟩
  | error error => cases (Prod.mk.inj h).1

theorem exists_of_mapM_cons
    {f : α → Work β} {a : α} {rest : List α} {bs : List β}
    (h : Runs ((a :: rest).mapM f) before (.ok bs) after) :
    ∃ b between others, Runs (f a) before (.ok b) between ∧
      Runs (rest.mapM f) between (.ok others) after ∧ bs = b :: others := by
  rw [List.mapM_cons] at h
  obtain ⟨b, between, hb, h⟩ := exists_of_bind h
  obtain ⟨others, _, hothers, h⟩ := exists_of_bind h
  obtain ⟨rfl, rfl⟩ := eq_of_pure h
  exact ⟨b, between, others, hb, hothers, rfl⟩

theorem length_of_mapM
    {f : α → Work β} {list : List α} {bs : List β} (h : Runs (list.mapM f) before (.ok bs) after) :
    bs.length = list.length := by
  induction list generalizing before bs with
  | nil =>
      obtain ⟨rfl, -⟩ := eq_of_pure h
      rfl
  | cons a rest ih =>
      obtain ⟨b, between, others, -, hothers, rfl⟩ := exists_of_mapM_cons h
      rw [List.length_cons, List.length_cons, ih hothers]

/-- Each value was reached by a run that started in the same directory. -/
theorem Blind.exists_of_mem_mapM
    {f : α → Work β} (hf : ∀ a, Blind (f a)) {list : List α} {bs : List β}
    (h : Runs (list.mapM f) before (.ok bs) after) {b : β} (hb : b ∈ bs) :
    ∃ a ∈ list, ∃ from' to', Runs (f a) from' (.ok b) to' ∧
      from'.files.current = before.files.current := by
  induction list generalizing before bs with
  | nil =>
      obtain ⟨rfl, -⟩ := eq_of_pure h
      cases hb
  | cons a rest ih =>
      obtain ⟨first, between, others, hfirst, hothers, rfl⟩ := exists_of_mapM_cons h
      rcases List.mem_cons.mp hb with rfl | hb
      · exact ⟨a, List.mem_cons_self, before, between, hfirst, rfl⟩
      · obtain ⟨a', ha', from', to', hruns, hcurrent⟩ := ih hothers hb
        exact ⟨a', List.mem_cons_of_mem a ha', from', to', hruns,
          hcurrent.trans ((hf a).current hfirst)⟩

end Values

end Work

end UrlRebase
