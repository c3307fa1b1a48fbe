import UrlRebase.Proofs.KeyedLookups

/-!
# Workspaces that only grow

Between the moments at which a workspace forgets what it found out, nothing that is there
goes away: no file and no directory, no name of a file after its content, no file that was
found to be named.  A computation `Leads` from a workspace to another that stands in such a
relation to it, whether it fails or not, and to a value of which something is true.
-/

namespace UrlRebase

/-! ## File systems -/

namespace FileSystem

/-- Whether everything that was there is still there, and the current directory is the same. -/
structure Grows (before after : FileSystem) : Prop where
  current : after.current = before.current
  present : ∀ path, before.exists? path = true → after.exists? path = true

theorem Grows.refl (files : FileSystem) : Grows files files := ⟨rfl, fun _ h => h⟩

theorem Grows.trans {a b c : FileSystem} (h : Grows a b) (h' : Grows b c) : Grows a c :=
  ⟨h'.current.trans h.current, fun path hpath => h'.present path (h.present path hpath)⟩

theorem lookup_put_self (key : Text) (file : File) (files : List (Text × File)) :
    (put key file files).lookup key = some file := by
  induction files with
  | nil => simp [put]
  | cons entry files ih =>
      unfold put
      split
      · simp
      · rename_i hentry
        rw [List.lookup_cons, beq_false_of_ne (Ne.symm hentry)]
        exact ih

theorem lookup_put_of_ne
    {key other : Text} (hother : other ≠ key) (file : File) (files : List (Text × File)) :
    (put key file files).lookup other = files.lookup other := by
  induction files with
  | nil => simp [put, List.lookup_cons, beq_false_of_ne hother]
  | cons entry files ih =>
      unfold put
      split
      · rename_i hentry
        rw [List.lookup_cons, List.lookup_cons, beq_false_of_ne hother, hentry,
          beq_false_of_ne hother]
      · rw [List.lookup_cons, List.lookup_cons, ih]

theorem key_congr {files files' : FileSystem} (h : files'.current = files.current) (path : Text) :
    files'.key path = files.key path := by
  rw [key, key, h]

theorem file?_place_self
    {files : FileSystem} {target path : Text} (file : File)
    (h : files.key path = files.key target) : (files.place target file).file? path = some file := by
  show (put (files.key target) file files.files).lookup (files.key path) = some file
  rw [h, lookup_put_self]

theorem file?_place_of_ne
    {files : FileSystem} {target path : Text} (file : File)
    (h : files.key path ≠ files.key target) :
    (files.place target file).file? path = files.file? path :=
  lookup_put_of_ne h file files.files

theorem mem_addDirectories {directories : List Text} {directory : Text} (added : List Text)
    (h : directories.contains directory = true) :
    (addDirectories directories added).contains directory = true := by
  rw [List.contains_iff_mem] at *
  exact List.mem_append_left _ h

theorem exists?_iff {files : FileSystem} {path : Text} :
    files.exists? path = true ↔
      (∃ file, files.files.lookup (files.key path) = some file) ∨
        files.directories.contains (files.key path) = true := by
  rw [exists?, Bool.or_eq_true, isFile, file?, Option.isSome_iff_exists, isDirectory]

theorem grows_makeDirectories (files : FileSystem) (path : Text) :
    Grows files (files.makeDirectories path) where
  current := rfl
  present := by
    intro other hother
    rcases exists?_iff.mp hother with hfile | hdirectory
    · exact exists?_iff.mpr (.inl hfile)
    · exact exists?_iff.mpr (.inr (mem_addDirectories _ hdirectory))

theorem exists?_place (files : FileSystem) (path : Text) (file : File) :
    (files.place path file).exists? path = true :=
  exists?_iff.mpr (.inl ⟨file, lookup_put_self _ file _⟩)

theorem grows_place (files : FileSystem) (path : Text) (file : File) :
    Grows files (files.place path file) where
  current := rfl
  present := by
    intro other hother
    by_cases hkey : files.key other = files.key path
    · refine exists?_iff.mpr (.inl ⟨file, ?_⟩)
      show (put (files.key path) file files.files).lookup (files.key other) = some file
      rw [hkey]
      exact lookup_put_self _ file _
    · rcases exists?_iff.mp hother with ⟨old, hold⟩ | hdirectory
      · exact exists?_iff.mpr (.inl ⟨old, (lookup_put_of_ne hkey file files.files).trans hold⟩)
      · exact exists?_iff.mpr (.inr (mem_addDirectories _ hdirectory))

theorem write_eq_ok
    {files after : FileSystem} {path : Text} {bytes : ByteArray}
    (h : files.write path bytes = .ok after) :
    Grows files after ∧ after.exists? path = true := by
  unfold write at h
  split at h
  · simp at h
  · obtain rfl := Except.ok.inj h
    have hclock : Grows files { files with clock := files.clock + 1 } := ⟨rfl, fun _ h => h⟩
    exact ⟨hclock.trans (grows_place _ path _), exists?_place _ _ _⟩

theorem file?_of_write
    {files after : FileSystem} {path : Text} {bytes : ByteArray}
    (h : files.write path bytes = .ok after) :
    (after.file? path).map (·.bytes) = some bytes ∧
      ∀ other, files.key other ≠ files.key path → after.file? other = files.file? other := by
  unfold write at h
  split at h
  · cases h
  · obtain rfl := Except.ok.inj h
    exact ⟨congrArg _ (file?_place_self _ rfl), fun other hother => file?_place_of_ne _ hother⟩

theorem bytes_of_read
    {files : FileSystem} {path : Text} {bytes : ByteArray} (h : files.read path = .ok bytes) :
    (files.file? path).map (·.bytes) = some bytes := by
  unfold read at h
  split at h
  · cases h
  · split at h
    · rename_i file hfile
      split at h
      · rw [hfile, Option.map_some, Except.ok.inj h]
      · cases h
    · cases h

/-- What has another key than a file that is removed stays. -/
theorem file?_remove_of_ne
    {files : FileSystem} {path other : Text} (hkey : files.key path ≠ files.key other) :
    (files.remove path).file? other = files.file? other := by
  show List.lookup (files.key other) (files.files.filter fun entry => entry.1 ≠ files.key path) =
    files.files.lookup (files.key other)
  induction files.files with
  | nil => rfl
  | cons entry rest ih =>
      by_cases hentry : entry.1 = files.key path
      · have hne : (files.key other == entry.1) = false := by
          rw [hentry]
          exact beq_false_of_ne (Ne.symm hkey)
        rw [List.filter_cons_of_neg (by simpa using hentry), ih, List.lookup_cons, hne]
      · rw [List.filter_cons_of_pos (by simpa using hentry), List.lookup_cons,
          List.lookup_cons, ih]

theorem exists?_remove
    {files : FileSystem} {path other : Text} (hkey : files.key path ≠ files.key other)
    (hother : files.exists? other = true) :
    (files.remove path).exists? other = true := by
  rwa [exists?, isFile, file?_remove_of_ne hkey]

end FileSystem

/-! ## Workspaces -/

namespace Workspace

/-- Whether all names that are held are names after a content. -/
def NamesDigests (workspace : Workspace) : Prop :=
  ∀ path name, workspace.names.find? path = some name → ∃ bytes, name = digestName bytes path

/-- Whether each name that is held is after the content of its file, but for some files, where
it is after another content. -/
def NamesBut (changed : Set Text) (workspace : Workspace) : Prop :=
  ∀ path name, workspace.names.find? path = some name →
    ∃ bytes, name = digestName bytes path ∧
      (workspace.files.key path ∈ changed ∨
        (workspace.files.file? path).map (·.bytes) = some bytes)

/-- Whether what was found out about files is still known. -/
structure Learns (before after : Workspace) : Prop where
  names : ∀ path name, before.names.find? path = some name → after.names.find? path = some name
  assets : before.assets ⊆ after.assets
  digests : before.NamesDigests → after.NamesDigests

theorem Learns.refl (workspace : Workspace) : Learns workspace workspace :=
  ⟨fun _ _ h => h, List.Subset.refl _, fun h => h⟩

theorem Learns.trans {a b c : Workspace} (h : Learns a b) (h' : Learns b c) : Learns a c :=
  ⟨fun path name hname => h'.names path name (h.names path name hname),
    List.Subset.trans h.assets h'.assets, fun hdigests => h'.digests (h.digests hdigests)⟩

/-- What does not concern names and the files that were found leaves them known. -/
theorem Learns.of_eq
    {before after : Workspace} (hnames : after.names = before.names)
    (hassets : after.assets = before.assets) : Learns before after := by
  refine ⟨?_, ?_, ?_⟩
  · rw [hnames]
    exact fun _ _ h => h
  · rw [hassets]
    exact List.Subset.refl _
  · unfold NamesDigests
    rw [hnames]
    exact fun h => h

/-- Whether a workspace is another of which more is known. -/
structure Reads (before after : Workspace) : Prop where
  files : after.files = before.files
  learns : Learns before after
  written : after.written = before.written
  named : ∀ changed, before.NamesBut changed → after.NamesBut changed

theorem Reads.of_eq
    {before after : Workspace} (hfiles : after.files = before.files)
    (hnames : after.names = before.names) (hassets : after.assets = before.assets)
    (hwritten : after.written = before.written) : Reads before after := by
  refine ⟨hfiles, .of_eq hnames hassets, hwritten, fun changed h => ?_⟩
  unfold NamesBut
  rw [hfiles, hnames]
  exact h

def writtenSince (count : Nat) (workspace : Workspace) : Set Text :=
  {key | key ∈ workspace.written.drop count}

/-- Whether a workspace is another of which more is known and to which files were written.  A
name is no longer after the content of a file just if the file was written to. -/
structure Follows (before after : Workspace) : Prop where
  files : before.files.Grows after.files
  learns : Learns before after
  written : before.written <+: after.written
  named : ∀ count ≤ before.written.length, before.NamesBut (before.writtenSince count) →
    after.NamesBut (after.writtenSince count)

theorem Reads.follows {before after : Workspace} (h : Reads before after) :
    Follows before after where
  files := h.files ▸ .refl _
  learns := h.learns
  written := h.written ▸ List.prefix_rfl
  named := by
    intro count _ hnamed
    rw [writtenSince, h.written]
    exact h.named _ hnamed

instance : IsPreorder Workspace Reads where
  refl _ := .of_eq rfl rfl rfl rfl
  trans _ _ _ h h' := ⟨h'.files.trans h.files, h.learns.trans h'.learns,
    h'.written.trans h.written, fun changed hnamed => h'.named changed (h.named changed hnamed)⟩

instance : IsPreorder Workspace Follows where
  refl workspace := ⟨.refl _, .refl workspace, List.prefix_rfl, fun _ _ h => h⟩
  trans _ _ _ h h' := ⟨h.files.trans h'.files, h.learns.trans h'.learns,
    h.written.trans h'.written, fun count hcount hnamed =>
      h'.named count (hcount.trans h.written.length_le) (h.named count hcount hnamed)⟩

end Workspace

/-! ## Computations -/

namespace Work

variable {α β : Type} {R : Workspace → Workspace → Prop}

theorem runs_bind_cases
    {action : Work α} {next : α → Work β} {before after : Workspace} {result : Except Failure β}
    (h : Runs (action >>= next) before result after) :
    (∃ a between, Runs action before (.ok a) between ∧ Runs (next a) between result after) ∨
      ∃ error, result = .error error ∧ Runs action before (.error error) after := by
  unfold Runs at *
  rw [ExceptT.run_bind, StateT.run_bind] at h
  cases hrun : action.run.run before with
  | mk outcome between =>
      rw [hrun] at h
      cases outcome with
      | ok a => exact .inl ⟨a, between, rfl, h⟩
      | error error =>
          obtain ⟨rfl, rfl⟩ := Prod.mk.inj h
          exact .inr ⟨error, rfl, rfl⟩

/-- Whether a computation on a workspace leaves one that is related to it, and if it gives a
value, then one of which something is true in the workspace that it leaves. -/
def Leads (R : Workspace → Workspace → Prop) (action : Work α) (before : Workspace)
    (post : α → Workspace → Prop) : Prop :=
  ∀ result after, Runs action before result after →
    R before after ∧ ∀ a, result = .ok a → post a after

namespace Leads

variable {action : Work α} {before : Workspace} {post post' : α → Workspace → Prop}

theorem mono
    (h : Leads R action before post)
    (hpost : ∀ a after, R before after → post a after → post' a after) :
    Leads R action before post' := by
  intro result after hruns
  obtain ⟨hrelated, hvalue⟩ := h result after hruns
  exact ⟨hrelated, fun a ha => hpost a after hrelated (hvalue a ha)⟩

theorem weaken
    {S : Workspace → Workspace → Prop} (hweaken : ∀ {a b}, R a b → S a b)
    (h : Leads R action before post) : Leads S action before post := by
  intro result after hruns
  exact (h result after hruns).imp_left hweaken

/-- A computation that gives a value reaches it by a run. -/
theorem with_runs
    (h : Leads R action before post) :
    Leads R action before fun a after => Runs action before (.ok a) after ∧ post a after := by
  intro result after hruns
  obtain ⟨hrelated, hvalue⟩ := h result after hruns
  refine ⟨hrelated, ?_⟩
  rintro a rfl
  exact ⟨hruns, hvalue a rfl⟩

theorem of_pure [IsPreorder Workspace R] {a : α} (ha : post a before) :
    Leads R (pure a) before post := by
  intro result after hruns
  obtain ⟨rfl, rfl⟩ := Prod.mk.inj hruns
  refine ⟨refl _, ?_⟩
  rintro b hb
  exact Except.ok.inj hb ▸ ha

theorem of_throw [IsPreorder Workspace R] (error : Failure) :
    Leads R (throw error : Work α) before post := by
  intro result after hruns
  obtain ⟨rfl, rfl⟩ := Prod.mk.inj hruns
  exact ⟨refl _, by simp⟩

theorem of_lift
    [IsPreorder Workspace R] {result : Except Failure α}
    (hvalue : ∀ a, result = .ok a → post a before) :
    Leads R (lift result) before post := by
  intro outcome after hruns
  obtain ⟨rfl, rfl⟩ := Prod.mk.inj hruns
  exact ⟨refl _, hvalue⟩

theorem get_bind
    {next : Workspace → Work α} (h : Leads R (next before) before post) :
    Leads R (get >>= next) before post :=
  h

theorem of_modify
    {change : Workspace → Workspace} {post : PUnit → Workspace → Prop}
    (hchange : R before (change before)) (hpost : post ⟨⟩ (change before)) :
    Leads R (modify change : Work PUnit) before post := by
  intro result after hruns
  obtain ⟨rfl, rfl⟩ := Prod.mk.inj hruns
  exact ⟨hchange, fun _ _ => hpost⟩

theorem bind
    [IsPreorder Workspace R] {next : α → Work β} {goal : β → Workspace → Prop}
    (h : Leads R action before post)
    (hnext : ∀ a between, R before between → post a between → Leads R (next a) between goal) :
    Leads R (action >>= next) before goal := by
  intro result after hruns
  rcases runs_bind_cases hruns with ⟨a, between, haction, hrest⟩ | ⟨error, rfl, haction⟩
  · obtain ⟨hrelated, hvalue⟩ := h _ _ haction
    obtain ⟨hrelated', hgoal⟩ := hnext a between hrelated (hvalue a rfl) _ _ hrest
    exact ⟨trans_of R hrelated hrelated', hgoal⟩
  · exact ⟨(h _ _ haction).1, by simp⟩

theorem lift_bind
    [IsPreorder Workspace R] {result : Except Failure α} {next : α → Work β}
    {goal : β → Workspace → Prop}
    (hnext : ∀ a, result = .ok a → Leads R (next a) before goal) :
    Leads R (lift result >>= next) before goal := by
  cases result with
  | ok a => exact hnext a rfl
  | error error => exact of_throw error

/-- What went wrong becomes the value. -/
theorem attempt (h : Leads R action before post) :
    Leads R (attempt action) before fun outcome after =>
      ∀ a, outcome = .ok a → post a after := by
  intro result after hruns
  unfold Runs at hruns
  rw [Work.attempt, ExceptT.run_lift, StateT.run_map] at hruns
  obtain ⟨rfl, rfl⟩ := Prod.mk.inj hruns
  obtain ⟨hrelated, hvalue⟩ := h _ _ rfl
  refine ⟨hrelated, ?_⟩
  rintro outcome houtcome a rfl
  exact hvalue a (Except.ok.inj houtcome)

theorem write
    [IsPreorder Workspace R] {path : Text} {bytes : ByteArray} {post : PUnit → Workspace → Prop}
    (h : ∀ files, before.files.write path bytes = .ok files →
      R before { before with files, written := before.written ++ [files.key path] } ∧
        post ⟨⟩ { before with files, written := before.written ++ [files.key path] }) :
    Leads R (Work.write path bytes) before post := by
  unfold Work.write
  apply get_bind
  cases hwrite : before.files.write path bytes with
  | error error => exact of_throw _
  | ok files => exact of_modify (h files hwrite).1 (h files hwrite).2

theorem writeText
    [IsPreorder Workspace R] {path text : Text} {post : PUnit → Workspace → Prop}
    (h : ∀ bytes, Leads R (Work.write path bytes) before post) :
    Leads R (Work.writeText path text) before post := by
  unfold Work.writeText
  split
  · exact of_throw _
  · exact h _

section Lists

variable [IsPreorder Workspace R]

/-- Each value was reached by a run from a workspace on the way. -/
theorem mapM
    {f : α → Work β} {post : α → β → Workspace → Prop} {list : List α} {before : Workspace}
    (h : ∀ a ∈ list, ∀ between, R before between → Leads R (f a) between (post a)) :
    Leads R (list.mapM f) before fun bs after =>
      List.Forall₂ (fun a b => ∃ from' to', R before from' ∧ Runs (f a) from' (.ok b) to' ∧
        post a b to' ∧ R to' after) list bs := by
  induction list generalizing before with
  | nil => exact of_pure .nil
  | cons a rest ih =>
      rw [List.mapM_cons]
      apply (h a List.mem_cons_self before (refl _)).with_runs.bind
      intro b between hbetween ⟨hruns, hb⟩
      refine Leads.bind (ih fun a' ha' between' hbetween' =>
        h a' (List.mem_cons_of_mem a ha') between' (trans_of R hbetween hbetween')) ?_
      intro others after hafter hothers
      refine of_pure (.cons ⟨before, between, refl _, hruns, hb, hafter⟩ (hothers.imp ?_))
      rintro a' b' ⟨from', to', hfrom, hto⟩
      exact ⟨from', to', trans_of R hbetween hfrom, hto⟩

/-- What holds behind each step and stays holds of all elements in the end. -/
theorem forM
    {f : α → Work PUnit} {done : α → Workspace → Prop} {list : List α} {before : Workspace}
    (hstays : ∀ a u v, R u v → done a u → done a v)
    (h : ∀ a ∈ list, ∀ between, R before between →
      Leads R (f a) between fun _ after => done a after) :
    Leads R (list.forM f) before fun _ after => ∀ a ∈ list, done a after := by
  induction list generalizing before with
  | nil => exact of_pure (by simp)
  | cons a rest ih =>
      rw [List.forM]
      apply (h a List.mem_cons_self before (refl _)).bind
      intro _ between hbetween ha
      refine Leads.mono (ih fun a' ha' between' hbetween' =>
        h a' (List.mem_cons_of_mem a ha') between' (trans_of R hbetween hbetween')) ?_
      intro _ after hafter hall a' ha'
      rcases List.mem_cons.mp ha' with rfl | ha'
      · exact hstays a' between after hafter ha
      · exact hall a' ha'

/-- A loop over a list that does nothing but run an action for each element. -/
theorem forIn
    {f : α → Work PUnit} {list : List α} {before : Workspace}
    (h : ∀ a ∈ list, ∀ between, Leads R (f a) between fun _ _ => True) :
    Leads R (ForIn.forIn list PUnit.unit fun a _ => do
      f a
      return ForInStep.yield PUnit.unit) before fun _ _ => True := by
  induction list generalizing before with
  | nil => exact of_pure trivial
  | cons a rest ih =>
      rw [List.forIn_cons, bind_assoc]
      apply (h a List.mem_cons_self before).bind
      intro _ between _ _
      rw [pure_bind]
      exact ih fun a' ha' => h a' (List.mem_cons_of_mem a ha')

theorem foldlM
    {f : β → α → Work β} {list : List α} {init : β} {before : Workspace}
    (h : ∀ b, ∀ a ∈ list, ∀ between, Leads R (f b a) between fun _ _ => True) :
    Leads R (list.foldlM f init) before fun _ _ => True := by
  induction list generalizing init before with
  | nil => exact of_pure trivial
  | cons a rest ih =>
      rw [List.foldlM_cons]
      apply (h init a List.mem_cons_self before).bind
      intro b between _ _
      exact ih fun b' a' ha' => h b' a' (List.mem_cons_of_mem a ha')

theorem filterM
    {f : α → Work Bool} {list : List α} {before : Workspace}
    (h : ∀ a ∈ list, ∀ between, Leads R (f a) between fun _ _ => True) :
    Leads R (list.filterM f) before fun _ _ => True := by
  have haux (rest kept : List α) (before : Workspace) (hrest : rest ⊆ list) :
      Leads R (rest.filterAuxM f kept) before fun _ _ => True := by
    induction rest generalizing kept before with
    | nil => exact of_pure trivial
    | cons a rest ih =>
        obtain ⟨ha, hrest⟩ := List.cons_subset.mp hrest
        unfold List.filterAuxM
        apply (h a ha before).bind
        intro isKept between _ _
        exact ih _ between hrest
  unfold List.filterM
  apply (haux list [] before (List.Subset.refl _)).bind
  intro kept between _ _
  exact of_pure trivial

end Lists

end Leads

/-- A computed value that is held from then on leaves the workspace related, if holding it
does. -/
theorem leads_fetch
    {κ : Type} [BEq κ] [IsPreorder Workspace R] {cacheOf : Workspace → Cache κ α}
    {withCache : Workspace → Cache κ α → Workspace} {key : κ} {compute : Work α}
    {before : Workspace} {post : α → Workspace → Prop} (post' : α → Workspace → Prop)
    (hheld : ∀ a, (cacheOf before).find? key = some a → post a before)
    (hcompute : (cacheOf before).find? key = none → Leads R compute before post')
    (hinsert : ∀ a between, R before between → post' a between →
      R between (withCache between ((cacheOf between).insert key a)) ∧
        post a (withCache between ((cacheOf between).insert key a))) :
    Leads R (Cache.fetch cacheOf withCache key compute) before post := by
  unfold Cache.fetch
  apply Leads.get_bind
  cases hfound : (cacheOf before).find? key with
  | some a => exact Leads.of_pure (hheld a hfound)
  | none =>
      apply (hcompute hfound).bind
      intro a between hbetween ha
      obtain ⟨hrelated, hpost⟩ := hinsert a between hbetween ha
      have hmodify : Leads R
          (modify fun state => withCache state ((cacheOf state).insert key a) : Work PUnit)
          between fun _ after => post a after :=
        Leads.of_modify hrelated hpost
      apply hmodify.bind
      exact fun _ _ _ hafter => Leads.of_pure hafter

end Work

end UrlRebase
