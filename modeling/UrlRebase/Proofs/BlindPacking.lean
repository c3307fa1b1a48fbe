import UrlRebase.Pack.Output
import UrlRebase.Proofs.BlindWork
import UrlRebase.Proofs.NamedReferences

/-!
# Packing is blind to the past

No step of packing looks at the counts of accesses, at the log or at what was written before.
So a pack does the same whatever was told, as long as the files and what is known about them
are the same.
-/

namespace UrlRebase

open Work Blind

/-! ## Files -/

theorem blind_current : Blind current :=
  get_bind (fun _ _ => rfl) fun _ => of_pure _

theorem blind_log (level : LogLevel) (message : Text) : Blind (log level message) := by
  apply of_modify
  · intro past workspace
    simp only [Past.before, List.append_assoc]
  · exact fun _ => rfl

theorem blind_isFile (path : Text) : Blind (isFile path) := by
  have hcount : Blind (modify fun workspace =>
      { workspace with lookups := workspace.lookups + 1 } : Work PUnit) := by
    apply of_modify
    · intro past workspace
      simp only [Past.before, Nat.add_assoc]
    · exact fun _ => rfl
  exact hcount.bind fun _ => get_bind (fun _ _ => rfl) fun _ => of_pure _

theorem blind_exists? (path : Text) : Blind (exists? path) :=
  get_bind (fun _ _ => rfl) fun _ => of_pure _

theorem blind_read (path : Text) : Blind (read path) :=
  get_bind (fun _ _ => rfl) fun _ => of_lift _

theorem blind_readText (path : Text) : Blind (readText path) := by
  unfold readText
  apply (blind_read path).bind
  intro bytes
  split
  · exact of_throw _
  · exact of_pure _

theorem blind_makeDirectories (path : Text) : Blind (makeDirectories path) :=
  of_modify (fun _ _ => rfl) fun _ => rfl

theorem runs_write_of_error
    {path : Text} {bytes : ByteArray} {workspace : Workspace} {error : FileError}
    (h : workspace.files.write path bytes = .error error) :
    Runs (write path bytes) workspace (.error (.file error)) workspace := by
  unfold Work.write
  apply (Runs.of_get workspace).bind
  rw [h]
  rfl

theorem runs_write_of_ok
    {path : Text} {bytes : ByteArray} {workspace : Workspace} {files : FileSystem}
    (h : workspace.files.write path bytes = .ok files) :
    Runs (write path bytes) workspace (.ok ⟨⟩)
      { workspace with files, written := workspace.written ++ [files.key path] } := by
  unfold Work.write
  apply (Runs.of_get workspace).bind
  rw [h]
  rfl

theorem blind_write (path : Text) (bytes : ByteArray) : Blind (write path bytes) where
  before := by
    intro past workspace after result hruns
    cases hwrite : workspace.files.write path bytes with
    | error error =>
        obtain ⟨rfl, rfl⟩ := Prod.mk.inj (hruns.symm.trans (runs_write_of_error hwrite))
        exact runs_write_of_error hwrite
    | ok files =>
        obtain ⟨rfl, rfl⟩ := Prod.mk.inj (hruns.symm.trans (runs_write_of_ok hwrite))
        have hruns' := @runs_write_of_ok path bytes (past.before workspace) files hwrite
        simpa only [Past.before, List.append_assoc] using hruns'
  current := by
    intro workspace after result hruns
    cases hwrite : workspace.files.write path bytes with
    | error error =>
        obtain ⟨rfl, rfl⟩ := Prod.mk.inj (hruns.symm.trans (runs_write_of_error hwrite))
        rfl
    | ok files =>
        obtain ⟨rfl, rfl⟩ := Prod.mk.inj (hruns.symm.trans (runs_write_of_ok hwrite))
        exact (FileSystem.write_eq_ok hwrite).1.current

theorem blind_writeText (path text : Text) : Blind (writeText path text) := by
  unfold writeText
  split
  · exact of_throw _
  · exact blind_write path _

/-! ## References -/

theorem blind_digestName (path : Text) : Blind (Work.digestName path) := by
  have hcount : Blind (modify fun workspace =>
      { workspace with reads := workspace.reads + 1 } : Work PUnit) := by
    apply of_modify
    · intro past workspace
      simp only [Past.before, Nat.add_assoc]
    · exact fun _ => rfl
  refine fetch ?_ ?_ ?_ (hcount.bind fun _ => (blind_read path).bind fun bytes => of_pure _)
  · exact fun _ _ => rfl
  · exact fun _ _ _ => rfl
  · exact fun _ _ => rfl

namespace SearchPath

variable (searchPath : SearchPath)

theorem blind_lookUp (directory path : Text) : Blind (searchPath.lookUp directory path) := by
  unfold lookUp
  apply blind_current.bind
  intro current
  apply lift_bind
  intro candidates
  apply (filterM blind_isFile).bind
  intro files
  simp only
  split
  · exact (blind_log _ _).bind fun _ => of_pure _
  · exact of_pure _

theorem blind_resolve (directory : Text) (payload : Payload) :
    Blind (searchPath.resolve directory payload) := by
  unfold resolve
  split
  · exact of_pure _
  · refine fetch ?_ ?_ ?_ (searchPath.blind_lookUp directory payload.path)
    · exact fun _ _ => rfl
    · exact fun _ _ _ => rfl
    · exact fun _ _ => rfl

end SearchPath

namespace Rebaser

variable {rebaser : Rebaser}

theorem blind_rebaseResolved
    (hname : ∀ path, Blind (rebaser.nameFile path)) (origin : Origin) (token : Token)
    (resolution : Resolution) : Blind (rebaser.rebaseResolved origin token resolution) := by
  unfold rebaseResolved
  cases resolution with
  | ignored => exact of_pure _
  | notFound candidates => exact of_pure _
  | found path candidates shadowed =>
      have hrebase : Blind (token.rebase rebaser.nameFile rebaser.options.mode
          rebaser.options.keepQuery (.found path candidates shadowed)) := by
        unfold Token.rebase
        split
        · exact of_pure _
        · exact (hname _).bind fun url => of_pure _
        · exact of_pure _
      apply hrebase.attempt.bind
      intro outcome
      split
      · exact of_pure _
      · exact of_pure _
      · exact of_throw _

theorem blind_rebaseToken
    (hname : ∀ path, Blind (rebaser.nameFile path)) (sheet : StyleSheet) (lineage : Lineage)
    (token : Token) : Blind (rebaser.rebaseToken sheet lineage token) := by
  unfold rebaseToken
  apply lift_bind
  intro origin
  simp only
  split
  · exact of_pure _
  · apply blind_current.bind
    intro current
    apply lift_bind
    intro directory
    apply (rebaser.searchPath.blind_resolve directory token.payload).bind
    intro resolution
    apply (blind_rebaseResolved hname origin token resolution).bind
    exact fun rebased => of_pure _

theorem blind_run (hname : ∀ path, Blind (rebaser.nameFile path)) (sheet : StyleSheet) :
    Blind (rebaser.run sheet) := by
  unfold run
  simp only
  apply lift_bind
  rintro ⟨map, remarks⟩
  apply (mapM fun token => blind_rebaseToken hname sheet _ token).bind
  intro rebased
  apply lift_bind
  intro _
  apply lift_bind
  intro outgoing
  split
  · exact of_pure _
  · exact (forIn fun diagnostic => blind_log _ _).bind fun _ => of_pure _

end Rebaser

namespace Packer

variable (packer : Packer)

theorem blind_urlOf (path : Text) : Blind (packer.urlOf path) := by
  rw [urlOf_eq]
  exact (blind_digestName path).bind fun name => of_lift _

/-! ## Processors -/

theorem blind_minify (input : Input) (draft : Draft) : Blind (packer.minify input draft) := by
  unfold minify
  simp only
  split
  · exact (blind_log _ _).bind fun _ => of_pure _
  · exact of_pure _

theorem blind_compile (input : Input) (draft : Draft) : Blind (packer.compile input draft) := by
  unfold compile
  extract_lets includes stem compilation indented compileText next
  have hnext (untouched : Bool) : Blind (next untouched) := by
    unfold next
    split
    · apply (blind_log _ _).bind
      intro _
      split
      · exact of_throw _
      · exact of_pure _
    · split
      · exact (blind_log _ _).bind fun _ => of_pure _
      · exact of_pure _
  split
  · apply (blind_readText input.path).bind
    intro text
    rw [pure_bind]
    exact hnext _
  · rw [pure_bind]
    exact hnext false

theorem blind_rebaseDraft (input : Input) (draft : Draft) :
    Blind (packer.rebaseDraft input draft) := by
  unfold rebaseDraft
  apply (Rebaser.blind_run packer.blind_urlOf _).bind
  intro rebased
  have hnoted : Blind (modify fun workspace =>
      { workspace with assets := (workspace.assets ++ rebased.assets).eraseDups } : Work PUnit) :=
    of_modify (fun _ _ => rfl) fun _ => rfl
  exact hnoted.bind fun _ => of_pure _

theorem blind_runProcessor (input : Input) (draft : Draft) (registration : Setting) :
    Blind (packer.runProcessor input draft registration) := by
  unfold runProcessor
  apply lift_bind
  intro processor
  cases processor with
  | minify => exact packer.blind_minify input draft
  | rebase => exact packer.blind_rebaseDraft input draft
  | compile => exact packer.blind_compile input draft
  | external run => exact lift_bind fun text => of_pure _

theorem blind_process (input : Input) : Blind (packer.process input) := by
  unfold process
  apply (blind_readText input.path).bind
  intro text
  exact foldlM (packer.blind_runProcessor input) _

/-! ## Assets -/

theorem blind_buildParts (separator : Setting) (output : Text) (inputs : List Input) :
    Blind (packer.buildParts separator output inputs) := by
  induction inputs with
  | nil => exact of_pure []
  | cons input rest ih =>
      unfold buildParts
      apply (packer.blind_process input).bind
      intro draft
      extract_lets next
      have hnext (text : Text) : Blind (next text) := by
        unfold next
        apply blind_current.bind
        intro current
        apply lift_bind
        intro map
        exact ih.bind fun built => of_pure _
      split
      · rw [pure_bind]
        exact hnext _
      · rw [pure_bind]
        exact hnext _
      · exact of_throw _

theorem blind_build (name : Text) (inputs : List Input) (output : Text) :
    Blind (packer.build name inputs output) := by
  unfold build
  apply (blind_log _ _).bind
  intro _
  apply (packer.blind_buildParts _ _ _).bind
  intro built
  simp only
  split
  · exact lift_bind fun map => of_pure _
  · exact of_pure _

/-! ## Inputs -/

theorem blind_findBelow (name : Text) (roots : List Setting) :
    Blind (packer.findBelow name roots) := by
  induction roots with
  | nil => exact of_pure none
  | cons root rest ih =>
      unfold findBelow
      apply blind_current.bind
      intro current
      apply lift_bind
      intro root
      apply (blind_exists? _).bind
      intro isThere
      split
      · exact of_pure _
      · exact ih

theorem blind_inputPath? (name : Text) : Blind (packer.inputPath? name) := by
  unfold inputPath?
  split
  · exact of_throw _
  · exact packer.blind_findBelow name _

theorem blind_inputOf (element : Setting) : Blind (packer.inputOf element) := by
  unfold inputOf
  apply lift_bind
  rintro ⟨spec, depends⟩
  apply lift_bind
  intro names
  apply lift_bind
  intro _
  apply (packer.blind_inputPath? _).bind
  intro path
  split
  · exact of_pure _
  · exact (blind_log _ _).bind fun _ => of_pure _

theorem blind_inputsOf (list : Setting) : Blind (packer.inputsOf list) := by
  unfold inputsOf
  extract_lets next
  have hnext (elements : List Setting) : Blind (next elements) := by
    unfold next
    exact (mapM packer.blind_inputOf).bind fun inputs => of_pure _
  split
  · rw [pure_bind]
    exact hnext _
  · split
    · exact of_throw _
    · rw [pure_bind]
      exact hnext _

/-! ## Packs -/

theorem blind_writeAsset (name : Text) (inputs : List Input) (path : Text) :
    Blind (packer.write name inputs path) := by
  unfold write
  apply (blind_makeDirectories _).bind
  intro _
  apply (packer.blind_build name inputs path).bind
  rintro ⟨text, map⟩
  simp only
  split
  · exact blind_writeText _ _
  · apply lift_bind
    intro printed
    exact (blind_writeText _ _).bind fun _ => blind_writeText _ _

theorem blind_timeOf (path : Text) : Blind (timeOf path) := by
  unfold timeOf
  apply get_bind
  · exact fun _ _ => rfl
  · intro workspace
    simp only
    split
    · exact of_lift _
    · exact of_pure _

theorem blind_anyChangedAfter (inputs : List Input) (time : Int) :
    Blind (anyChangedAfter inputs time) :=
  get_bind (fun _ _ => rfl) fun _ => of_lift _

theorem blind_packInputs (force : Bool) (name : Text) (inputs : List Input) :
    Blind (packer.packInputs force name inputs) := by
  unfold packInputs
  apply blind_current.bind
  intro current
  apply lift_bind
  intro path
  apply (blind_timeOf path).bind
  intro time
  split
  · exact packer.blind_writeAsset name inputs path
  · apply (blind_anyChangedAfter inputs time).bind
    intro isChanged
    split
    · exact packer.blind_writeAsset name inputs path
    · exact of_pure _

theorem blind_copyFile (path : Text) : Blind (packer.copyFile path) := by
  unfold copyFile
  apply blind_current.bind
  intro current
  apply lift_bind
  intro location
  apply (blind_digestName path).bind
  intro name
  apply (blind_exists? _).bind
  intro isThere
  split
  · exact of_pure _
  · apply (blind_log _ _).bind
    intro _
    apply (blind_makeDirectories _).bind
    intro _
    exact (blind_read path).bind fun bytes => blind_write _ bytes

theorem blind_copyFound : Blind packer.copyFound := by
  unfold copyFound
  split
  · exact get_bind (fun _ _ => rfl) fun _ => forM packer.blind_copyFile
  · exact of_pure _

theorem blind_forgetFiles : Blind forgetFiles :=
  of_modify (fun _ _ => rfl) fun _ => rfl

theorem blind_pack (asset : Option Text) (force : Bool) : Blind (packer.pack asset force) := by
  unfold pack
  apply blind_forgetFiles.bind
  intro _
  apply lift_bind
  intro entries
  have hentry (entry : Setting × Setting) : Blind (do
      let inputs ← packer.inputsOf entry.2
      if isAsked asset entry.1 then
        packer.packInputs force (← Work.lift (fileName entry.1)) inputs) := by
    apply (packer.blind_inputsOf entry.2).bind
    intro inputs
    split
    · exact lift_bind fun name => packer.blind_packInputs force name inputs
    · exact of_pure _
  exact (forM hentry).bind fun _ => packer.blind_copyFound

theorem blind_packedBytes (asset encoding : Text) :
    Blind (packer.packedBytes asset encoding) := by
  unfold packedBytes
  apply blind_forgetFiles.bind
  intro _
  apply lift_bind
  intro entries
  refine (mapM fun entry => ?_).bind fun bytes => of_pure _
  apply (packer.blind_inputsOf entry.2).bind
  intro inputs
  split
  · apply blind_current.bind
    intro current
    apply lift_bind
    intro path
    apply (packer.blind_build asset inputs path).bind
    rintro ⟨text, map⟩
    exact of_lift _
  · exact of_pure _

end Packer

end UrlRebase
