import ErrorMigration.Proofs.ChangeFlags

/-! Work on one path is all or nothing. Before the backup nothing has been touched, a backup that fails has made
directories at most, and a path that was read can be written unless the disk has a fault. So an error leaves every file
with its bytes; without one the old bytes stand at a path that led nowhere, and only the file itself has others. -/
namespace ErrorMigration

namespace Tree

variable {rewritable addable : Place → Prop} {t t' : Tree} {p : Path}

/-- Files outside the given places have the bytes that they had, and the paths to them still lead there. -/
structure KeepsFiles (changed : Place → Prop) (t t' : Tree) : Prop where
  places : ∀ place content, ¬ changed place → t.node? place = some (.file content) →
    t'.node? place = some (.file content)
  paths : ∀ p place content, ¬ changed place → t.resolve p = .ok (.file place content) →
    t'.resolve p = .ok (.file place content)

theorem Becomes.keepsFiles (change : t.Becomes rewritable addable t') : KeepsFiles rewritable t t' where
  places _ _ fixed found := change.kept found fixed
  paths _ _ _ fixed resolved := resolve_file_becomes change resolved (change.kept (node?_of_resolve resolved) fixed)

/-- A path that leads to something still does after a change. -/
theorem isPresent_becomes (change : t.Becomes rewritable addable t') (present : t.isPresent p = true) :
    t'.isPresent p = true := by
  unfold isPresent at present
  split at present
  · rename_i place resolved
    have found : t.directoryAt? p = some place := by simp [directoryAt?,resolved]
    have kept := directoryAt?_becomes change found
    unfold directoryAt? at kept
    split at kept
    · rename_i again
      simp [isPresent,again]
    · contradiction
  · rename_i place content resolved
    obtain ⟨after,found⟩ := change.file (node?_of_resolve resolved)
    exact isPresent_of_file (resolve_file_becomes change resolved found)
  · contradiction

theorem isPresent_before (change : t.Becomes rewritable addable t') (absent : t'.isPresent p = false) :
    t.isPresent p = false := by
  by_contra present
  rw [Bool.not_eq_false] at present
  rw [isPresent_becomes change present] at absent
  contradiction

/-- A file at the free place that a path leads to is found by the path. -/
theorem resolve_put_vacant {parent : Place} {name : Name} (vacant : t.resolveFor .write p = .ok (.vacant parent name))
    (free : t.node? (parent ++ [name]) = none) (content : List UInt8) :
    (t.put (parent ++ [name]) (.file content)).resolve p = .ok (.file (parent ++ [name]) content) := by
  have change : Becomes (fun _ => False) (fun _ => True) t (t.put (parent ++ [name]) (.file content)) :=
    .put_added content free trivial
  obtain ⟨usable,walked⟩ := resolveFor_eq_ok_iff.mp vacant
  refine resolveFor_eq_ok_iff.mpr ⟨usable,?_⟩
  rw [startOf_eq change.home]
  exact walkLinks_file_becomes change (node?_put_same _ _ (by simp)) rfl (walkLinks_use_of_write walked)

/-- What is written to a path that led nowhere is found by it, at a place that was free. -/
theorem resolve_of_write_absent {content : List UInt8} (absent : t.isPresent p = false)
    (written : t.write p content = .ok t') :
    ∃ place, t.node? place = none ∧ t'.resolve p = .ok (.file place content) := by
  obtain ⟨parent,name,vacant,free,rfl⟩ := write_absent absent written
  exact ⟨parent ++ [name],free,resolve_put_vacant vacant free content⟩

theorem readText_eq_ok_iff {text : String} :
    t.readText p = .ok text ↔ ∃ place, t.resolve p = .ok (.file place (Text.bytes text)) := by
  constructor
  · intro read
    unfold readText at read
    split at read
    · contradiction
    · contradiction
    · contradiction
    · rename_i place content resolved
      split at read
      · rename_i decoded
        cases read
        exact ⟨place,by rw [resolved,Text.ofBytes?_eq_some_iff.mp decoded]⟩
      · contradiction
  · rintro ⟨place,resolved⟩
    rw [readText_of_file resolved,Text.ofBytes?_bytes]

end Tree

/-- A backup that succeeds: its path led nowhere before, and leads to the bytes of its file now. -/
theorem BackupStore.resolve_of_saveInto {dir source dest : Path} {now : Moment} {t saved : Tree} {place : Place}
    {content : List UInt8} (resolved : t.resolve source = .ok (.file place content))
    (ended : saveInto dir now source t = (.ok dest,saved)) :
    t.isPresent dest = false ∧ ∃ spot, t.node? spot = none ∧ saved.resolve dest = .ok (.file spot content) := by
  obtain ⟨_,_,made,_,_,_,_,_,_,prepared,absent,again,written⟩ := saveInto_ok ended
  have directories : t.Becomes (fun _ => False) (fun _ => False) made := Tree.becomes_of_makeAll prepared
  rw [directories.keepsFiles.paths _ _ _ not_false resolved] at again
  cases again
  obtain ⟨spot,free,leads⟩ := Tree.resolve_of_write_absent absent written
  exact ⟨Tree.isPresent_before directories absent,spot,directories.free free,leads⟩

theorem BackupStore.becomes_of_saveInto_error {dir source : Path} {now : Moment} {t t' : Tree} {error : BackupError}
    (failed : saveInto dir now source t = (.error error,t')) : t.Becomes (fun _ => False) (fun _ => False) t' :=
  Tree.becomes_of_same_or_made (saveInto_error failed)

/-- A write that fails leaves the tree. -/
theorem FileTask.writeFileUnless_error {fault : Tree → Option AccessError} {p : Path} {content : List UInt8}
    {t t' : Tree} {error : AccessError} (failed : writeFileUnless fault p content t = (.error error,t')) : t' = t := by
  unfold writeFileUnless at failed
  split at failed
  · cases failed
    rfl
  · unfold writeFile update at failed
    split at failed
    · cases failed
    · cases failed
      rfl

def WriteMode.UsesDirectory : WriteMode → Prop
  | .dryRun => True
  | .apply backups => ∃ dir, backups = .inDirectory dir

namespace FileFix

variable {faults : WriteFaults} {codes : CodeTable} {mode : WriteMode} {now : Moment} {path : Path} {t t' : Tree}
  {text : String} {place : Place}

theorem runUnder_absent (absent : t.isPresent path = false) :
    runUnder faults codes mode now path t = (.error (.notFound path),t) := by
  rw [runUnder_apply,absent,if_neg Bool.false_ne_true]

theorem runUnder_unreadable {error : AccessError} (present : t.isPresent path = true)
    (unread : t.readText path = .error error) :
    runUnder faults codes mode now path t = (.error (.reading path error),t) := by
  rw [runUnder_apply,if_pos present,unread]

/-- A text is saved behind a path that led nowhere. -/
def Saved (t : Tree) (backup : Path) (text : String) (t' : Tree) : Prop :=
  ∃ spot, t.isPresent backup = false ∧ t.node? spot = none ∧ t'.resolve backup = .ok (.file spot (Text.bytes text))

/-- What an error leaves behind: the files with their bytes, and directories for the backup at most. If the text could
not be written, the backup has been made. -/
structure Failed (path : Path) (t : Tree) (error : FixError) (t' : Tree) : Prop where
  named : error.path = path
  same : t'.resolve path = t.resolve path
  kept : t.KeepsFiles (fun _ => False) t'
  unadded : (∀ named failure, error ≠ .writing named failure) →
    ∀ place content, t'.node? place = some (.file content) → t.node? place = some (.file content)
  untouched : (∀ named failure, error ≠ .backingUp named failure) → (∀ named failure, error ≠ .writing named failure) →
    t' = t
  saved : ∀ named failure, error = .writing named failure →
    ∃ place text backup, t.resolve path = .ok (.file place (Text.bytes text)) ∧ Saved t backup text t'

theorem Failed.of_same {error : FixError} (named : error.path = path)
    (unwritten : ∀ named failure, error ≠ .writing named failure) : Failed path t error t where
  named := named
  same := rfl
  kept := (Tree.Becomes.refl t : t.Becomes _ (fun _ => False) t).keepsFiles
  unadded _ _ _ found := found
  untouched _ _ := rfl
  saved named failure same := absurd same (unwritten named failure)

theorem Failed.of_backup {error : BackupError} (resolved : t.resolve path = .ok (.file place (Text.bytes text)))
    (change : t.Becomes (fun _ => False) (fun _ => False) t') : Failed path t (.backingUp path error) t' where
  named := rfl
  same := by rw [resolved,change.keepsFiles.paths _ _ _ not_false resolved]
  kept := change.keepsFiles
  unadded _ _ _ := change.file_iff.mp
  untouched other _ := absurd rfl (other path error)
  saved := nofun

theorem Failed.of_write {dir backup : Path} {error : AccessError}
    (resolved : t.resolve path = .ok (.file place (Text.bytes text)))
    (ended : BackupStore.saveInto dir now path t = (.ok backup,t')) : Failed path t (.writing path error) t' := by
  have adds := BackupStore.saveInto_becomes dir path now t
  rw [ended] at adds
  obtain ⟨absent,spot,free,leads⟩ := BackupStore.resolve_of_saveInto resolved ended
  exact {
    named := rfl
    same := by rw [resolved,adds.keepsFiles.paths _ _ _ not_false resolved]
    kept := adds.keepsFiles
    unadded := fun other => absurd rfl (other path error)
    untouched := fun _ other => absurd rfl (other path error)
    saved := fun _ _ _ => ⟨place,text,backup,resolved,spot,absent,free,leads⟩ }

/-- The old bytes of a file are saved at a path that led nowhere, and only the file itself has others. -/
structure Replaced (path : Path) (t : Tree) (place : Place) (text : String) (after : List Char)
    (backupPath : Option Path) (t' : Tree) : Prop where
  written : t'.resolve path = .ok (.file place (Text.bytes (String.ofList after)))
  kept : t.KeepsFiles (fun other => other = place) t'
  saved : ∃ backup, backupPath = some backup ∧ Saved t backup text t'

/-- What is recorded about a text, and what is left behind, when no error stops the work. -/
structure Succeeded (codes : CodeTable) (mode : WriteMode) (path : Path) (t : Tree) (fix : FileFix) (t' : Tree)
    (place : Place) (text : String) : Prop where
  read : t.resolve path = .ok (.file place (Text.bytes text))
  change : fix.change = ⟨path,text.toList,(migrateText codes text.toList).text⟩
  status : fix.result.status = Status.classify fix.change.before fix.change.after
  flags : fix.result.path = path ∧ fix.result.callCount = (migrateText codes text.toList).callCount ∧
    fix.result.importInserted = (migrateText codes text.toList).importInserted
  digestBefore : fix.result.digestBefore = some (Sha256.hexDigest (Text.bytes text))
  digestAfter : fix.result.digestAfter = some (Sha256.hexDigest (Text.bytes (String.ofList fix.change.after)))
  dry : mode.isDryRun = true → t' = t ∧ fix.result.backupPath = none
  applied : mode.isDryRun = false → Replaced path t place text fix.change.after fix.result.backupPath t'

theorem Succeeded.of_migration (backup : Option Path) (resolved : t.resolve path = .ok (.file place (Text.bytes text)))
    (dry : mode.isDryRun = true → t' = t ∧ backup = none)
    (applied : mode.isDryRun = false → Replaced path t place text (migrateText codes text.toList).text backup t') :
    Succeeded codes mode path t (ofMigration path text.toList (migrateText codes text.toList) backup) t' place
      text where
  read := resolved
  change := rfl
  status := rfl
  flags := ⟨rfl,rfl,rfl⟩
  digestBefore := by simp [ofMigration,digest]
  digestAfter := rfl
  dry := dry
  applied := applied

theorem replaced_of_saved {dir backup : Path} {saved : Tree}
    (resolved : t.resolve path = .ok (.file place (Text.bytes text)))
    (ended : BackupStore.saveInto dir now path t = (.ok backup,saved))
    (change : saved.Becomes (fun other => other = place) (fun _ => False) t')
    (written : t'.node? place = some (.file (rewritten codes (Text.bytes text)))) :
    Replaced path t place text (migrateText codes text.toList).text (some backup) t' := by
  have adds := BackupStore.saveInto_becomes dir path now t
  rw [ended] at adds
  obtain ⟨absent,spot,free,leads⟩ := BackupStore.resolve_of_saveInto resolved ended
  have found := Tree.node?_of_resolve resolved
  -- the place of the backup was free, so it is not the place of the file
  have apart : spot ≠ place := by
    rintro rfl
    rw [free] at found
    contradiction
  rw [rewritten_of_text (Text.ofBytes?_bytes text)] at written
  refine ⟨?_,?_,backup,rfl,spot,absent,free,change.keepsFiles.paths _ _ _ apart leads⟩
  · exact Tree.resolve_file_becomes change (adds.keepsFiles.paths _ _ _ not_false resolved) written
  · exact ((adds.mono (fun _ impossible => impossible.elim) fun _ may => may).trans
      (change.mono (fun _ same => same) fun _ impossible => impossible.elim)).keepsFiles

/-- How work on a text can end. -/
theorem run_text (codes : CodeTable) (now : Moment) (stored : mode.UsesDirectory)
    (resolved : t.resolve path = .ok (.file place (Text.bytes text))) :
    (∃ error t', run codes mode now path t = (.error (.backingUp path error),t') ∧
      Failed path t (.backingUp path error) t') ∨
    ∃ fix t', run codes mode now path t = (.ok fix,t') ∧ Succeeded codes mode path t fix t' place text := by
  have readable := Text.ofBytes?_bytes text
  cases mode with
  | dryRun =>
    refine .inr ⟨_,t,?_,.of_migration none resolved (fun _ => ⟨rfl,rfl⟩) fun applied => by cases applied⟩
    rw [run_of_file codes .dryRun now resolved,readable]
    simp [backUp,writeBack,WriteMode.isDryRun]
  | apply backups =>
    obtain ⟨dir,rfl⟩ := stored
    rcases run_saved codes dir now resolved readable with
      ⟨error,t',failed,ended⟩ | ⟨backup,saved,t',made,ended,change,_,written⟩
    · exact .inl ⟨error,t',ended,.of_backup resolved (BackupStore.becomes_of_saveInto_error failed)⟩
    · refine .inr ⟨_,t',ended,.of_migration _ resolved (fun dry => by cases dry) fun _ => ?_⟩
      exact replaced_of_saved resolved made change written

/-- Writing back either ends as it does without faults, or is refused by one. -/
theorem writeBack_cases (faults : WriteFaults) (mode : WriteMode) (fix : FileFix) (saved : Tree) :
    writeBack faults mode fix saved = writeBack .never mode fix saved ∨
    mode.isDryRun = false ∧ ∃ error, faults fix.change.path saved = some error ∧
      writeBack faults mode fix saved = (.error (.writing fix.change.path error),saved) := by
  by_cases still : (fix.result.isSkipped || mode.isDryRun) = true
  · left
    rw [writeBack,writeBack,if_pos still,if_pos still]
  · have applies : mode.isDryRun = false := by
      simp only [Bool.or_eq_true,not_or,Bool.not_eq_true] at still
      exact still.2
    have opened (faults : WriteFaults) : writeBack faults mode fix saved =
        (FileTask.writeFileUnless (faults fix.change.path) fix.change.path
          (Text.bytes (String.ofList fix.change.after))).orElseError (.writing fix.change.path) saved := by
      rw [writeBack,if_neg still]
    rw [opened,opened,FileTask.orElseError_apply,FileTask.orElseError_apply,FileTask.writeFileUnless,
      FileTask.writeFileUnless]
    cases fault : faults fix.change.path saved with
    | none => exact .inl rfl
    | some error => exact .inr ⟨applies,error,rfl,rfl⟩

/-- A run on a disk with faults ends as it does without them, or with a write that was refused after the backup. -/
theorem runUnder_cases (faults : WriteFaults) (codes : CodeTable) (mode : WriteMode) (now : Moment) (path : Path)
    (t : Tree) :
    runUnder faults codes mode now path t = run codes mode now path t ∨
    mode.isDryRun = false ∧ ∃ text backupPath saved error, t.readText path = .ok text ∧
      backUp mode now path t = (.ok backupPath,saved) ∧ faults path saved = some error ∧
      runUnder faults codes mode now path t = (.error (.writing path error),saved) := by
  rw [run,runUnder_apply,runUnder_apply]
  by_cases present : t.isPresent path = true
  · rw [if_pos present,if_pos present]
    cases read : t.readText path with
    | error error => exact .inl rfl
    | ok text =>
      rcases stored : backUp mode now path t with ⟨error | backupPath,saved⟩
      · exact .inl rfl
      · simp only
        rcases writeBack_cases faults mode (ofMigration path text.toList (migrateText codes text.toList) backupPath)
          saved with same | ⟨applies,error,fault,refused⟩
        · rw [same]
          exact .inl rfl
        · rw [refused]
          exact .inr ⟨applies,text,backupPath,saved,error,rfl,rfl,fault,rfl⟩
  · rw [if_neg present,if_neg present]
    exact .inl rfl

theorem writeBack_eq_error {fix : FileFix} {saved : Tree} {error : FixError}
    (failed : writeBack faults mode fix saved = (.error error,t')) : t' = saved := by
  unfold writeBack at failed
  split at failed
  · cases failed
  · rw [FileTask.orElseError_apply] at failed
    rcases ended : FileTask.writeFileUnless (faults fix.change.path) fix.change.path
        (Text.bytes (String.ofList fix.change.after)) saved with ⟨error | _,t''⟩
    · rw [ended] at failed
      cases failed
      exact FileTask.writeFileUnless_error ended
    · rw [ended] at failed
      cases failed

/-- A write that fails changes nothing after the backup, whatever the backup does. -/
theorem runUnder_writing {backups : BackupStore} {error : AccessError} {named : Path}
    (ended : runUnder faults codes (.apply backups) now path t = (.error (.writing named error),t')) :
    ∃ backup, backups.save now path t = (.ok backup,t') := by
  rw [runUnder_apply] at ended
  split at ended
  · split at ended
    · cases ended
    · rw [backUp_store] at ended
      rcases saving : backups.save now path t with ⟨failure | backup,saved⟩
      · rw [saving] at ended
        cases ended
      · rw [saving] at ended
        simp only at ended
        split at ended
        · rename_i unwritten
          cases ended
          exact ⟨backup,by rw [writeBack_eq_error unwritten]⟩
        · cases ended
  · cases ended

/-- How work on a text can end on a disk with faults. -/
theorem runUnder_text (faults : WriteFaults) (codes : CodeTable) (now : Moment) (stored : mode.UsesDirectory)
    (resolved : t.resolve path = .ok (.file place (Text.bytes text))) :
    (∃ error t', runUnder faults codes mode now path t = (.error (.backingUp path error),t') ∧
      Failed path t (.backingUp path error) t') ∨
    (∃ error t', runUnder faults codes mode now path t = (.error (.writing path error),t') ∧
      faults path t' = some error ∧ Failed path t (.writing path error) t') ∨
    ∃ fix t', runUnder faults codes mode now path t = (.ok fix,t') ∧ Succeeded codes mode path t fix t' place text := by
  rcases runUnder_cases faults codes mode now path t with same | ⟨applies,_,_,saved,error,_,stored',fault,refused⟩
  · rw [same]
    exact (run_text codes now stored resolved).imp_right .inr
  · cases mode with
    | dryRun => cases applies
    | apply backups =>
      obtain ⟨dir,rfl⟩ := stored
      rw [backUp_apply] at stored'
      split at stored'
      · rename_i ended
        cases stored'
        exact .inr (.inl ⟨error,saved,refused,fault,.of_write resolved ended⟩)
      · cases stored'

/-- The work on a path is all or nothing, in a dry run and with backups in a directory, whatever keeps files from being
written. It fails at once if the path leads nowhere or to no text, and otherwise only with its backup or where a write
is refused; an error leaves every file with its bytes, and adds none unless it came from the write, when the backup has
been made. If there is no error, the record tells the old text, the new one and their digests. A dry run changes
nothing; else the path leads to the new text, the backup to the old bytes where no path led before, and all other files
are as they were. A write that fails, after whatever backup, changes nothing. -/
theorem run_atomic (faults : WriteFaults) (codes : CodeTable) {mode : WriteMode} (stored : mode.UsesDirectory)
    (now : Moment) (path : Path) (t : Tree) :
    (∃ ended t', runUnder faults codes mode now path t = (ended,t') ∧
      ((∃ named, ended = .error (.notFound named)) ↔ t.isPresent path = false) ∧
      ((∃ named error, ended = .error (.reading named error)) ↔
        t.isPresent path = true ∧ ¬ ∃ place text, t.resolve path = .ok (.file place (Text.bytes text))) ∧
      (∀ named error, ended = .error (.writing named error) → faults path t' = some error) ∧
      (∀ error, ended = .error error → Failed path t error t') ∧
      ∀ fix, ended = .ok fix → ∃ place text, Succeeded codes mode path t fix t' place text) ∧
    ∀ backups named error t', runUnder faults codes (.apply backups) now path t = (.error (.writing named error),t') →
      ∃ backup, backups.save now path t = (.ok backup,t') := by
  refine ⟨?_,fun _ _ _ _ => runUnder_writing⟩
  cases present : t.isPresent path with
  | false =>
    refine ⟨_,_,runUnder_absent present,by simp,by simp,by simp,?_,by simp⟩
    rintro _ ⟨⟩
    exact .of_same rfl nofun
  | true =>
    cases read : t.readText path with
    | error error =>
      have unreadable : ¬ ∃ place text, t.resolve path = .ok (.file place (Text.bytes text)) := by
        rintro ⟨place,text,resolved⟩
        rw [Tree.readText_eq_ok_iff.mpr ⟨place,resolved⟩] at read
        contradiction
      refine ⟨_,_,runUnder_unreadable present read,by simp,by simp [unreadable],by simp,?_,by simp⟩
      rintro _ ⟨⟩
      exact .of_same rfl nofun
    | ok text =>
      obtain ⟨place,resolved⟩ := Tree.readText_eq_ok_iff.mp read
      have readable : ∃ place text, t.resolve path = .ok (.file place (Text.bytes text)) := ⟨place,text,resolved⟩
      rcases runUnder_text faults codes now stored resolved with
        ⟨error,t',ended,failed⟩ | ⟨error,t',ended,fault,failed⟩ | ⟨fix,t',ended,succeeded⟩
      · refine ⟨_,_,ended,by simp,by simp [readable],by simp,?_,by simp⟩
        rintro _ ⟨⟩
        exact failed
      · refine ⟨_,_,ended,by simp,by simp [readable],?_,?_,by simp⟩
        · rintro _ _ ⟨⟩
          exact fault
        · rintro _ ⟨⟩
          exact failed
      · refine ⟨_,_,ended,by simp,by simp [readable],by simp,by simp,?_⟩
        rintro _ ⟨⟩
        exact ⟨place,text,succeeded⟩

/-- A file without calls is skipped, and backed up all the same; a file with one that cannot be written stays. -/
theorem run_atomic_skipped :
    WriteMode.UsesDirectory (.apply (.inDirectory ⟨"/b"⟩)) ∧
    (∃ fix t', run .builtin (.apply (.inDirectory ⟨"/b"⟩)) ⟨7,0⟩ ⟨"/a.js"⟩ plainTree = (.ok fix,t') ∧
      fix.result.status = .skipped ∧
      Replaced ⟨"/a.js"⟩ plainTree [Text.bytes "a.js"] "let a\n" "let a\n".toList fix.result.backupPath t') ∧
    ∃ error t', runUnder (fun p _ => some (.creating p .notFound)) .builtin (.apply (.inDirectory ⟨"/b"⟩)) ⟨7,0⟩
        ⟨"/a.js"⟩ callTree = (.error (.writing ⟨"/a.js"⟩ error),t') ∧
      Failed ⟨"/a.js"⟩ callTree (.writing ⟨"/a.js"⟩ error) t' := by
  have stored : WriteMode.UsesDirectory (.apply (.inDirectory ⟨"/b"⟩)) := ⟨⟨"/b"⟩,rfl⟩
  refine ⟨stored,?_,?_⟩
  · have succeeds :
        (run .builtin (.apply (.inDirectory ⟨"/b"⟩)) ⟨7,0⟩ ⟨"/a.js"⟩ plainTree).1.isOk = true := by decide +kernel
    have same : (migrateText .builtin "let a\n".toList).text = "let a\n".toList := by decide +kernel
    obtain ⟨⟨ended,t',ran,_,_,_,_,succeeded⟩,_⟩ := run_atomic .never .builtin stored ⟨7,0⟩ ⟨"/a.js"⟩ plainTree
    rw [run,ran] at succeeds
    cases ended with
    | error error => contradiction
    | ok fix =>
      obtain ⟨place,text,done⟩ := succeeded fix rfl
      have resolved : plainTree.resolve ⟨"/a.js"⟩ = .ok (.file [Text.bytes "a.js"] (Text.bytes "let a\n")) := rfl
      rw [done.read,Except.ok.injEq,Tree.Target.file.injEq,Text.bytes_inj] at resolved
      obtain ⟨rfl,rfl⟩ := resolved
      have replaced := done.applied rfl
      have status := done.status
      rw [done.change,same] at replaced status
      exact ⟨fix,t',ran,Status.classify_eq_skipped_iff.mpr rfl ▸ status,replaced⟩
  · have refused : (runUnder (fun p _ => some (.creating p .notFound)) .builtin (.apply (.inDirectory ⟨"/b"⟩)) ⟨7,0⟩
        ⟨"/a.js"⟩ callTree).1 = .error (.writing ⟨"/a.js"⟩ (.creating ⟨"/a.js"⟩ .notFound)) := by decide +kernel
    obtain ⟨⟨ended,t',ran,_,_,_,failed,_⟩,_⟩ :=
      run_atomic (fun p _ => some (.creating p .notFound)) .builtin stored ⟨7,0⟩ ⟨"/a.js"⟩ callTree
    rw [ran] at refused
    obtain rfl : ended = _ := refused
    exact ⟨_,t',ran,failed _ rfl⟩

end FileFix

end ErrorMigration
