import ErrorMigration.Backup
import ErrorMigration.Patch
import ErrorMigration.Report.Record
import ErrorMigration.Sha256

/-! Migration of one file: read it, back it up, migrate its text and write it. A file whose backup
fails is left as it is, and a dry run only reads. -/
namespace ErrorMigration

inductive FixError where
  | notFound (path : Path)
  | reading (path : Path) (error : AccessError)
  | backingUp (path : Path) (error : BackupError)
  | writing (path : Path) (error : AccessError)
  deriving DecidableEq, Repr

namespace FixError

def message : FixError → String
  | .notFound path => s!"File not found: {path.spelling}"
  | .reading _ error => error.message
  | .backingUp path error => s!"backup {path.spelling}: {error.message}"
  | .writing _ error => error.message

def path : FixError → Path
  | .notFound path => path
  | .reading path _ => path
  | .backingUp path _ => path
  | .writing path _ => path

end FixError

/-- Whether a run writes. Writing always goes with backups. -/
inductive WriteMode where
  | dryRun
  | apply (backups : BackupStore)

namespace WriteMode

def isDryRun : WriteMode → Bool
  | .dryRun => true
  | .apply _ => false

def backupDir : WriteMode → Option Path
  | .dryRun => none
  | .apply backups => some backups.dir

def describe : WriteMode → String
  | .dryRun => "DryRun"
  | .apply backups => "Apply \x7b backup_dir: " ++ Text.quoted backups.dir.spelling ++ " \x7d"

end WriteMode

/-- Why a path cannot be written in a tree that would allow it; nothing is written then. -/
abbrev WriteFaults := Path → Tree → Option AccessError

def WriteFaults.never : WriteFaults := fun _ _ => none

structure FileFix where
  result : FileResult
  change : FileChange
  deriving DecidableEq, Repr

namespace FileFix

def digest (cs : List Char) : String := Sha256.hexDigest (Text.bytes (String.ofList cs))

def ofMigration (path : Path) (before : List Char) (migrated : Migrated) (backupPath : Option Path) : FileFix where
  result :=
    { path
      status := Status.classify before migrated.text
      callCount := migrated.callCount
      importInserted := migrated.importInserted
      backupPath
      digestBefore := some (digest before)
      digestAfter := some (digest migrated.text) }
  change := ⟨path, before, migrated.text⟩

def backUp (mode : WriteMode) (now : Moment) (path : Path) : FileTask FixError (Option Path) :=
  match mode with
  | .dryRun => pure none
  | .apply backups => do
    let backup ← FileTask.orElseError (backups.save now path) (.backingUp path)
    pure (some backup)

def writeBack (faults : WriteFaults) (mode : WriteMode) (fix : FileFix) : FileTask FixError Unit :=
  let path := fix.change.path
  if fix.result.isSkipped || mode.isDryRun then pure ()
  else
    (FileTask.writeFileUnless (faults path) path
      (Text.bytes (String.ofList fix.change.after))).orElseError (.writing path)

/-- Migrate one file, on a disk with faults. -/
def runUnder (faults : WriteFaults) (codes : CodeTable) (mode : WriteMode) (now : Moment) (path : Path) :
    FileTask FixError FileFix := do
  let before ← FileTask.inspect fun t =>
    if t.isPresent path then (t.readText path).mapError (.reading path) else .error (.notFound path)
  let backupPath ← backUp mode now path
  let fix := ofMigration path before.toList (migrateText codes before.toList) backupPath
  writeBack faults mode fix
  pure fix

def run (codes : CodeTable) (mode : WriteMode) (now : Moment) (path : Path) : FileTask FixError FileFix :=
  runUnder .never codes mode now path

end FileFix

end ErrorMigration
