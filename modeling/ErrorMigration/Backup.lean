import ErrorMigration.Files.Access
import ErrorMigration.Moment

/-! Backups: a verbatim copy of a file, made before the file is written. A copy is named for its
file and the second it was made in, and never replaces an earlier one. -/
namespace ErrorMigration

inductive BackupError where
  | noFileName (source : Path)
  | makingDirectory (dir : Path) (error : AccessError)
  | copying (source dest : Path) (error : AccessError)
  /-- The names of copies are numbered by words of 32 bits, and all that can be tried are taken. -/
  | counterOverflow
  /-- The failure of a store that is not a directory of copies. -/
  | other (message : String)
  deriving DecidableEq, Repr

def BackupError.chain : BackupError → List String
  | .noFileName source => [s!"{source.spelling} has no file name"]
  | .makingDirectory dir error => [s!"create backup dir {dir.spelling}", error.message]
  | .copying source dest error => [s!"copy {source.spelling} to {dest.spelling}", error.message]
  | .counterOverflow => ["attempt to add with overflow"]
  | .other message => [message]

def BackupError.message (e : BackupError) : String := ": ".intercalate e.chain

structure BackupStore where
  dir : Path
  save : Moment → Path → FileTask BackupError Path

namespace BackupStore

def baseName (fileName : String) (now : Moment) : String := s!"{fileName}.backup.{now.seconds}"

/-- A counter of 32 bits is past each number before it is tried, so its last word never is. -/
def lastNumber : Nat := Nat.pow 2 32 - 2

/-- The first free one of the base name and its numbered forms, if a number is left for it. No more
are tried than the entries of the tree can take. -/
def freePath (t : Tree) (dir : Path) (base : String) : Except BackupError Path :=
  let numbered := (List.range (min t.entries.length lastNumber)).map fun n =>
    dir.joinName s!"{base}.{n + 1}"
  ((dir.joinName base :: numbered).find? fun p => !t.isPresent p).elim (.error .counterOverflow) .ok

/-- Copy a file into a directory, which is made if it is missing. -/
def saveInto (dir : Path) (now : Moment) (source : Path) : FileTask BackupError Path := do
  match source.fileName? with
  | none => throw (.noFileName source)
  | some fileName =>
    (FileTask.makeDirectories dir).orElseError (.makingDirectory dir)
    let dest ← FileTask.inspect fun t => freePath t dir (baseName fileName now)
    (FileTask.copyFile source dest).orElseError (.copying source dest)
    pure dest

def inDirectory (dir : Path) : BackupStore := ⟨dir, saveInto dir⟩

def create (dir : Path) : FileTask BackupError BackupStore := do
  (FileTask.makeDirectories dir).orElseError (.makingDirectory dir)
  pure (inDirectory dir)

end BackupStore

end ErrorMigration
