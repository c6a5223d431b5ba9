import ErrorMigration.Report.Codec
import ErrorMigration.Report.Markdown
import ErrorMigration.Run

/-! The files that a run leaves beside its backups: the report in two forms, and the patch. What was
written before a failure stays. -/
namespace ErrorMigration

inductive StoreError where
  | makingDirectory (dir : Path) (error : AccessError)
  | makingParent (path : Path) (error : AccessError)
  | writing (path : Path) (error : AccessError)
  deriving DecidableEq, Repr

def StoreError.chain : StoreError → List String
  | .makingDirectory dir error => [s!"create_dir_all {dir.spelling}", error.message]
  | .makingParent path error => [s!"create parent dir for {path.spelling}", error.message]
  | .writing path error => [s!"write {path.spelling}", error.message]

def StoreError.message (e : StoreError) : String := ": ".intercalate e.chain

namespace Artifacts

def makeParent (p : Path) : FileTask StoreError Unit :=
  match p.parent? with
  | none => pure ()
  | some parent => (FileTask.makeDirectories parent).orElseError (.makingParent p)

/-- Write a text to a file, whose directory is made if it is missing. -/
def store (p : Path) (text : String) : FileTask StoreError Unit := do
  makeParent p
  (FileTask.writeFile p (Text.bytes text)).orElseError (.writing p)

def write (outcome : Outcome) (dir : Path) : FileTask StoreError Unit := do
  (FileTask.makeDirectories dir).orElseError (.makingDirectory dir)
  store (dir.joinName "report.json") outcome.report.prettyText
  store (dir.joinName "report.md") outcome.report.markdown
  store (dir.joinName "patch.diff") (String.ofList outcome.patch)

end Artifacts

end ErrorMigration
