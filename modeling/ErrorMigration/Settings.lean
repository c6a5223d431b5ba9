import ErrorMigration.Candidates
import ErrorMigration.CodeTable
import ErrorMigration.Moment

/-! What a run is asked to do. Directories are taken from the repository root unless they are
absolute. -/
namespace ErrorMigration

structure Settings where
  repoRoot : Path := ⟨"."⟩
  scanRoot : Path := ⟨"src"⟩
  extension : String := "js"
  codes : CodeTable := .builtin
  /-- Holds a directory for each run. -/
  reportsDir : Path := ⟨"docs/migration-reports"⟩
  /-- How many remaining files the summary shows. -/
  displayLimit : Nat := 10
  deriving DecidableEq, Repr

namespace Settings

def resolve (s : Settings) (p : Path) : Path := if p.isAbsolute then p else s.repoRoot.join p

def scanDir (s : Settings) : Path := s.resolve s.scanRoot

/-- The directory of a run that starts at the given time, named for its second. -/
def runDir (s : Settings) (started : Moment) : Path :=
  (s.resolve s.reportsDir).joinName ("backups-" ++ started.stamp)

def locator (s : Settings) : Locator := Candidates.below s.scanDir s.extension deprecatedMarker

end Settings

end ErrorMigration
