import ErrorMigration.FileFix
import ErrorMigration.Settings

/-! A migration run over all candidates. Only missing backups can keep a run from starting; once it
has started, a file that cannot be migrated becomes a failed result and the run goes on. -/
namespace ErrorMigration

abbrev Clock := Nat → Moment

def Clock.fixedAt (m : Moment) : Clock := fun _ => m

inductive Event where
  | found (count : Nat)
  | started (path : Path)
  | finished (result : FileResult)
  deriving DecidableEq, Repr

structure Ledger where
  events : List Event := []
  results : List FileResult := []
  /-- The texts of the files that did not fail. -/
  changes : List FileChange := []
  deriving DecidableEq, Repr

namespace Ledger

def consFix (later : Ledger) (path : Path) (fix : FileFix) : Ledger where
  events := .started path :: .finished fix.result :: later.events
  results := fix.result :: later.results
  changes := fix.change :: later.changes

def consFailure (later : Ledger) (path : Path) (error : FixError) : Ledger :=
  let result := FileResult.ofFailure path error.message
  { events := .started path :: .finished result :: later.events
    results := result :: later.results
    changes := later.changes }

end Ledger

structure Outcome where
  report : Report
  /-- The differences of all files, made or, in a dry run, only computed. -/
  patch : List Char
  /-- Why there were no candidates. -/
  discoveryError : Option LocateError
  events : List Event
  deriving DecidableEq, Repr

structure PrepareError where
  dir : Path
  cause : BackupError
  deriving DecidableEq, Repr

def PrepareError.chain (e : PrepareError) : List String :=
  s!"prepare backups in {e.dir.spelling}" :: e.cause.chain

def PrepareError.message (e : PrepareError) : String := ": ".intercalate e.chain

namespace Run

def prepareBackups (settings : Settings) (started : Moment) : FileTask PrepareError BackupStore :=
  (BackupStore.create (settings.runDir started)).orElseError (PrepareError.mk (settings.runDir started))

/-- Migrate the candidates one after the other; each reads the clock once. -/
def fixAll (codes : CodeTable) (mode : WriteMode) (clock : Clock) :
    Nat → List Path → StateM Tree Ledger
  | _, [] => pure {}
  | reading, path :: rest => do
    let fixed ← (FileFix.run codes mode (clock reading) path).run
    let later ← fixAll codes mode clock (reading + 1) rest
    match fixed with
    | .ok fix => pure (later.consFix path fix)
    | .error error => pure (later.consFailure path error)

/-- The files that will still hold the marker: those that failed, and those whose new text has
it. -/
def projectedRemaining (ledger : Ledger) : List Path :=
  Path.sort <|
    (ledger.results.filter fun r => !r.isSuccess).map FileResult.path ++
      (ledger.changes.filter fun c => containsMarker c.after).map FileChange.path

/-- The files that hold the marker after the run. A dry run has written nothing, so it works them
out; any other run looks again. -/
def remaining (locate : Locator) (mode : WriteMode) (ledger : Ledger) (t : Tree) : List Path :=
  if mode.isDryRun then projectedRemaining ledger else Candidates.remaining locate t

def discover (locate : Locator) (t : Tree) : List Path × Option LocateError :=
  match locate t with
  | .ok paths => (paths, none)
  | .error error => ([], some error)

def migrate (settings : Settings) (locate : Locator) (mode : WriteMode) (tool : Tool) (clock : Clock) :
    StateM Tree Outcome := do
  let (candidates, discoveryError) := discover locate (← get)
  let ledger ← fixAll settings.codes mode clock 1 candidates
  let summary :=
    { Summary.tally ledger.results with remaining := remaining locate mode ledger (← get) }
  pure
    { report :=
        { schema := Report.currentSchema
          tool
          run :=
            { startedAt := clock 0
              endedAt := some (clock (candidates.length + 1))
              dryRun := mode.isDryRun
              backupDir := mode.backupDir }
          scan := ⟨settings.scanDir, settings.extension, deprecatedMarker⟩
          results := ledger.results
          summary }
      patch := Patch.render ledger.changes
      discoveryError
      events := .found candidates.length :: ledger.events }

end Run

end ErrorMigration
