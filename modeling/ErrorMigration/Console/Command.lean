import ErrorMigration.Artifacts
import ErrorMigration.Console.Arguments
import ErrorMigration.Report.Text

/-! What the three commands do and print. A command fails only because of its configuration, or
because the directory for backups cannot be made; everything else is part of the output. -/
namespace ErrorMigration.Console

inductive CommandError where
  | config (error : ConfigError)
  | prepare (error : PrepareError)
  deriving DecidableEq, Repr

def CommandError.chain : CommandError → List String
  | .config error => error.chain
  | .prepare error => error.chain

def tool : Tool := ⟨"errfix", some "0.1.0"⟩

def eventText : Event → String
  | .found 0 => "no candidate files found\n"
  | .found count => s!"found {count} candidate files\n\n"
  | .started path => s!"fixing: {path.spelling}\n"
  | .finished result => result.progressLine ++ "\n"

namespace Given

def repository (given : Given) : Path := given.repoRoot.getD ⟨"."⟩

def settings (given : Given) : FileTask CommandError Settings :=
  FileTask.inspect fun t => (Config.settings t given.flags given.repository).mapError .config

end Given

structure Migration where
  settings : Settings
  outcome : Outcome
  deriving DecidableEq, Repr

namespace Migration

def text (m : Migration) : String :=
  let report := m.outcome.report
  String.join (m.outcome.events.map eventText) ++
    (match m.outcome.discoveryError with
      | some error => s!"candidate discovery failed: {error.message}\n"
      | none => "") ++
    "\n" ++ report.summary.text deprecatedMarker m.settings.displayLimit report.run.backupDir ++
    if report.run.dryRun then "\nDry run: no files were changed.\n" else ""

def output (m : Migration) : Format → String
  | .text => m.text
  | .json => m.outcome.report.prettyText ++ "\n"

end Migration

/-- Whether a migration writes. If it does, the directory for its backups is made first. -/
def writeMode (given : Given) (settings : Settings) (started : Moment) : FileTask CommandError WriteMode :=
  if given.dryRun then pure .dryRun
  else do
    let backups ← (Run.prepareBackups settings started).orElseError .prepare
    pure (.apply backups)

/-- Leave the files of a run in a directory. The run is over, so a failure changes nothing else. -/
def leaveArtifacts (outcome : Outcome) (dir : Path) : StateM Tree Unit := fun t =>
  ((), ((Artifacts.write outcome dir).run t).2)

/-- Migrate all candidates. The artifacts go into the given directory, or beside the backups. -/
def perform (clock : Clock) (given : Given) : FileTask CommandError Migration := do
  let settings ← given.settings
  let mode ← writeMode given settings (clock 0)
  let outcome ←
    (Run.migrate settings settings.locator mode tool (fun reading => clock (reading + 1)) : StateM Tree Outcome)
  match given.outDir <|> mode.backupDir with
  | some dir => (leaveArtifacts outcome dir : StateM Tree Unit)
  | none => pure ()
  pure ⟨settings, outcome⟩

/-- The candidates of a repository. A scan that fails has none. -/
def candidates (given : Given) : FileTask CommandError (List Path) := do
  let settings ← given.settings
  FileTask.inspect fun t => .ok (Candidates.remaining settings.locator t)

def scanText (candidates : List Path) : String :=
  eventText (.found candidates.length) ++ String.join (candidates.map fun p => s!"  {p.spelling}\n")

def scanOutput (candidates : List Path) : Format → String
  | .text => scanText candidates
  | .json => String.ofList (Json.array (candidates.map Path.toJson)).pretty ++ "\n"

def padded (width : Nat) (text : String) : String :=
  text ++ String.ofList (List.replicate (width - text.length) ' ')

def codeRow (legacy canonical : String) : String := s!"  {padded 28 legacy} {canonical}\n"

def codesText (codes : CodeTable) : String :=
  codeRow "LEGACY" "CANONICAL" ++ codeRow "------" "---------" ++
    String.join (codes.entries.map fun entry => codeRow entry.1 entry.2) ++
    s!"\nCodes not listed map to {CodeTable.fallback}.\n"

def codesOutput (codes : CodeTable) : Format → String
  | .text => codesText codes
  | .json =>
    let entries := codes.entries.map fun entry => (entry.1, Json.string entry.2)
    String.ofList (Json.object entries).pretty ++ "\n"

def Request.run (request : Request) (clock : Clock) : FileTask CommandError String := do
  let given := request.given
  let format := given.format.getD .text
  match request.verb with
  | .migrate => pure ((← perform clock given).output format)
  | .scan => pure (scanOutput (← candidates given) format)
  | .codes => pure (codesOutput (← given.settings).codes format)

inductive Ending where
  | done (output : String)
  | failed (error : CommandError)
  | stopped (usage : Usage)
  deriving DecidableEq, Repr

def Ending.exitCode : Ending → Nat
  | .done _ => 0
  | .failed _ => 1
  | .stopped usage => usage.exitCode

/-- The whole program: from the words of a command line to its end. -/
def execute (clock : Clock) (words : List String) : StateM Tree Ending := do
  match Request.read words with
  | .error usage => pure (.stopped usage)
  | .ok request =>
    match ← (request.run clock).run with
    | .ok output => pure (.done output)
    | .error error => pure (.failed error)

end ErrorMigration.Console
