import ErrorMigration.Proofs.Accounting
import ErrorMigration.Proofs.Console.Failure
import ErrorMigration.Proofs.Report.Codec
import ErrorMigration.Proofs.RunFrame

/-! Scans and migrations. Both read the same configuration, and the directory that a migration makes before it looks for
candidates holds none; so a scan lists the files that a migration reports on. -/
namespace ErrorMigration

/-- What a command line says about the reports does not matter for the candidates. -/
theorem Config.settings_agree {flags flags' : Flags} (scanRoot : flags'.scanRoot = flags.scanRoot)
    (extension : flags'.extension = flags.extension) (t : Tree) (repoRoot : Path) :
    (∃ error, settings t flags repoRoot = .error error ∧ settings t flags' repoRoot = .error error) ∨
      ∃ merged merged', settings t flags repoRoot = .ok merged ∧ settings t flags' repoRoot = .ok merged' ∧
        merged'.locator = merged.locator := by
  unfold settings
  cases load t repoRoot with
  | error error => exact .inl ⟨error,rfl,rfl⟩
  | ok config =>
    simp only [bind,Except.bind,merge]
    cases CodeTable.builtin.override config.codes with
    | error error => exact .inl ⟨_,rfl,rfl⟩
    | ok codes =>
      right
      refine ⟨_,_,rfl,rfl,?_⟩
      simp only [Settings.locator,Settings.scanDir,Settings.resolve,scanRoot,extension]

theorem Run.discover_eq_remaining (locate : Locator) (t : Tree) :
    (discover locate t).1 = Candidates.remaining locate t := by
  unfold discover Candidates.remaining
  cases locate t <;> rfl

/-- The results of a run are about the candidates in its tree. -/
theorem Run.paths_migrate (settings : Settings) (locate : Locator) (mode : WriteMode) (tool : Tool) (clock : Clock)
    (t : Tree) : (migrate settings locate mode tool clock t).1.report.results.map FileResult.path =
      Candidates.remaining locate t := by
  rw [← discover_eq_remaining]
  exact (fixAll_accounts settings.codes mode clock 1 (discover locate t).1 t).paths

namespace Console

variable {t : Tree}

/-- A dry run looks for candidates in its starting tree, any other migration also in directories that it has made. -/
theorem made_of_writeMode {given : Given} {settings : Settings} {started : Moment} {mode : WriteMode} {made : Tree}
    (decided : writeMode given settings started t = (.ok mode,made)) :
    (given.dryRun = true → made = t) ∧ ∃ paths, made = (t.makeAll paths).2 := by
  cases writes : given.dryRun with
  | true =>
    simp only [writeMode,writes,if_true,FileTask.pure_apply] at decided
    cases decided
    exact ⟨fun _ => rfl,[],rfl⟩
  | false =>
    refine ⟨by simp,(settings.runDir started).ancestors,?_⟩
    rw [writeMode_apply writes] at decided
    generalize t.makeAll (settings.runDir started).ancestors = ended at decided
    rcases ended with ⟨_ | _,_⟩ <;> cases decided
    rfl

/-- The candidates of a migration are those of its starting tree. -/
theorem remaining_of_writeMode (formed : t.WellFormed) {given : Given} {settings : Settings} {started : Moment}
    {mode : WriteMode} {made : Tree} (decided : writeMode given settings started t = (.ok mode,made))
    (visible : given.dryRun = true ∨ t.isDirectory settings.scanDir = true) :
    Candidates.remaining settings.locator made = Candidates.remaining settings.locator t := by
  obtain ⟨unchanged,paths,rfl⟩ := made_of_writeMode decided
  rcases visible with dry | directory
  · rw [unchanged dry]
  · -- the scanned directory stays the same one, and what is made in it is no file
    obtain ⟨base,leads⟩ := Option.isSome_iff_exists.mp directory
    have change := Tree.makeAll_becomes (fun _ => False) (fun _ => False) t paths
    simp only [Candidates.remaining,Settings.locator,
      Candidates.below_becomes formed (formed.makeAll paths) change leads]

theorem read_scanOutput (paths : List Path) :
    (Json.parse? (scanOutput paths .json)).bind (Json.list? Path.ofJson?) = some paths := by
  have codec := Json.listCodec Path.codec
  have blank : Json.AllBlank ['\n'] := Json.allBlank_newline 0
  have output : scanOutput paths .json = String.ofList ((Json.array (paths.map Path.toJson)).pretty ++ ['\n']) := by
    rw [String.ofList_append]
    rfl
  rw [output,Json.parse?_layout_append (Json.layout_pretty (codec.plain paths)) blank,Option.bind_some,
    codec.reads paths (by simp)]

/-- A migration that is completed reports on the candidates of its starting tree. -/
theorem paths_perform (formed : t.WellFormed) {clock : Clock} {given : Given} {migration : Migration} {after : Tree}
    (completed : perform clock given t = (.ok migration,after)) {settings : Settings}
    (configured : Config.settings t given.flags given.repository = .ok settings)
    (visible : given.dryRun = true ∨ t.isDirectory settings.scanDir = true) :
    migration.outcome.report.results.map FileResult.path = Candidates.remaining settings.locator t := by
  rw [perform_apply,configured] at completed
  cases decided : writeMode given settings (clock 0) t with
  | mk result made =>
  cases result with
  | error error =>
    simp only [decided] at completed
    cases completed
  | ok mode =>
    simp only [decided] at completed
    cases completed
    rw [Run.paths_migrate,remaining_of_writeMode formed decided visible]

/-- What stops a migration with settings is not the configuration. -/
theorem perform_config_iff (clock : Clock) (given : Given) (error : ConfigError) :
    (perform clock given t).1 = .error (.config error) ↔
      Config.settings t given.flags given.repository = .error error := by
  rw [perform_apply]
  cases Config.settings t given.flags given.repository with
  | error other => simp
  | ok settings =>
    cases writes : given.dryRun with
    | true => simp [writeMode,writes]
    | false =>
      simp only [writeMode_apply writes]
      rcases t.makeAll (settings.runDir (clock 0)).ancestors with ⟨_ | _,_⟩ <;> simp

theorem Request.run_scan_config_iff (clock : Clock) (given : Given) (error : ConfigError) :
    ((⟨.scan,given⟩ : Request).run clock t).1 = .error (.config error) ↔
      Config.settings t given.flags given.repository = .error error := by
  cases configured : Config.settings t given.flags given.repository with
  | error other => simp [run_unconfigured ⟨.scan,given⟩ configured]
  | ok settings => simp [run_scan configured]

/-- A scan prints the paths that a migration reports on, if the directory to scan is there or the migration is a dry
run; and a configuration that stops one of the two stops the other in the same way. The two commands share the
repository and what they look for, and may differ in all else. -/
theorem scan_agrees_with_migration (formed : t.WellFormed) (migrating scanning : Given)
    (repoRoot : scanning.repoRoot = migrating.repoRoot) (scanRoot : scanning.flags.scanRoot = migrating.flags.scanRoot)
    (extension : scanning.flags.extension = migrating.flags.extension) (json : scanning.format = some .json)
    (visible : migrating.dryRun = true ∨ ∀ settings,
      Config.settings t migrating.flags migrating.repository = .ok settings → t.isDirectory settings.scanDir = true)
    (clock clock' : Clock) :
    (∀ migration after, perform clock migrating t = (.ok migration,after) →
      ∃ output, (⟨.scan,scanning⟩ : Request).run clock' t = (.ok output,t) ∧
        (Json.parse? output).bind (Json.list? Path.ofJson?) =
          some (migration.outcome.report.results.map FileResult.path)) ∧
      ∀ error, (perform clock migrating t).1 = .error (.config error) ↔
        ((⟨.scan,scanning⟩ : Request).run clock' t).1 = .error (.config error) := by
  have repository : scanning.repository = migrating.repository := by rw [Given.repository,repoRoot,Given.repository]
  rcases Config.settings_agree scanRoot extension t migrating.repository with
    ⟨error,refused,refused'⟩ | ⟨settings,settings',configured,configured',same⟩
  · rw [← repository] at refused'
    refine ⟨fun migration after completed => ?_,fun other => ?_⟩
    · have failed := (perform_config_iff clock migrating error).mpr refused
      rw [completed] at failed
      contradiction
    · rw [perform_config_iff,Request.run_scan_config_iff,refused,refused']
  · rw [← repository] at configured'
    refine ⟨fun migration after completed => ?_,fun other => ?_⟩
    · have shown := visible.imp_right fun all => all settings configured
      refine ⟨_,Request.run_scan configured',?_⟩
      rw [paths_perform formed completed configured shown,same,json]
      exact read_scanOutput _
    · rw [perform_config_iff,Request.run_scan_config_iff,configured,configured']
      simp

/-- The directory that the migration makes is in the one that is scanned. -/
theorem scan_agrees_with_migration_sample :
    ∃ migration after output, perform Round.callSample.clock Round.callSample.given Round.callSample.start =
        (.ok migration,after) ∧
      (⟨.scan,{ Round.callSample.given with format := some .json }⟩ : Request).run (.fixedAt ⟨1,0⟩)
        Round.callSample.start = (.ok output,Round.callSample.start) ∧
      (Json.parse? output).bind (Json.list? Path.ofJson?) =
        some (migration.outcome.report.results.map FileResult.path) := by
  have formed : Round.callSample.start.WellFormed := by decide +kernel
  have configured : Config.settings Round.callSample.start Round.callSample.given.flags
      Round.callSample.given.repository = .ok { repoRoot := ⟨"/"⟩, scanRoot := ⟨"/"⟩, reportsDir := ⟨"/"⟩ } := by
    decide +kernel
  have completed : Round.callSample.report?.isSome = true := by decide +kernel
  unfold Round.report? Round.ended at completed
  cases ended : perform Round.callSample.clock Round.callSample.given Round.callSample.start with
  | mk result after =>
  cases result with
  | error error =>
    rw [ended] at completed
    contradiction
  | ok migration =>
    have visible : ∀ settings, Config.settings Round.callSample.start Round.callSample.given.flags
        Round.callSample.given.repository = .ok settings →
        Round.callSample.start.isDirectory settings.scanDir = true := by
      intro settings same
      cases configured.symm.trans same
      decide +kernel
    have agrees := scan_agrees_with_migration formed Round.callSample.given
      { Round.callSample.given with format := some .json } rfl rfl rfl rfl (.inr visible) Round.callSample.clock
      (.fixedAt ⟨1,0⟩)
    obtain ⟨output,printed,read⟩ := agrees.1 migration after ended
    exact ⟨migration,after,output,rfl,printed,read⟩

end Console

end ErrorMigration
