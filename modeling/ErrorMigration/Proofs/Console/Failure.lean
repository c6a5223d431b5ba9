import ErrorMigration.Main
import ErrorMigration.Proofs.BackupHistory
import ErrorMigration.Proofs.CodeTable

/-! Fatal failures. A command fails because of its configuration or because the run directory cannot be made, in both
cases before the first file is written; every other failure is absorbed by the output. -/
namespace ErrorMigration

namespace Config

/-- The configuration of a repository is there but cannot be used. -/
inductive Broken (t : Tree) (repoRoot : Path) : Prop where
  | unreadable {error : AccessError} (present : t.isPresent (pathIn repoRoot) = true)
      (refused : t.readText (pathIn repoRoot) = .error error)
  | invalid {text : String} (present : t.isPresent (pathIn repoRoot) = true)
      (read : t.readText (pathIn repoRoot) = .ok text) (rejected : ofText? text = none)
  | unusable {text : String} {config : Config} {pair : String × String}
      (present : t.isPresent (pathIn repoRoot) = true) (read : t.readText (pathIn repoRoot) = .ok text)
      (accepted : ofText? text = some config) (listed : pair ∈ config.codes) (refused : ¬ CodeTable.IsUsable pair)

theorem exists_merge_iff (config : Config) (flags : Flags) (repoRoot : Path) :
    (∃ settings, config.merge flags repoRoot = .ok settings) ↔ ∀ pair ∈ config.codes, CodeTable.IsUsable pair := by
  rw [← CodeTable.builtin.exists_override_iff]
  unfold merge
  cases CodeTable.builtin.override config.codes <;> simp

/-- There are settings unless the configuration is broken, whatever the command line says. -/
theorem exists_settings_iff (t : Tree) (flags : Flags) (repoRoot : Path) :
    (∃ merged, settings t flags repoRoot = .ok merged) ↔ ¬ Broken t repoRoot := by
  unfold settings load
  by_cases present : t.isPresent (pathIn repoRoot) = true
  · cases read : t.readText (pathIn repoRoot) with
    | error error => simp [present,read,bind,Except.bind,Broken.unreadable present read]
    | ok text =>
      cases accepted : ofText? text with
      | none => simp [present,read,accepted,bind,Except.bind,Broken.invalid present read accepted]
      | some config =>
        simp only [present,read,accepted,if_true,bind,Except.bind]
        rw [exists_merge_iff]
        constructor
        · intro usable broken
          cases broken with
          | unreadable _ refused => simp [read] at refused
          | invalid _ again rejected =>
            cases read.symm.trans again
            simp [accepted] at rejected
          | unusable _ again same listed refused =>
            cases read.symm.trans again
            cases accepted.symm.trans same
            exact refused (usable _ listed)
        · intro sound pair listed
          by_contra refused
          exact sound (.unusable present read accepted listed refused)
  · have fine : ¬ Broken t repoRoot := by rintro (⟨there,_⟩ | ⟨there,_,_⟩ | ⟨there,_,_,_,_⟩) <;> exact present there
    have empty := (exists_merge_iff {} flags repoRoot).mpr (by simp)
    simpa [present,bind,Except.bind,fine] using empty

end Config

namespace Console

inductive Fatal (clock : Clock) (request : Request) (t : Tree) : Prop where
  | config (broken : Config.Broken t request.given.repository)
  | prepare {settings : Settings} {error : AccessError} (migrates : request.verb = .migrate)
      (writes : request.given.dryRun = false)
      (configured : Config.settings t request.given.flags request.given.repository = .ok settings)
      (refused : (FileTask.makeDirectories (settings.runDir (clock 0)) t).1 = .error error)

/-- A command leaves the regular files as they are: all of them, and no others, are there afterwards. -/
def SameFiles (before after : Tree) : Prop :=
  ∀ place content, after.node? place = some (.file content) ↔ before.node? place = some (.file content)

theorem bind_state_apply {α β : Type} (work : StateM Tree α) (next : α → StateM Tree β) (t : Tree) :
    (work >>= next) t = next (work t).1 (work t).2 := rfl

section Ending

variable {words : List String} {request : Request} {clock : Clock} {t after : Tree}

theorem execute_done (valid : Request.read words = .ok request) {output : String}
    (ended : request.run clock t = (.ok output,after)) : execute clock words t = (.done output,after) := by
  simp only [execute,valid]
  rw [bind_state_apply,ExceptT.run,ended]
  rfl

theorem execute_failed (valid : Request.read words = .ok request) {error : CommandError}
    (ended : request.run clock t = (.error error,after)) : execute clock words t = (.failed error,after) := by
  simp only [execute,valid]
  rw [bind_state_apply,ExceptT.run,ended]
  rfl

end Ending

namespace Request

variable {clock : Clock} {given : Given} {t : Tree} {settings : Settings}

theorem run_migrate (clock : Clock) (given : Given) (t : Tree) :
    (⟨.migrate,given⟩ : Request).run clock t = match perform clock given t with
      | (.ok migration,t') => (.ok (migration.output (given.format.getD .text)),t')
      | (.error error,t') => (.error error,t') := by
  simp only [run,FileTask.bind_apply]
  rcases perform clock given t with ⟨_ | _,t'⟩ <;> rfl

theorem run_scan (configured : Config.settings t given.flags given.repository = .ok settings) :
    (⟨.scan,given⟩ : Request).run clock t =
      (.ok (scanOutput (Candidates.remaining settings.locator t) (given.format.getD .text)),t) := by
  simp only [run,candidates,FileTask.bind_apply,Given.settings,FileTask.inspect,configured,Except.mapError]
  rfl

theorem run_codes (configured : Config.settings t given.flags given.repository = .ok settings) :
    (⟨.codes,given⟩ : Request).run clock t = (.ok (codesOutput settings.codes (given.format.getD .text)),t) := by
  simp only [run,FileTask.bind_apply,Given.settings,FileTask.inspect,configured,Except.mapError]
  rfl

/-- Without settings every command fails at once. -/
theorem run_unconfigured (request : Request) {error : ConfigError}
    (refused : Config.settings t request.given.flags request.given.repository = .error error) :
    request.run clock t = (.error (.config error),t) := by
  obtain ⟨verb,given⟩ := request
  cases verb with
  | migrate => simp only [run_migrate,perform_apply,refused]
  | scan => simp only [run,candidates,FileTask.bind_apply,Given.settings,FileTask.inspect,refused,Except.mapError]
  | codes => simp only [run,FileTask.bind_apply,Given.settings,FileTask.inspect,refused,Except.mapError]

/-- A migration that cannot make its directory fails, with the directories that could be made in place. -/
theorem run_refused (configured : Config.settings t given.flags given.repository = .ok settings)
    (writes : given.dryRun = false) {cause : AccessError}
    (refused : (FileTask.makeDirectories (settings.runDir (clock 0)) t).1 = .error cause) :
    ∃ error, (⟨.migrate,given⟩ : Request).run clock t =
      (.error error,(t.makeAll (settings.runDir (clock 0)).ancestors).2) := by
  simp only [run_migrate,perform_apply,configured,writeMode_apply writes]
  simp only [FileTask.makeDirectories] at refused
  generalize t.makeAll (settings.runDir (clock 0)).ancestors = ended at refused
  rcases ended with ⟨_ | _,made⟩
  · exact ⟨_,rfl⟩
  · contradiction

/-- Everything else is completed. -/
theorem run_completed (request : Request)
    (configured : Config.settings t request.given.flags request.given.repository = .ok settings)
    (prepared : request.verb = .migrate → request.given.dryRun = false →
      ∀ cause, (FileTask.makeDirectories (settings.runDir (clock 0)) t).1 ≠ .error cause) :
    ∃ output after, request.run clock t = (.ok output,after) := by
  obtain ⟨verb,given⟩ := request
  cases verb with
  | migrate =>
    have started : ∃ mode made, writeMode given settings (clock 0) t = (.ok mode,made) := by
      cases writes : given.dryRun with
      | true => exact ⟨.dryRun,t,by simp [writeMode,writes]⟩
      | false =>
        have possible := prepared rfl writes
        rw [writeMode_apply writes]
        simp only [FileTask.makeDirectories] at possible
        generalize t.makeAll (settings.runDir (clock 0)).ancestors = ended at possible
        rcases ended with ⟨cause | _,made⟩
        · exact absurd rfl (possible _)
        · exact ⟨_,_,rfl⟩
    obtain ⟨mode,made,started⟩ := started
    simp only [run_migrate,perform_apply,configured,started]
    exact ⟨_,_,rfl⟩
  | scan => exact ⟨_,_,run_scan configured⟩
  | codes => exact ⟨_,_,run_codes configured⟩

/-- A command fails for its causes only, and then leaves the files as they are. -/
theorem run_ends (request : Request) (clock : Clock) (t : Tree) :
    (Fatal clock request t ∧ ∃ error after, request.run clock t = (.error error,after) ∧ SameFiles t after) ∨
      ¬ Fatal clock request t ∧ ∃ output after, request.run clock t = (.ok output,after) := by
  cases configured : Config.settings t request.given.flags request.given.repository with
  | error error =>
    left
    have broken : Config.Broken t request.given.repository := by
      by_contra fine
      obtain ⟨settings,found⟩ := (Config.exists_settings_iff t request.given.flags _).mpr fine
      rw [configured] at found
      contradiction
    exact ⟨.config broken,_,t,request.run_unconfigured configured,fun _ _ => Iff.rfl⟩
  | ok settings =>
    by_cases fatal : Fatal clock request t
    · left
      refine ⟨fatal,?_⟩
      cases fatal with
      | config broken => exact absurd broken ((Config.exists_settings_iff t request.given.flags _).mp ⟨_,configured⟩)
      | prepare migrates writes again refused =>
        obtain ⟨verb,given⟩ := request
        cases migrates
        obtain ⟨error,ended⟩ := run_refused again writes refused
        exact ⟨error,_,ended,fun _ _ => (Tree.makeAll_becomes (fun _ => False) (fun _ => False) t _).file_iff⟩
    · exact .inr ⟨fatal,request.run_completed configured fun migrates writes _ refused =>
        fatal (.prepare migrates writes configured refused)⟩

end Request

/-- A valid command line ends with exit code one exactly for the two causes: the configuration is there but cannot be
used, or a migration that writes cannot make its run directory. Then nothing is printed and the files are as they were;
in all other cases the exit code is zero. -/
theorem execute_fails_iff {words : List String} {request : Request} (valid : Request.read words = .ok request)
    (clock : Clock) (t : Tree) :
    ((execute clock words t).1.exitCode = 1 ↔ Fatal clock request t) ∧
      (Fatal clock request t → Program.stdoutText (execute clock words t).1 = "" ∧
        SameFiles t (execute clock words t).2) ∧
      (¬ Fatal clock request t → (execute clock words t).1.exitCode = 0) := by
  rcases request.run_ends clock t with ⟨fatal,error,after,ended,same⟩ | ⟨fine,output,after,ended⟩
  · rw [execute_failed valid ended]
    exact ⟨⟨fun _ => fatal,fun _ => rfl⟩,fun _ => ⟨rfl,same⟩,fun fine => absurd fatal fine⟩
  · rw [execute_done valid ended]
    exact ⟨⟨fun one => by contradiction,fun fatal => absurd fatal fine⟩,fun fatal => absurd fatal fine,fun _ => rfl⟩

def blockedTree : Tree := .ofEntries [(["docs"],.file [])]

theorem execute_fails_iff_blocked :
    Request.read ["migrate"] = .ok ⟨.migrate,{}⟩ ∧
      (execute (.fixedAt ⟨0,0⟩) ["migrate"] blockedTree).1.exitCode = 1 ∧
      Program.stdoutText (execute (.fixedAt ⟨0,0⟩) ["migrate"] blockedTree).1 = "" ∧
      SameFiles blockedTree (execute (.fixedAt ⟨0,0⟩) ["migrate"] blockedTree).2 := by
  have valid : Request.read ["migrate"] = .ok ⟨.migrate,{}⟩ := by decide +kernel
  have fatal : Fatal (.fixedAt ⟨0,0⟩) ⟨.migrate,{}⟩ blockedTree := by
    have configured : Config.settings blockedTree {} ⟨"."⟩ = .ok {} := by decide +kernel
    have refused : (FileTask.makeDirectories (({} : Settings).runDir ⟨0,0⟩) blockedTree).1 =
        .error (.makingDirectory (({} : Settings).runDir ⟨0,0⟩) .notDirectory) := by decide +kernel
    exact .prepare rfl rfl configured refused
  obtain ⟨fails,touches,_⟩ := execute_fails_iff valid (.fixedAt ⟨0,0⟩) blockedTree
  exact ⟨valid,fails.mpr fatal,touches fatal⟩

end Console

end ErrorMigration
