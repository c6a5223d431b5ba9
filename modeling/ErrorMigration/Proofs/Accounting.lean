import ErrorMigration.Proofs.Run

/-! The books of a run. Whatever the locator finds and however the work on each file ends, results, events, counters
and patch tell of the same candidates in the same order. -/
namespace ErrorMigration

def Status.countIn (status : Status) (results : List FileResult) : Nat :=
  results.countP fun r => r.status = status

namespace FailureDetail

/-- What a failed result says of itself; the text of a result without a message is a stopgap. -/
def ofResult (r : FileResult) : FailureDetail := ⟨r.path,r.message.getD "unknown error"⟩

end FailureDetail

namespace Summary

/-- The counters count what their names say, and the failures are listed in order. -/
theorem tally_eq (results : List FileResult) : tally results =
    { total := results.length
      complete := Status.complete.countIn results
      incomplete := Status.incomplete.countIn results
      skipped := Status.skipped.countIn results
      failed := Status.failed.countIn results
      failures := (results.filter fun r => r.status = .failed).map FailureDetail.ofResult } := by
  induction results using List.reverseRecOn with
  | nil => rfl
  | append_singleton results r ih =>
    rw [tally,List.foldl_append,← tally,ih]
    cases status : r.status <;> simp [record,status,Status.countIn,FailureDetail.ofResult]

end Summary

/-- Every result has one of the four statuses. -/
theorem Status.length_eq_countIn (results : List FileResult) : results.length =
    Status.complete.countIn results + Status.incomplete.countIn results + Status.skipped.countIn results +
      Status.failed.countIn results := by
  induction results with
  | nil => rfl
  | cons r results ih =>
    simp only [countIn,List.countP_cons,List.length_cons] at ih ⊢
    cases r.status <;> simp <;> omega

namespace FileFix

/-- Work that does not fail, whatever it makes its backups with, records the migration of the text that it read. -/
theorem exists_of_run_ok {codes : CodeTable} {mode : WriteMode} {now : Moment} {path : Path} {t : Tree} {fix : FileFix}
    (ended : (run codes mode now path t).1 = .ok fix) :
    ∃ before backupPath, fix = ofMigration path before (migrateText codes before) backupPath := by
  obtain ⟨before,backupPath,_,_,_,recorded,_⟩ := run_eq_ok (Prod.ext ended rfl)
  exact ⟨before.toList,backupPath,recorded⟩

end FileFix

namespace Patch

/-- The part of a patch that belongs to a result. A changed file has a section under its path, with the texts that the
digests of the result are of; any other has none. -/
def Covers (codes : CodeTable) (r : FileResult) (part : List Char) : Prop :=
  match r.status with
  | .complete | .incomplete => headerText r.path <+: part ∧ ∃ before,
      part = fileSection ⟨r.path,before,(migrateText codes before).text⟩ ∧
      r.digestBefore = some (FileFix.digest before) ∧
      r.digestAfter = some (FileFix.digest (migrateText codes before).text)
  | .skipped | .failed => part = []

theorem headerText_prefix_fileSection (change : FileChange) (differ : change.before ≠ change.after) :
    headerText change.path <+: fileSection change := by
  rw [fileSection,if_neg differ]
  exact List.prefix_append _ _

/-- A section is there exactly when the status says that the text was changed. -/
theorem covers_ofMigration (codes : CodeTable) (path : Path) (before : List Char) (backupPath : Option Path) :
    let fix := FileFix.ofMigration path before (migrateText codes before) backupPath
    Covers codes fix.result (fileSection fix.change) := by
  intro fix
  have classified : fix.result.status = Status.classify before (migrateText codes before).text := rfl
  have changed (differ : before ≠ (migrateText codes before).text) :
      headerText fix.result.path <+: fileSection fix.change ∧ ∃ before,
        fileSection fix.change = fileSection ⟨fix.result.path,before,(migrateText codes before).text⟩ ∧
        fix.result.digestBefore = some (FileFix.digest before) ∧
        fix.result.digestAfter = some (FileFix.digest (migrateText codes before).text) :=
    ⟨headerText_prefix_fileSection fix.change differ,before,rfl,rfl,rfl⟩
  unfold Covers
  cases status : fix.result.status with
  | complete => exact changed (Status.classify_eq_complete_iff.mp (classified.symm.trans status)).1
  | incomplete =>
    refine changed fun same => ?_
    rw [classified,Status.classify_eq_skipped_iff.mpr same] at status
    contradiction
  | skipped =>
    have same := Status.classify_eq_skipped_iff.mp (classified.symm.trans status)
    exact if_pos same
  | failed => exact absurd (classified.symm.trans status) Status.classify_ne_failed

end Patch

namespace Ledger

def eventsOf (r : FileResult) : List Event := [.started r.path,.finished r]

/-- A ledger about candidates: a result for each, the events that go with it, a message for each failure, and a part
of the patch for each result. -/
structure Accounts (codes : CodeTable) (paths : List Path) (ledger : Ledger) : Prop where
  paths : ledger.results.map FileResult.path = paths
  events : ledger.events = ledger.results.flatMap eventsOf
  messages : ∀ r ∈ ledger.results, r.status = .failed → r.message.isSome = true
  patch : ∃ parts, List.Forall₂ (Patch.Covers codes) ledger.results parts ∧ Patch.render ledger.changes = parts.flatten

variable {codes : CodeTable} {paths : List Path} {later : Ledger} {path : Path} {fixed : Except FixError FileFix}

/-- One more candidate in front, however the work on it ended. -/
theorem Accounts.cons (accounts : Accounts codes paths later)
    (migrated : ∀ fix, fixed = .ok fix → ∃ before backupPath,
      fix = FileFix.ofMigration path before (migrateText codes before) backupPath) :
    Accounts codes (path :: paths) (later.cons path fixed) := by
  obtain ⟨parts,covered,rendered⟩ := accounts.patch
  cases fixed with
  | error error =>
    refine ⟨?_,?_,?_,[] :: parts,?_,?_⟩
    · simp [resultOf,FileResult.ofFailure,accounts.paths]
    · simp [resultOf,FileResult.ofFailure,eventsOf,accounts.events]
    · simpa [resultOf,FileResult.ofFailure] using accounts.messages
    · rw [cons_results]
      exact .cons rfl covered
    · simpa [changeOf] using rendered
  | ok fix =>
    obtain ⟨before,backupPath,rfl⟩ := migrated fix rfl
    refine ⟨?_,?_,?_,Patch.fileSection ⟨path,before,(migrateText codes before).text⟩ :: parts,?_,?_⟩
    · simp [resultOf,FileFix.ofMigration,accounts.paths]
    · simp [resultOf,FileFix.ofMigration,eventsOf,accounts.events]
    · rw [cons_results,List.forall_mem_cons]
      exact ⟨fun failed => absurd failed Status.classify_ne_failed,accounts.messages⟩
    · rw [cons_results]
      exact .cons (Patch.covers_ofMigration codes path before backupPath) covered
    · rw [cons_changes,List.flatten_cons,← rendered]
      rfl

end Ledger

namespace Run

/-- Every run keeps its books, also when backups are made in another way than in a directory. -/
theorem fixAll_accounts (codes : CodeTable) (mode : WriteMode) (clock : Clock) (reading : Nat) (paths : List Path)
    (t : Tree) : Ledger.Accounts codes paths (fixAll codes mode clock reading paths t).1 := by
  induction paths generalizing reading t with
  | nil => exact ⟨rfl,rfl,by simp,[],.nil,rfl⟩
  | cons path rest ih =>
    rw [fixAll_cons]
    exact (ih (reading + 1) _).cons fun fix ended => FileFix.exists_of_run_ok ended

/-- A run accounts for every candidate once. Its results are about what the locator found, in that order, and about
nothing if the locator failed; each is told when its file is taken up and when it is done; the counters add up, and the
failures are the failed results with their messages; and the patch is made of one section for each result that changed
its file. -/
theorem migrate_accounts (settings : Settings) (locate : Locator) (mode : WriteMode) (tool : Tool) (clock : Clock)
    (t : Tree) :
    let outcome := (migrate settings locate mode tool clock t).1
    let results := outcome.report.results
    let summary := outcome.report.summary
    (match locate t with
      | .ok paths => results.map FileResult.path = paths ∧ outcome.discoveryError = none
      | .error error => results = [] ∧ outcome.discoveryError = some error) ∧
    outcome.events = .found results.length :: results.flatMap (fun r => [.started r.path,.finished r]) ∧
    (summary.total = results.length ∧
      summary.total = summary.complete + summary.incomplete + summary.skipped + summary.failed ∧
      summary.complete = Status.complete.countIn results ∧ summary.incomplete = Status.incomplete.countIn results ∧
      summary.skipped = Status.skipped.countIn results ∧ summary.failed = Status.failed.countIn results) ∧
    (summary.failures.map fun failure => (failure.path,some failure.message)) =
      (results.filter fun r => r.status = .failed).map (fun r => (r.path,r.message)) ∧
    ∃ parts, List.Forall₂ (Patch.Covers settings.codes) results parts ∧ outcome.patch = parts.flatten := by
  intro outcome results summary
  have accounts := fixAll_accounts settings.codes mode clock 1 (discover locate t).1 t
  have counted : summary = { Summary.tally results with remaining := summary.remaining } := rfl
  rw [Summary.tally_eq] at counted
  refine ⟨?_,?_,?_,?_,accounts.patch⟩
  · have found := accounts.paths
    cases located : locate t with
    | ok paths =>
      simp only [discover,located] at found
      exact ⟨by simpa only [results,outcome,migrate_apply,discover,located] using found,
        by simp only [outcome,migrate_apply,discover,located]⟩
    | error error =>
      exact ⟨by simp only [results,outcome,migrate_apply,discover,located,fixAll_nil],
        by simp only [outcome,migrate_apply,discover,located]⟩
  · have length : results.length = (discover locate t).1.length := by
      rw [← accounts.paths,List.length_map]
      rfl
    rw [length]
    exact congrArg _ accounts.events
  · rw [counted]
    exact ⟨rfl,Status.length_eq_countIn results,rfl,rfl,rfl,rfl⟩
  · rw [counted]
    simp only [List.map_map]
    refine List.map_congr_left fun r member => ?_
    obtain ⟨inside,failed⟩ := List.mem_filter.mp member
    obtain ⟨message,told⟩ := Option.isSome_iff_exists.mp (accounts.messages r inside (of_decide_eq_true failed))
    simp [FailureDetail.ofResult,told]

end Run

end ErrorMigration
