import ErrorMigration.Console.Command
import ErrorMigration.Proofs.Run

/-! A dry run foretells the run that writes. Both look at every candidate with the content that it had at the
start, so they differ in the backups only, unless a backup or a write fails. -/
namespace ErrorMigration

def FileResult.withoutBackup (r : FileResult) : FileResult := { r with backupPath := none }

def Event.withoutBackup : Event → Event
  | .finished result => .finished result.withoutBackup
  | event => event

/-- A backup does not show on the console. -/
theorem Console.eventText_withoutBackup (event : Event) :
    Console.eventText event.withoutBackup = Console.eventText event := by
  cases event <;> rfl

namespace Summary

theorem record_withoutBackup (s : Summary) (r : FileResult) : s.record r.withoutBackup = s.record r := rfl

theorem tally_withoutBackup (results : List FileResult) :
    tally (results.map FileResult.withoutBackup) = tally results := by
  simp only [tally,List.foldl_map,record_withoutBackup]

end Summary

/-- An error that comes from making a backup or from writing, and not from reading. -/
def FixError.stopsWriting : FixError → Bool
  | .backingUp _ _ => true
  | .writing _ _ => true
  | _ => false

def FileResult.IsBackedUp (r : FileResult) : Prop := r.status ≠ .failed → r.backupPath.isSome = true

namespace FileFix.Applied

variable {codes : CodeTable} {dir : Path} {now : Moment} {c : Candidate} {t t' : Tree}
  {fixed : Except FixError FileFix}

/-- Work that no backup stops is recorded as a dry run records it, but for the backup. -/
theorem predicted (applied : Applied codes dir now c t fixed t')
    (unhindered : ∀ error, fixed = .error error → error.stopsWriting = false) :
    Ledger.resultOf c.path (judge codes c none) = (Ledger.resultOf c.path fixed).withoutBackup ∧
    Ledger.changeOf (judge codes c none) = Ledger.changeOf fixed ∧
    (Ledger.resultOf c.path fixed).IsBackedUp := by
  cases applied with
  | notText unreadable =>
    simp only [judge,unreadable]
    exact ⟨rfl,trivial,fun notFailed => absurd rfl notFailed⟩
  | notSaved _ _ error =>
    have impossible := unhindered _ rfl
    simp [FixError.stopsWriting] at impossible
  | saved readable =>
    simp only [judge,readable]
    exact ⟨rfl,rfl,fun _ => rfl⟩

end FileFix.Applied

namespace Run

variable {codes : CodeTable} {dir : Path} {clock : Clock} {reading : Nat} {found : List Candidate} {t t' : Tree}
  {ledger : Ledger}

theorem Sweep.predicted (sweep : Sweep codes dir clock reading found t ledger t')
    (unhindered : ∀ number path error, (found.map Candidate.path)[number]? = some path →
      (FileFix.run codes (.apply (.inDirectory dir)) (clock (reading + number)) path
        (treeBefore codes (.apply (.inDirectory dir)) clock reading (found.map Candidate.path) number t)).1 =
          .error error → error.stopsWriting = false) :
    (judged codes found).results = ledger.results.map FileResult.withoutBackup ∧
    (judged codes found).events = ledger.events.map Event.withoutBackup ∧
    (judged codes found).changes = ledger.changes ∧ ∀ r ∈ ledger.results, r.IsBackedUp := by
  induction sweep with
  | done => simp [judged]
  | @step reading c rest t t₁ t₂ fixed later inside applied run others ih =>
    obtain ⟨result,change,saved⟩ := applied.predicted fun error failed =>
      unhindered 0 c.path error rfl (by simp [run,failed])
    obtain ⟨results,events,changes,allSaved⟩ := ih fun number path error located failed => by
      refine unhindered (number + 1) path error (by simpa using located) ?_
      rw [List.map_cons,treeBefore_succ,run,show reading + (number + 1) = reading + 1 + number by omega]
      exact failed
    refine ⟨?_,?_,?_,?_⟩
    · simp [judged,result,results]
    · simp [judged,result,events,Event.withoutBackup]
    · simp [judged,change,changes]
    · simpa using ⟨saved,allSaved⟩

/-- A dry run leaves the tree and foretells what a run with backups records, as long as no backup and no write
of that run fails. The two may read different clocks. -/
theorem migrate_dryRun_foretells (settings : Settings) (dir : Path) (tool : Tool) (clock clock' : Clock) {t : Tree}
    (formed : t.WellFormed)
    (unhindered : ∀ number error, attempt? settings.codes (.apply (.inDirectory dir)) clock'
      (discover settings.locator t).1 t number = some (.error error) → error.stopsWriting = false) :
    let dry := migrate settings settings.locator .dryRun tool clock t
    let applied := migrate settings settings.locator (.apply (.inDirectory dir)) tool clock' t
    dry.2 = t ∧ dry.1.patch = applied.1.patch ∧ dry.1.discoveryError = applied.1.discoveryError ∧
    dry.1.events = applied.1.events.map Event.withoutBackup ∧
    dry.1.events.map Console.eventText = applied.1.events.map Console.eventText ∧
    { dry.1.report.summary with remaining := [] } = { applied.1.report.summary with remaining := [] } ∧
    dry.1.report.results = applied.1.report.results.map FileResult.withoutBackup ∧
    ∀ r ∈ applied.1.report.results, r.status ≠ .failed → r.backupPath.isSome = true := by
  intro dry applied
  have sameText (events : List Event) :
      (events.map Event.withoutBackup).map Console.eventText = events.map Console.eventText := by
    simp [Console.eventText_withoutBackup]
  obtain ⟨_,discovered⟩ | ⟨base,found,_,discovered,listing⟩ := discover_locator settings formed
  · simp only [dry,applied,migrate_apply,discovered,fixAll_nil]
    simp [Event.withoutBackup]
  · have swept := fixAll_sweep settings.codes dir clock' 1 listing.inside listing.apart
    obtain ⟨results,events,changes,saved⟩ := swept.predicted fun number path error located failed =>
      unhindered number error (by simp only [attempt?,discovered,located,Option.map_some,failed])
    simp only [dry,applied,migrate_apply,discovered,fixAll_dryRun settings.codes clock 1 listing.inside]
    refine ⟨trivial,by rw [changes],trivial,?_,?_,?_,results,saved⟩
    · simp only [List.map_cons,events]
      rfl
    · simp only [List.map_cons,events,sameText]
    · rw [results,Summary.tally_withoutBackup]

/-- Both kinds of success and a failure to read, side by side. -/
theorem migrate_dryRun_foretells_sample :
    sampleTree.WellFormed ∧
    let dry := migrate {} ({} : Settings).locator .dryRun Console.tool (.fixedAt ⟨0,0⟩) sampleTree
    let applied := migrate {} ({} : Settings).locator (.apply (.inDirectory ⟨"saved"⟩)) Console.tool
      (.fixedAt ⟨7,0⟩) sampleTree
    dry.2 = sampleTree ∧ dry.1.patch = applied.1.patch ∧
    dry.1.report.results = applied.1.report.results.map FileResult.withoutBackup ∧
    applied.1.report.results.map FileResult.status = [.complete,.failed,.skipped] := by
  have formed : sampleTree.WellFormed := by decide +kernel
  have statuses : (migrate {} ({} : Settings).locator (.apply (.inDirectory ⟨"saved"⟩)) Console.tool
      (.fixedAt ⟨7,0⟩) sampleTree).1.report.results.map FileResult.status = [.complete,.failed,.skipped] := by
    rw [migrate_apply,discover_sampleTree]
    decide +kernel
  have ends : ∀ number < 3, ∀ error ∈ (attempt? CodeTable.builtin (.apply (.inDirectory ⟨"saved"⟩))
      (.fixedAt ⟨7,0⟩) [⟨"./src/a.js"⟩,⟨"./src/b.js"⟩,⟨"./src/c.js"⟩] sampleTree number).bind fun ended =>
        match ended with
        | .error error => some error
        | .ok _ => none, error.stopsWriting = false := by decide +kernel
  have foretold := migrate_dryRun_foretells {} ⟨"saved"⟩ Console.tool (.fixedAt ⟨0,0⟩) (.fixedAt ⟨7,0⟩) formed
    fun number error ended => by
      rw [discover_sampleTree] at ended
      by_cases small : number < 3
      · exact ends number small error (by rw [ended]; rfl)
      · simp [attempt?,small] at ended
  exact ⟨formed,foretold.1,foretold.2.1,foretold.2.2.2.2.2.2.1,statuses⟩

end Run

end ErrorMigration
