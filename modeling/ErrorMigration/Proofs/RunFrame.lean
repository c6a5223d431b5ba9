import ErrorMigration.Proofs.BackupHistory
import ErrorMigration.Proofs.Verification

/-! What a whole command touches. The files of its candidates become what their results say, every other file stays,
and what is new is a backup or a file of the report, in the directory of the run. -/
namespace ErrorMigration

namespace Run

/-- How a status goes with the content of a file before and after: a file that was changed holds the migrated text,
any other holds what it held. -/
def Agrees (codes : CodeTable) (status : Status) (before after : List UInt8) : Prop :=
  ((status = .complete ∨ status = .incomplete) ∧ ∃ text, Text.ofBytes? before = some text ∧
    after = Text.bytes (String.ofList (migrateText codes text.toList).text)) ∨
  ((status = .skipped ∨ status = .failed) ∧ after = before)

variable {codes : CodeTable} {dir : Path} {clock : Clock} {reading : Nat} {found : List Candidate} {t t' : Tree}
  {ledger : Ledger}

theorem Records.agrees {c : Candidate} {r : FileResult} (records : Records codes t c r) :
    ∃ after, t.node? c.place = some (.file after) ∧ Agrees codes r.status c.content after := by
  obtain ⟨_,⟨failed,found⟩ | ⟨text,readable,judged,found⟩⟩ := records
  · exact ⟨_,found,.inr ⟨.inr failed,rfl⟩⟩
  · refine ⟨_,found,?_⟩
    cases status : r.status with
    | complete => exact .inl ⟨.inl rfl,text,readable,rfl⟩
    | incomplete => exact .inl ⟨.inr rfl,text,readable,rfl⟩
    | skipped =>
      have same := Status.classify_eq_skipped_iff.mp (judged.symm.trans status)
      refine .inr ⟨.inl rfl,?_⟩
      rw [← same,String.ofList_toList]
      exact Text.ofBytes?_eq_some_iff.mp readable
    | failed => exact absurd (judged.symm.trans status) Status.classify_ne_failed

/-- The only file that a candidate's work adds is its backup. -/
theorem added_of_applied {now : Moment} {c : Candidate} {fixed : Except FixError FileFix} {place : Place}
    {content : List UInt8} (applied : FileFix.Applied codes dir now c t fixed t') (inside : c.In t)
    (plain : t'.NoLinksIn dir) (free : t.node? place = none) (new : t'.node? place = some (.file content)) :
    ∃ backup parent name, (Ledger.resultOf c.path fixed).backupPath = some backup ∧
      place = parent ++ [Text.bytes name] ∧ Saved dir t t' backup content parent name := by
  have whole := applied
  cases applied with
  | notText =>
    rw [free] at new
    contradiction
  | notSaved _ _ kept =>
    have directories : t.Becomes (fun _ => False) (fun _ => False) t' := Tree.becomes_of_same_or_made kept
    rw [directories.file_iff,free] at new
    contradiction
  | @saved made _ _ _ name parent last _ _ _ prepared _ _ _ _ _ rest =>
    have directories : t.Becomes (fun _ => False) (fun _ => False) made := Tree.becomes_of_makeAll prepared
    have only {place : Place} {content : List UInt8} (free : t.node? place = none)
        (new : t'.node? place = some (.file content)) : place = parent ++ [last] := by
      by_contra other
      have notSource : place ≠ c.place := by
        rintro rfl
        rw [inside.found] at free
        contradiction
      rw [rest place notSource other,directories.file_iff,free] at new
      contradiction
    obtain ⟨parent',name',saved⟩ := saved_of_applied whole plain rfl
    have here : place = parent' ++ [Text.bytes name'] := (only free new).trans (only saved.free saved.found).symm
    obtain rfl : content = c.content := by
      have same := saved.found
      rw [← here,new,Option.some.injEq,Node.file.injEq] at same
      exact same
    exact ⟨_,parent',name',rfl,here,saved⟩

/-- Every file that a run adds is a backup that it reports. -/
theorem Sweep.added (sweep : Sweep codes dir clock reading found t ledger t') (plain : t'.NoLinksIn dir)
    (taken : ∀ c ∈ found, t.node? c.place ≠ none) {place : Place} {content : List UInt8} (free : t.node? place = none)
    (new : t'.node? place = some (.file content)) :
    ∃ result ∈ ledger.results, ∃ backup parent name, result.backupPath = some backup ∧
      place = parent ++ [Text.bytes name] ∧ Saved dir t t' backup content parent name := by
  induction sweep with
  | done =>
    rw [free] at new
    contradiction
  | @step reading c rest t t₁ t₂ fixed later inside applied _ others ih =>
    rw [Ledger.cons_results]
    have elsewhere : place ∉ rest.map Candidate.place := by
      intro member
      obtain ⟨other,candidate,rfl⟩ := List.mem_map.mp member
      exact taken other (List.mem_cons_of_mem _ candidate) free
    rcases others.becomes.file_origin new with ⟨before,old⟩ | ⟨_,still⟩
    · obtain ⟨backup,parent,name,reported,here,saved⟩ :=
        added_of_applied applied inside (plain.before others.becomes) free old
      have same := others.becomes.kept old elsewhere
      rw [new,Option.some.injEq,Node.file.injEq] at same
      subst same
      exact ⟨_,List.mem_cons_self,backup,parent,name,reported,here,saved.becomes others.becomes (here ▸ elsewhere)⟩
    · have stay : ∀ other ∈ rest, t₁.node? other.place ≠ none := by
        intro other member gone
        exact taken other (List.mem_cons_of_mem _ member) (applied.becomes.free gone)
      obtain ⟨result,member,backup,parent,name,reported,here,saved⟩ := ih plain stay still new
      exact ⟨result,List.mem_cons_of_mem _ member,backup,parent,name,reported,here,saved.before applied.becomes⟩

end Run

namespace Round

/-- The phases of a command that is completed: the run directory is made, the candidates are swept, and the files of
the run are left. -/
structure Phases (r : Round) (settings : Settings) (outcome : Outcome) (found : List Candidate) (ledger : Ledger)
    (made swept : Tree) : Prop where
  configured : Config.settings r.start r.given.flags r.given.repository = .ok settings
  prepared : r.start.makeAll (settings.runDir (r.clock 0)).ancestors = (.ok (),made)
  run : Run.Swept settings (settings.runDir (r.clock 0)) (fun reading => r.clock (reading + 1)) made outcome swept found
    ledger
  reported : r.report? = some outcome.report
  left : r.after = (Artifacts.write outcome (settings.runDir (r.clock 0)) swept).2

/-- The course of a command that is completed, in a tree without links: what is left stands in the run directory. -/
structure Course (r : Round) (settings : Settings) (directory : Place) (found : List Candidate) (ledger : Ledger)
    (made swept : Tree) : Prop where
  configured : Config.settings r.start r.given.flags r.given.repository = .ok settings
  results : r.results = ledger.results
  reported : r.directory? = some directory
  leads : r.after.directoryAt? (settings.runDir (r.clock 0)) = some directory
  prepared : r.start.Becomes (fun _ => False) (fun _ => False) made
  inside : ∀ c ∈ found, c.In made
  apart : (found.map Candidate.place).Nodup
  sweep : Run.Sweep settings.codes (settings.runDir (r.clock 0)) (fun reading => r.clock (reading + 1)) 1 found made
    ledger swept
  linkFree : swept.LinkFree
  artifacts : swept.Becomes (Artifacts.IsArtifactPlace directory) (Artifacts.IsArtifactPlace directory) r.after

variable {r : Round}

theorem exists_phases (formed : r.start.WellFormed) (writes : r.given.dryRun = false) (beside : r.given.outDir = none)
    (completed : r.report?.isSome = true) :
    ∃ settings outcome found ledger made swept, r.Phases settings outcome found ledger made swept := by
  rcases stages writes beside with ⟨stopped,_⟩ | ⟨settings,made,outcome,swept,configured,prepared,ran,reported,left,_⟩
  · rw [stopped] at completed
    contradiction
  obtain ⟨found,ledger,run⟩ := Run.exists_swept (formed.of_makeAll prepared) ran
  exact ⟨settings,outcome,found,ledger,made,swept,configured,prepared,run,reported,left⟩

namespace Phases

variable {settings : Settings} {outcome : Outcome} {found : List Candidate} {ledger : Ledger} {made swept : Tree}

theorem directories (phases : r.Phases settings outcome found ledger made swept) :
    r.start.Becomes (fun _ => False) (fun _ => False) made :=
  Tree.becomes_of_makeAll phases.prepared

theorem results (phases : r.Phases settings outcome found ledger made swept) : r.results = ledger.results := by
  rw [Round.results,phases.reported]
  exact phases.run.results

theorem backupDir (phases : r.Phases settings outcome found ledger made swept) :
    r.backupDir? = some (settings.runDir (r.clock 0)) := by
  rw [backupDir?,phases.reported,Option.bind_some,phases.run.backupDir]

end Phases

theorem exists_course (formed : r.start.WellFormed) (free : r.start.LinkFree) (writes : r.given.dryRun = false)
    (beside : r.given.outDir = none) (completed : r.report?.isSome = true) :
    ∃ settings directory found ledger made swept, r.Course settings directory found ledger made swept := by
  obtain ⟨settings,outcome,found,ledger,made,swept,phases⟩ := exists_phases formed writes beside completed
  have run := phases.run
  have freeSwept := run.sweep.becomes.linkFree (phases.directories.linkFree free)
  have artifacts := Artifacts.write_becomes_own freeSwept outcome (settings.runDir (r.clock 0))
  rw [← phases.left] at artifacts
  obtain ⟨directory,leadsMade⟩ :=
    Option.isSome_iff_exists.mp (Tree.isDirectory_of_makeAll (runDir_spelling settings (r.clock 0)) phases.prepared)
  have leadsSwept := Tree.directoryAt?_becomes run.sweep.becomes leadsMade
  obtain ⟨_,_,reached⟩ := Tree.directoryAt?_eq_some_iff.mp leadsSwept
  have leads := Tree.directoryAt?_becomes artifacts leadsSwept
  rw [← (reached.eq_lexical freeSwept).1] at artifacts
  refine ⟨settings,directory,found,ledger,made,swept,phases.configured,phases.results,?_,leads,phases.directories,
    run.inside,run.apart,run.sweep,freeSwept,artifacts⟩
  rw [directory?,phases.backupDir,Option.bind_some,leads]

/-- In a fresh run directory there is nothing to overwrite. -/
theorem not_artifact_of_fresh {directory place : Place} {content : List UInt8} (formed : r.start.WellFormed)
    (fresh : r.start.node? directory = none) (old : r.start.node? place = some (.file content)) :
    ¬ Artifacts.IsArtifactPlace directory place := by
  rintro ⟨name,_,rfl⟩
  rw [formed.parent old] at fresh
  contradiction

namespace Course

variable {settings : Settings} {directory : Place} {found : List Candidate} {ledger : Ledger} {made swept : Tree}
  {place : Place} {content : List UInt8}

/-- Making the run directory leaves the files as they are. -/
theorem made_file_iff (course : r.Course settings directory found ledger made swept) :
    made.node? place = some (.file content) ↔ r.start.node? place = some (.file content) :=
  course.prepared.file_iff

/-- Each result is about an old file, and agrees with it. -/
theorem agrees (course : r.Course settings directory found ledger made swept) (formed : r.start.WellFormed)
    (fresh : r.start.node? directory = none) {c : Candidate} {result : FileResult} (member : c ∈ found)
    (records : Run.Records settings.codes swept c result) :
    r.start.node? c.place = some (.file c.content) ∧ ∃ after, r.after.resolve result.path = .ok (.file c.place after) ∧
      Run.Agrees settings.codes result.status c.content after := by
  obtain ⟨after,there,agrees⟩ := records.agrees
  have inside := course.inside c member
  have old := course.made_file_iff.mp inside.found
  have kept := course.artifacts.kept there (not_artifact_of_fresh formed fresh old)
  have addressed := (inside.addressed.becomes course.sweep.becomes).becomes course.artifacts
  refine ⟨old,after,?_,agrees⟩
  rw [records.1]
  exact addressed.resolveFor_file kept .use

/-- A file that is not that of a candidate stays. -/
theorem kept (course : r.Course settings directory found ledger made swept) (formed : r.start.WellFormed)
    (fresh : r.start.node? directory = none) (old : r.start.node? place = some (.file content))
    (other : place ∉ found.map Candidate.place) : r.after.node? place = some (.file content) :=
  course.artifacts.kept (course.sweep.becomes.kept (course.made_file_iff.mpr old) other)
    (not_artifact_of_fresh formed fresh old)

/-- A new file stands in the run directory and is a backup or one of the files of the run. -/
theorem added (course : r.Course settings directory found ledger made swept)
    (absent : ∀ before, r.start.node? place ≠ some (.file before)) (new : r.after.node? place = some (.file content)) :
    ∃ name, place = directory ++ [name] ∧
      ((∃ backup ∈ r.backups, r.after.resolve backup = .ok (.file place content)) ∨
        ∃ artifact ∈ Artifacts.names, name = Text.bytes artifact) := by
  rcases course.artifacts.file_origin new with ⟨before,old⟩ | ⟨⟨artifact,member,rfl⟩,_⟩
  · have free : made.node? place = none := by
      rcases course.sweep.becomes.file_origin old with ⟨earlier,there⟩ | ⟨_,free⟩
      · exact absurd (course.made_file_iff.mp there) (absent earlier)
      · exact free
    have taken : ∀ c ∈ found, made.node? c.place ≠ none := by
      intro c member gone
      rw [(course.inside c member).found] at gone
      contradiction
    obtain ⟨result,member,backup,parent,name,backedUp,rfl,saved⟩ :=
      course.sweep.added (course.linkFree.noLinksIn _) taken free old
    have numbered : ¬ Artifacts.IsArtifactPlace directory (parent ++ [Text.bytes name]) := fun artifact =>
      artifact.not_numbered (BackupStore.isNumberedPlace_iff.mpr saved.numbered)
    have final := saved.becomes course.artifacts numbered
    have same := final.found
    rw [new,Option.some.injEq,Node.file.injEq] at same
    subst same
    have leads := final.directory
    rw [Tree.joinPlace?,if_neg (runDir_spelling settings (r.clock 0)),course.leads,Option.some.injEq] at leads
    subst leads
    refine ⟨Text.bytes name,rfl,.inl ⟨backup,?_,final.resolve⟩⟩
    rw [backups,course.results]
    exact List.mem_filterMap.mpr ⟨result,member,backedUp⟩
  · exact ⟨Text.bytes artifact,rfl,.inr ⟨artifact,member,rfl⟩⟩

end Course

/-- What a completed command with a fresh run directory touches. Every result is about a file that was there before,
and agrees with what this file holds afterwards; a file that was there holds the same afterwards unless it is that of
a complete or an incomplete result; and a new file stands in the run directory and is a reported backup, a report or
the patch. -/
theorem touches_results_only (formed : r.start.WellFormed) (free : r.start.LinkFree) (writes : r.given.dryRun = false)
    (beside : r.given.outDir = none) (completed : r.report?.isSome = true)
    (fresh : ∀ directory, r.directory? = some directory → r.start.node? directory = none) :
    ∃ settings directory, Config.settings r.start r.given.flags r.given.repository = .ok settings ∧
      r.directory? = some directory ∧
      (∀ result ∈ r.results, ∃ place before after, r.start.node? place = some (.file before) ∧
        r.after.resolve result.path = .ok (.file place after) ∧
        Run.Agrees settings.codes result.status before after) ∧
      (∀ place before, r.start.node? place = some (.file before) → ∃ after, r.after.node? place = some (.file after) ∧
        (after = before ∨ ∃ result ∈ r.results, r.after.resolve result.path = .ok (.file place after) ∧
          (result.status = .complete ∨ result.status = .incomplete) ∧
          Run.Agrees settings.codes result.status before after)) ∧
      ∀ place content, (∀ before, r.start.node? place ≠ some (.file before)) →
        r.after.node? place = some (.file content) → ∃ name, place = directory ++ [name] ∧
          ((∃ backup ∈ r.backups, r.after.resolve backup = .ok (.file place content)) ∨
            ∃ artifact ∈ Artifacts.names, name = Text.bytes artifact) := by
  obtain ⟨settings,directory,found,ledger,made,swept,course⟩ := exists_course formed free writes beside completed
  have vacant := fresh directory course.reported
  have records := course.sweep.records course.apart
  refine ⟨settings,directory,course.configured,course.reported,?_,?_,fun _ _ => course.added⟩
  · intro result member
    rw [course.results] at member
    obtain ⟨c,candidate,recorded⟩ := Run.exists_of_mem_right records member
    obtain ⟨old,after,leads,agrees⟩ := course.agrees formed vacant candidate recorded
    exact ⟨c.place,c.content,after,old,leads,agrees⟩
  · intro place before old
    by_cases candidate : place ∈ found.map Candidate.place
    · obtain ⟨c,member,rfl⟩ := List.mem_map.mp candidate
      obtain ⟨result,reported,recorded⟩ := Run.exists_of_mem_right records.flip member
      obtain ⟨there,after,leads,agrees⟩ := course.agrees formed vacant member recorded
      rw [old,Option.some.injEq,Node.file.injEq] at there
      subst there
      refine ⟨after,Tree.node?_of_resolve leads,?_⟩
      rcases agrees with ⟨changed,migrated⟩ | ⟨_,same⟩
      · exact .inr ⟨result,by rwa [course.results],leads,changed,.inl ⟨changed,migrated⟩⟩
      · exact .inl same
    · exact ⟨before,course.kept formed vacant old candidate,.inl rfl⟩

def callSample : Round :=
  { firstSample with
    start := .ofEntries [(["a.js"],.file (Text.bytes "throw new StandardErrorWrapper('A', 'b', \x7b c: 1 \x7d)"))] }

theorem touches_results_only_sample :
    callSample.directory? = some [Text.bytes "backups-19700101_000000"] ∧
    callSample.results.map FileResult.status = [.complete] ∧
    ∃ settings, ∀ result ∈ callSample.results, ∃ place before after,
      callSample.start.node? place = some (.file before) ∧
      callSample.after.resolve result.path = .ok (.file place after) ∧
      Run.Agrees settings result.status before after := by
  have started : callSample.start.WellFormed ∧ callSample.start.LinkFree := by decide +kernel
  have ran : callSample.report?.isSome = true ∧
      callSample.directory? = some [Text.bytes "backups-19700101_000000"] ∧
      callSample.results.map FileResult.status = [.complete] ∧
      callSample.start.node? [Text.bytes "backups-19700101_000000"] = none := by decide +kernel
  obtain ⟨completed,directory,statuses,vacant⟩ := ran
  have fresh : ∀ place, callSample.directory? = some place → callSample.start.node? place = none := by
    intro place leads
    rw [directory,Option.some.injEq] at leads
    rw [← leads,vacant]
  obtain ⟨settings,_,_,_,agree,_⟩ := touches_results_only started.1 started.2 rfl rfl completed fresh
  exact ⟨directory,statuses,settings.codes,agree⟩

end Round

end ErrorMigration
