import ErrorMigration.FileFix
import ErrorMigration.Proofs.Backup
import ErrorMigration.Proofs.Candidates
import ErrorMigration.Proofs.Files.Formed
import ErrorMigration.Proofs.Source

/-! The work on one candidate. A dry run judges the content and leaves the tree; with backups in a directory
there are three ends, and in the only one that writes the old content stands at a place that was free. -/
namespace ErrorMigration

namespace Tree

variable {t : Tree} {p : Path} {place : Place} {content : List UInt8}

theorem isPresent_of_file (resolved : t.resolve p = .ok (.file place content)) : t.isPresent p = true := by
  simp [isPresent,resolved]

theorem readText_of_file (resolved : t.resolve p = .ok (.file place content)) :
    t.readText p = match Text.ofBytes? content with
      | some text => .ok text
      | none => .error (.reading p .notText) := by
  cases decoded : Text.ofBytes? content <;> simp [readText,resolved,decoded]

end Tree

namespace FileFix

/-- The bytes that migration puts in place of a content; what is not text stays. -/
def rewritten (codes : CodeTable) (content : List UInt8) : List UInt8 :=
  match Text.ofBytes? content with
  | some text => Text.bytes (String.ofList (migrateText codes text.toList).text)
  | none => content

def judge (codes : CodeTable) (c : Candidate) (backupPath : Option Path) : Except FixError FileFix :=
  match Text.ofBytes? c.content with
  | some text => .ok (ofMigration c.path text.toList (migrateText codes text.toList) backupPath)
  | none => .error (.reading c.path (.reading c.path .notText))

theorem isSkipped_ofMigration {path : Path} {before : List Char} {migrated : Migrated} {backupPath : Option Path} :
    (ofMigration path before migrated backupPath).result.isSkipped = true ↔ before = migrated.text := by
  have status : (ofMigration path before migrated backupPath).result.status =
    Status.classify before migrated.text := rfl
  rw [FileResult.isSkipped,decide_eq_true_iff,status,Status.classify_eq_skipped_iff]

theorem rewritten_of_text {codes : CodeTable} {content : List UInt8} {text : String}
    (readable : Text.ofBytes? content = some text) :
    rewritten codes content = Text.bytes (String.ofList (migrateText codes text.toList).text) := by
  simp only [rewritten,readable]

theorem rewritten_of_skipped {codes : CodeTable} {content : List UInt8} {text : String} {path : Path}
    {backupPath : Option Path} (readable : Text.ofBytes? content = some text)
    (skipped : (ofMigration path text.toList (migrateText codes text.toList) backupPath).result.isSkipped = true) :
    rewritten codes content = content := by
  rw [rewritten_of_text readable,← isSkipped_ofMigration.mp skipped,String.ofList_toList,
    Text.ofBytes?_eq_some_iff.mp readable]

/-- The stages of the work on a path, each in the tree that the one before it leaves. -/
theorem runUnder_apply (faults : WriteFaults) (codes : CodeTable) (mode : WriteMode) (now : Moment) (path : Path)
    (t : Tree) : runUnder faults codes mode now path t =
      if t.isPresent path then
        match t.readText path with
        | .error error => (.error (.reading path error),t)
        | .ok text =>
          match backUp mode now path t with
          | (.error error,t') => (.error error,t')
          | (.ok backupPath,t') =>
            match writeBack faults mode (ofMigration path text.toList (migrateText codes text.toList) backupPath) t' with
            | (.error error,t'') => (.error error,t'')
            | (.ok (),t'') => (.ok (ofMigration path text.toList (migrateText codes text.toList) backupPath),t'')
      else (.error (.notFound path),t) := by
  simp only [runUnder,FileTask.bind_apply,FileTask.inspect]
  by_cases present : t.isPresent path = true
  · simp only [present,if_true]
    cases t.readText path with
    | error error => rfl
    | ok text =>
      simp only [Except.mapError]
      rcases backUp mode now path t with ⟨_ | backupPath,t'⟩
      · rfl
      · simp only
        generalize ofMigration path text.toList (migrateText codes text.toList) backupPath = fix
        rcases writeBack faults mode fix t' with ⟨_ | _,t''⟩ <;> rfl
  · simp only [present,Bool.false_eq_true,if_false]

/-- The stages of work on a file that ended well: its text is read, it is backed up, and then it may be written. -/
theorem run_eq_ok {codes : CodeTable} {mode : WriteMode} {now : Moment} {path : Path} {t t' : Tree} {fix : FileFix}
    (ended : run codes mode now path t = (.ok fix,t')) :
    ∃ before backup saved, t.readText path = .ok before ∧ backUp mode now path t = (.ok backup,saved) ∧
      fix = ofMigration path before.toList (migrateText codes before.toList) backup ∧
      writeBack .never mode fix saved = (.ok (),t') := by
  obtain ⟨before,_,looked,afterReading⟩ := FileTask.bind_eq_ok_iff.mp ended
  obtain ⟨backup,saved,stored,afterBackup⟩ := FileTask.bind_eq_ok_iff.mp afterReading
  obtain ⟨_,_,written,recorded⟩ := FileTask.bind_eq_ok_iff.mp afterBackup
  obtain ⟨read,rfl⟩ := Prod.mk.inj looked
  cases recorded
  refine ⟨before,backup,saved,?_,stored,rfl,written⟩
  simp only at read
  split at read
  · cases found : t.readText path with
    | error error => simp [found,Except.mapError] at read
    | ok text => simpa [found,Except.mapError] using read
  · contradiction

theorem run_of_file (codes : CodeTable) (mode : WriteMode) (now : Moment) {path : Path} {t : Tree} {place : Place}
    {content : List UInt8} (resolved : t.resolve path = .ok (.file place content)) :
    run codes mode now path t =
      match Text.ofBytes? content with
      | none => (.error (.reading path (.reading path .notText)),t)
      | some text =>
        match backUp mode now path t with
        | (.error error,t') => (.error error,t')
        | (.ok backupPath,t') =>
          match writeBack .never mode (ofMigration path text.toList (migrateText codes text.toList) backupPath) t' with
          | (.error error,t'') => (.error error,t'')
          | (.ok (),t'') => (.ok (ofMigration path text.toList (migrateText codes text.toList) backupPath),t'') := by
  rw [run,runUnder_apply,if_pos (Tree.isPresent_of_file resolved),Tree.readText_of_file resolved]
  cases Text.ofBytes? content <;> rfl

/-- A dry run only judges. -/
theorem run_dryRun (codes : CodeTable) (now : Moment) {c : Candidate} {t : Tree} (inside : c.In t) :
    run codes .dryRun now c.path t = (judge codes c none,t) := by
  rw [run_of_file codes .dryRun now (inside.resolveFor .use)]
  unfold judge
  cases Text.ofBytes? c.content with
  | none => rfl
  | some text => simp [backUp,writeBack,WriteMode.isDryRun]

inductive Applied (codes : CodeTable) (dir : Path) (now : Moment) (c : Candidate) (t : Tree) :
    Except FixError FileFix → Tree → Prop where
  | notText (unreadable : Text.ofBytes? c.content = none) :
      Applied codes dir now c t (.error (.reading c.path (.reading c.path .notText))) t
  | notSaved {t' : Tree} {text : String} (readable : Text.ofBytes? c.content = some text) (error : BackupError)
      (kept : t' = t ∨ t' = (t.makeAll dir.ancestors).2) :
      Applied codes dir now c t (.error (.backingUp c.path error)) t'
  | saved {made t' : Tree} {text fileName name : String} {parent : Place} {last : Name}
      (readable : Text.ofBytes? c.content = some text)
      (named : BackupStore.IsBackupName fileName now name) (entry : Path.IsEntryName name)
      (prepared : t.makeAll dir.ancestors = (.ok (),made))
      (vacant : made.resolveFor .write (dir.joinName name) = .ok (.vacant parent last))
      (free : made.node? (parent ++ [last]) = none)
      (change : made.Becomes (fun place => place = c.place) (fun place => place = parent ++ [last]) t')
      (copied : t'.node? (parent ++ [last]) = some (.file c.content))
      (written : t'.node? c.place = some (.file (rewritten codes c.content)))
      (rest : ∀ place, place ≠ c.place → place ≠ parent ++ [last] → t'.node? place = made.node? place) :
      Applied codes dir now c t
        (.ok (ofMigration c.path text.toList (migrateText codes text.toList) (some (dir.joinName name)))) t'

theorem backUp_store (backups : BackupStore) (now : Moment) (path : Path) (t : Tree) :
    backUp (.apply backups) now path t =
      match backups.save now path t with
      | (.ok backup,t') => (.ok (some backup),t')
      | (.error error,t') => (.error (.backingUp path error),t') := by
  simp only [backUp,FileTask.bind_apply,FileTask.orElseError_apply]
  rcases backups.save now path t with ⟨_ | _,t'⟩ <;> rfl

theorem backUp_apply (dir : Path) (now : Moment) (path : Path) (t : Tree) :
    backUp (.apply (.inDirectory dir)) now path t =
      match BackupStore.saveInto dir now path t with
      | (.ok backup,t') => (.ok (some backup),t')
      | (.error error,t') => (.error (.backingUp path error),t') :=
  backUp_store (.inDirectory dir) now path t

/-- A file that its path leads to for writing is written back. -/
theorem writeBack_of_file (backups : BackupStore) {t : Tree} {path : Path} {place : Place} {content : List UInt8}
    (resolved : t.resolveFor .write path = .ok (.file place content)) {fix : FileFix} (same : fix.change.path = path) :
    writeBack .never (.apply backups) fix t =
      if fix.result.isSkipped then (.ok (),t)
      else (.ok (),t.put place (.file (Text.bytes (String.ofList fix.change.after)))) := by
  have written := Tree.write_file (Text.bytes (String.ofList fix.change.after)) resolved
  simp only [writeBack,WriteMode.isDryRun,Bool.or_false,same]
  split
  · rfl
  · simp only [FileTask.orElseError_apply,FileTask.writeFileUnless,WriteFaults.never,FileTask.writeFile,
      FileTask.update,written,Except.mapError]

/-- The work on any text, with backups in a directory, ends with a backup that fails, or the text is rewritten in its
place after it has been saved. -/
theorem run_saved (codes : CodeTable) (dir : Path) (now : Moment) {path : Path} {t : Tree} {place : Place}
    {content : List UInt8} {text : String} (resolved : t.resolve path = .ok (.file place content))
    (readable : Text.ofBytes? content = some text) :
    (∃ error t', BackupStore.saveInto dir now path t = (.error error,t') ∧
      run codes (.apply (.inDirectory dir)) now path t = (.error (.backingUp path error),t')) ∨
    ∃ backup saved t', BackupStore.saveInto dir now path t = (.ok backup,saved) ∧
      run codes (.apply (.inDirectory dir)) now path t =
        (.ok (ofMigration path text.toList (migrateText codes text.toList) (some backup)),t') ∧
      saved.Becomes (fun other => other = place) (fun _ => False) t' ∧
      (∀ other, other ≠ place → t'.node? other = saved.node? other) ∧
      t'.node? place = some (.file (rewritten codes content)) := by
  have change := BackupStore.saveInto_becomes dir path now t
  have found := change.kept (Tree.node?_of_resolve resolved) not_false
  have leads := Tree.resolve_file_becomes change resolved found
  rw [run_of_file codes _ now resolved,readable,backUp_apply]
  generalize BackupStore.saveInto dir now path t = ended at found leads
  rcases ended with ⟨error | backup,saved⟩
  · exact .inl ⟨error,saved,rfl,rfl⟩
  · right
    simp only
    rw [writeBack_of_file (.inDirectory dir) (Tree.resolveFor_of_file leads) rfl]
    by_cases skipped : (ofMigration path text.toList (migrateText codes text.toList)
        (some backup)).result.isSkipped = true
    · rw [if_pos skipped]
      exact ⟨backup,saved,saved,rfl,rfl,.refl saved,fun _ _ => rfl,
        by rw [rewritten_of_skipped readable skipped]; exact found⟩
    · rw [if_neg skipped]
      refine ⟨backup,saved,saved.put place (.file (rewritten codes content)),rfl,?_,.put_rewritten _ found rfl,
        fun _ other => Tree.node?_put_other _ _ other,Tree.node?_put_same _ _ (Tree.ne_nil_of_node? found (by simp))⟩
      rw [rewritten_of_text readable]
      rfl

/-- The work on any file, with backups in a directory: the backup fails and the file stays, or the file is migrated. -/
theorem run_file (codes : CodeTable) (dir : Path) (now : Moment) {path : Path} {t : Tree} {place : Place}
    {content : List UInt8} {text : String} (resolved : t.resolve path = .ok (.file place content))
    (readable : Text.ofBytes? content = some text) :
    (∃ error t', run codes (.apply (.inDirectory dir)) now path t = (.error (.backingUp path error),t') ∧
      t'.resolve path = .ok (.file place content)) ∨
    ∃ backup t', run codes (.apply (.inDirectory dir)) now path t =
        (.ok (ofMigration path text.toList (migrateText codes text.toList) (some backup)),t') ∧
      t'.resolve path = .ok (.file place (rewritten codes content)) := by
  have change := BackupStore.saveInto_becomes dir path now t
  have leads := Tree.resolve_file_becomes change resolved (change.kept (Tree.node?_of_resolve resolved) not_false)
  rcases run_saved codes dir now resolved readable with
    ⟨error,t',ended,failed⟩ | ⟨backup,saved,t',ended,done,rewrites,_,written⟩
  · rw [ended] at leads
    exact .inl ⟨error,t',failed,leads⟩
  · rw [ended] at leads
    exact .inr ⟨backup,t',done,Tree.resolve_file_becomes rewrites leads written⟩

theorem run_applied (codes : CodeTable) (dir : Path) (now : Moment) {c : Candidate} {t : Tree} (inside : c.In t) :
    Applied codes dir now c t (run codes (.apply (.inDirectory dir)) now c.path t).1
      (run codes (.apply (.inDirectory dir)) now c.path t).2 := by
  have leads := inside.resolveFor .use
  cases readable : Text.ofBytes? c.content with
  | none =>
    rw [run_of_file codes _ now leads,readable]
    exact .notText readable
  | some text =>
    rcases run_saved codes dir now leads readable with
      ⟨error,t',failed,ended⟩ | ⟨backup,saved,t',stored,ended,rewrites,others,written⟩
    · rw [ended]
      exact .notSaved readable error (BackupStore.saveInto_error failed)
    · rw [ended]
      obtain ⟨fileName,name,made,place,content,_,isName,entry,rfl,prepared,absent,resolved,copied⟩ :=
        BackupStore.saveInto_ok stored
      have directories : t.Becomes (fun _ => False) (fun _ => False) made := Tree.becomes_of_makeAll prepared
      have insideMade := inside.becomes directories not_false
      have same := insideMade.resolveFor .use
      rw [← Tree.resolve,resolved,Except.ok.injEq,Tree.Target.file.injEq] at same
      obtain ⟨rfl,rfl⟩ := same
      obtain ⟨parent,last,vacant,free,rfl⟩ := Tree.write_absent absent copied
      -- the place of the backup is free while the candidate is there, so they are two places
      have apart : parent ++ [last] ≠ c.place := by
        intro same
        rw [same,insideMade.found] at free
        contradiction
      have added : made.Becomes (fun place => place = c.place) (fun place => place = parent ++ [last])
          (made.put (parent ++ [last]) (.file c.content)) := .put_added c.content free rfl
      have copy : (made.put (parent ++ [last]) (.file c.content)).node? (parent ++ [last]) = some (.file c.content) :=
        Tree.node?_put_same _ _ (by simp)
      refine .saved readable isName entry prepared vacant free
        (added.trans (rewrites.mono (fun _ same => same) fun _ => False.elim)) (rewrites.kept copy apart) written ?_
      intro place notSource notBackup
      rw [others place notSource,Tree.node?_put_other _ _ notBackup]

namespace Applied

variable {codes : CodeTable} {dir : Path} {now : Moment} {c : Candidate} {t t' : Tree}
  {fixed : Except FixError FileFix}

/-- A candidate's work rewrites its own place, and adds a file at a numbered place. The latter needs a
directory of backups without links: a copy to a dangling link is made where the link leads. -/
theorem becomes_numbered (applied : Applied codes dir now c t fixed t') (plain : t'.NoLinksIn dir) :
    t.Becomes (fun place => place = c.place) BackupStore.IsNumberedPlace t' := by
  cases applied with
  | notText => exact .refl t
  | notSaved _ _ kept => exact Tree.becomes_of_same_or_made kept
  | @saved made _ _ _ name parent last _ named entry prepared vacant _ change =>
    obtain ⟨above,_,_,_,target⟩ := (plain.before change).resolveFor_joinName entry vacant
    obtain ⟨rfl,rfl⟩ := target parent last rfl
    refine (Tree.becomes_of_makeAll prepared).trans (change.mono (by simp) ?_)
    rintro _ rfl
    exact BackupStore.isNumberedPlace_iff.mpr named.numbered

theorem becomes (applied : Applied codes dir now c t fixed t') :
    t.Becomes (fun place => place = c.place) (fun _ => True) t' := by
  cases applied with
  | notText => exact .refl t
  | notSaved _ _ kept => exact Tree.becomes_of_same_or_made kept
  | saved _ _ _ prepared _ _ change =>
    exact (Tree.becomes_of_makeAll prepared).trans (change.mono (by simp) (by simp))

theorem other_inside (applied : Applied codes dir now c t fixed t') {other : Candidate} (inside : other.In t)
    (apart : other.place ≠ c.place) : other.In t' :=
  inside.becomes applied.becomes apart

theorem wellFormed (applied : Applied codes dir now c t fixed t') (inside : c.In t) (formed : t.WellFormed)
    (plain : t'.NoLinksIn dir) : t'.WellFormed := by
  cases applied with
  | notText => exact formed
  | notSaved _ _ kept =>
    rcases kept with rfl | rfl
    · exact formed
    · exact formed.makeAll _
  | @saved made _ _ _ name parent last _ named entry prepared vacant free change copied written rest =>
    have directories : t.Becomes (fun _ => False) (fun _ => False) made := Tree.becomes_of_makeAll prepared
    have formedMade := formed.of_makeAll prepared
    obtain ⟨above,addressed,_,_,target⟩ := (plain.before change).resolveFor_joinName entry vacant
    obtain ⟨rfl,rfl⟩ := target parent last rfl
    -- first the copy, then the file itself
    have source := (inside.becomes directories not_false).found
    have saved := formedMade.put (.file c.content) (addressed.directory formedMade) addressed.legal (by simp [free])
    have apart : c.place ≠ parent ++ [Text.bytes name] := by
      intro same
      rw [same,free] at source
      simp at source
    have inSaved : (made.put (parent ++ [Text.bytes name]) (.file c.content)).node? c.place = some (.file c.content) := by
      rw [Tree.node?_put_other _ _ apart,source]
    refine saved.fill (saved.parent inSaved) inside.addressed.legal change.home ?_ (by rw [← Candidate.place,inSaved]; simp)
    intro place other
    by_cases here : place = parent ++ [Text.bytes name]
    · rw [here,Tree.node?_put_same _ _ (by simp),copied]
    · rw [Tree.node?_put_other _ _ here,rest place other here]

end Applied

end FileFix

end ErrorMigration
