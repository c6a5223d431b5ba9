import ErrorMigration.Proofs.Unmarked

/-! What a pass reports about its changes. A block does not begin as a call does, and the requirement of the import
line outlives the replacement of the calls; so a pass that counts a call or adds the line leaves another text, and a
file for which that is reported is written unless the run is dry. -/
namespace ErrorMigration

theorem CallSite.replaceAll_eq_self_iff (codes : CodeTable) {cs : List Char} :
    replaceAll codes cs = cs ↔ count cs = 0 := by
  refine ⟨fun same => ?_,replaceAll_of_count_eq_zero⟩
  induction cs using Segment.induction_on with
  | nil => rfl
  | call s rest _ =>
    obtain ⟨tail,start⟩ := s.exists_source_eq
    obtain ⟨letters,block⟩ : ∃ letters, Call.replacement codes s.call = 'c' :: letters := ⟨_,rfl⟩
    rw [replaceAll_source,start,block] at same
    exact absurd (List.cons.inj same).1 (by decide)
  | plain c cs unread ih =>
    rw [replaceAll_plain unread] at same
    rw [count_plain unread]
    exact ih (List.cons.inj same).2

theorem ImportLine.not_codesRequire_infix {cs : List Char} (missing : isMissing cs = true) : ¬ codesRequire <:+: cs := by
  rw [isMissing,Bool.and_eq_true_iff,Bool.not_eq_true',Text.occursIn_eq_false_iff] at missing
  exact missing.2

/-- A pass gives back its text if and only if it counts no call and adds no line. -/
theorem migrateText_text_eq_self_iff (codes : CodeTable) (cs : List Char) :
    (migrateText codes cs).text = cs ↔
      (migrateText codes cs).callCount = 0 ∧ (migrateText codes cs).importInserted = false := by
  constructor
  · intro same
    have present : ImportLine.isMissing cs = false := by
      by_contra missing
      rw [Bool.not_eq_false] at missing
      have kept : ImportLine.codesRequire <:+: (migrateText codes cs).text :=
        ImportLine.codesRequire_infix_replaceAll (ImportLine.codesRequire_infix_ensure missing)
      exact ImportLine.not_codesRequire_infix missing (same ▸ kept)
    simp only [migrateText,ImportLine.ensure_of_present present] at same ⊢
    exact ⟨(CallSite.replaceAll_eq_self_iff codes).mp same,present⟩
  · rintro ⟨none,present⟩
    simp only [migrateText] at none present
    rw [ImportLine.ensure_of_present present] at none
    rw [migrateText_of_settled present none]

namespace FileFix

/-- Nothing is written for a file without changes or in a dry run; else the path gets the new text. -/
theorem writeBack_eq_ok_iff {mode : WriteMode} {fix : FileFix} {saved t' : Tree} :
    writeBack .never mode fix saved = (.ok (),t') ↔
      if fix.result.isSkipped || mode.isDryRun then t' = saved
      else saved.write fix.change.path (Text.bytes (String.ofList fix.change.after)) = .ok t' := by
  unfold writeBack
  split
  · rw [FileTask.pure_apply]
    constructor
    · rintro ⟨⟩
      rfl
    · rintro ⟨⟩
      rfl
  · rw [FileTask.orElseError_eq_ok_iff]
    exact FileTask.writeFile_eq_ok_iff

end FileFix

/-- The status and what is reported about the changes agree. A text is skipped if and only if the pass counts no call
and adds no line. On a file, what is reported besides a skipped status has been written after the backup, and the path
leads to the new text; a dry run writes nothing, and reports what it would have written. -/
theorem skipped_iff_unchanged (codes : CodeTable) :
    (∀ cs, Status.classify cs (migrateText codes cs).text = .skipped ↔
      (migrateText codes cs).callCount = 0 ∧ (migrateText codes cs).importInserted = false) ∧
    (∀ cs, (migrateText codes cs).callCount ≠ 0 ∨ (migrateText codes cs).importInserted = true →
      (migrateText codes cs).text ≠ cs) ∧
    ∀ (mode : WriteMode) (now : Moment) (path : Path) (t t' : Tree) (fix : FileFix),
      FileFix.run codes mode now path t = (.ok fix,t') →
      (fix.result.status = .skipped ↔ fix.result.callCount = 0 ∧ fix.result.importInserted = false) ∧
      ∃ saved, FileFix.backUp mode now path t = (.ok fix.result.backupPath,saved) ∧
        (mode.isDryRun = true ∨ fix.result.status = .skipped → t' = saved) ∧
        (mode.isDryRun = false → fix.result.callCount ≠ 0 ∨ fix.result.importInserted = true →
          fix.change.after ≠ fix.change.before ∧
          saved.write path (Text.bytes (String.ofList fix.change.after)) = .ok t' ∧
          ∃ place, t'.resolve path = .ok (.file place (Text.bytes (String.ofList fix.change.after)))) := by
  have flags (cs : List Char) : Status.classify cs (migrateText codes cs).text = .skipped ↔
      (migrateText codes cs).callCount = 0 ∧ (migrateText codes cs).importInserted = false := by
    rw [Status.classify_eq_skipped_iff,eq_comm,migrateText_text_eq_self_iff]
  have changed (cs : List Char)
      (done : (migrateText codes cs).callCount ≠ 0 ∨ (migrateText codes cs).importInserted = true) :
      (migrateText codes cs).text ≠ cs := by
    intro same
    obtain ⟨none,present⟩ := (migrateText_text_eq_self_iff codes cs).mp same
    simp [none,present] at done
  refine ⟨flags,changed,?_⟩
  intro mode now path t t' fix ended
  obtain ⟨before,backup,saved,_,stored,rfl,wrote⟩ := FileFix.run_eq_ok ended
  rw [FileFix.writeBack_eq_ok_iff] at wrote
  refine ⟨flags before.toList,saved,stored,fun still => ?_,fun applies done => ?_⟩
  · rwa [if_pos] at wrote
    simpa [FileResult.isSkipped,or_comm] using still
  · have other := changed before.toList done
    have busy : (FileFix.ofMigration path before.toList (migrateText codes before.toList) backup).result.isSkipped =
        false := by
      rw [Bool.eq_false_iff,ne_eq,FileFix.isSkipped_ofMigration]
      exact other.symm
    rw [busy,applies,Bool.or_self,if_neg Bool.false_ne_true] at wrote
    obtain ⟨place,_,_,leads⟩ := Tree.resolve_of_write wrote
    exact ⟨other,wrote,place,leads⟩

def callText : String := "throw new StandardErrorWrapper('A', 'b', \x7b\x7d)"

def callTree : Tree := .ofEntries [(["a.js"],.file (Text.bytes callText))]

theorem callTree_resolve :
    callTree.resolve ⟨"/a.js"⟩ = .ok (.file [Text.bytes "a.js"] (Text.bytes callText)) := rfl

theorem callText_migrated : (migrateText .builtin callText.toList).callCount = 1 ∧
    Status.classify callText.toList (migrateText .builtin callText.toList).text = .complete := by decide +kernel

theorem callTree_written :
    ∃ fix t', FileFix.run .builtin (.apply (.inDirectory ⟨"/b"⟩)) ⟨7,0⟩ ⟨"/a.js"⟩ callTree = (.ok fix,t') ∧
      fix.result.callCount = 1 ∧
      ∃ place, t'.resolve ⟨"/a.js"⟩ = .ok (.file place (Text.bytes (String.ofList fix.change.after))) := by
  have succeeds :
      (FileFix.run .builtin (.apply (.inDirectory ⟨"/b"⟩)) ⟨7,0⟩ ⟨"/a.js"⟩ callTree).1.isOk = true := by decide +kernel
  rcases FileFix.run_file .builtin ⟨"/b"⟩ ⟨7,0⟩ callTree_resolve (Text.ofBytes?_bytes callText) with
    ⟨error,t',ended,_⟩ | ⟨backup,t',ended,_⟩
  · rw [ended] at succeeds
    exact absurd succeeds Bool.false_ne_true
  · have counted : (FileFix.ofMigration ⟨"/a.js"⟩ callText.toList (migrateText .builtin callText.toList)
        (some backup)).result.callCount = 1 := callText_migrated.1
    obtain ⟨_,saved,_,_,written⟩ := (skipped_iff_unchanged .builtin).2.2 _ _ _ _ _ _ ended
    obtain ⟨_,_,leads⟩ := written rfl (.inl (by rw [counted]; decide))
    exact ⟨_,t',ended,counted,leads⟩

/-- A dry run counts the call of a file that it does not write. -/
theorem callTree_counted_unwritten :
    ∃ fix, FileFix.run .builtin .dryRun ⟨7,0⟩ ⟨"/a.js"⟩ callTree = (.ok fix,callTree) ∧
      fix.result.callCount = 1 ∧ fix.result.status = .complete := by
  refine ⟨FileFix.ofMigration ⟨"/a.js"⟩ callText.toList (migrateText .builtin callText.toList) none,?_,?_⟩
  · rw [FileFix.run_of_file .builtin .dryRun ⟨7,0⟩ callTree_resolve,Text.ofBytes?_bytes callText]
    simp [FileFix.backUp,FileFix.writeBack,WriteMode.isDryRun]
  · simpa only [FileFix.ofMigration] using callText_migrated

end ErrorMigration
