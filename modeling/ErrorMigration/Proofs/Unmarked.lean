import ErrorMigration.Proofs.FileFix

/-! Texts without the marker. They hold no call, so a pass can only add the import line; whether it does is decided
by the base declaration, not by the marker. -/
namespace ErrorMigration

namespace ImportLine

variable {cs : List Char}

theorem ensure_eq_self_iff : ensure cs = cs ↔ isMissing cs = false := by
  refine ⟨fun same => ?_,ensure_of_present⟩
  rw [← same]
  exact isMissing_ensure cs

/-- The import line does not hold the marker, nor a part of one. -/
theorem containsMarker_ensure (unmarked : containsMarker cs = false) : containsMarker (ensure cs) = false := by
  cases found : insertion? cs with
  | none => rwa [ensure_of_no_insertion found]
  | some i =>
    obtain ⟨whole,grown⟩ := ensure_of_insertion? found
    obtain ⟨indent,ending,ends,added⟩ := exists_added_eq i
    have newline : '\n' ∉ deprecatedMarker.toList := by decide
    have first : deprecatedMarker.toList.head? = some 'S' := by decide
    have declared : 'S' ∉ codesDeclaration := by decide +kernel
    have line : 'S' ∉ indent.val ++ (codesDeclaration ++ ending) := by
      simp only [List.mem_append,not_or]
      exact ⟨Call.notMem_gap indent (by decide),declared,fun member => absurd (ends member) (by decide)⟩
    rw [containsMarker,Text.occursIn_eq_false_iff] at unmarked ⊢
    rw [grown,added,List.cons_append,Text.infix_append_mark newline]
    rintro (above | below)
    · exact unmarked (whole ▸ above.trans (List.prefix_append _ _).isInfix)
    · have later := Text.infix_of_first_notMem first line below
      exact unmarked (whole ▸ later.trans (List.suffix_append _ _).isInfix)

end ImportLine

section Unmarked

variable {cs : List Char} (unmarked : containsMarker cs = false)
include unmarked

theorem migrateText_of_unmarked (codes : CodeTable) :
    migrateText codes cs = ⟨ImportLine.ensure cs,ImportLine.isMissing cs,0⟩ := by
  have none := count_of_unmarked (ImportLine.containsMarker_ensure unmarked)
  simp only [migrateText,CallSite.replaceAll_of_count_eq_zero none,none]

theorem classify_of_unmarked :
    Status.classify cs (ImportLine.ensure cs) = if ImportLine.isMissing cs then .complete else .skipped := by
  by_cases missing : ImportLine.isMissing cs = true
  · have changed : cs ≠ ImportLine.ensure cs := by
      intro same
      rw [ImportLine.ensure_eq_self_iff.mp same.symm] at missing
      contradiction
    rw [if_pos missing]
    exact Status.classify_eq_complete_iff.mpr ⟨changed,ImportLine.containsMarker_ensure unmarked⟩
  · rw [if_neg missing]
    exact Status.classify_eq_skipped_iff.mpr (ImportLine.ensure_of_present (Bool.eq_false_iff.mpr missing)).symm

end Unmarked

/-- A text without the marker is left as it is unless it declares the base and lacks the import line; then it gets
that line and counts as complete. On a file, a dry run reports this and leaves the tree; with backups in a directory
the file holds the text afterwards, or it holds what it held and the backup failed. -/
theorem unmarked_changed_iff_missing (codes : CodeTable) {text : String}
    (unmarked : containsMarker text.toList = false) :
    migrateText codes text.toList = ⟨ImportLine.ensure text.toList,ImportLine.isMissing text.toList,0⟩ ∧
    (ImportLine.ensure text.toList = text.toList ↔ ImportLine.isMissing text.toList = false) ∧
    ∀ (now : Moment) {t : Tree} {path : Path} {place : Place},
      t.resolve path = .ok (.file place (Text.bytes text)) →
      (∃ fix, FileFix.run codes .dryRun now path t = (.ok fix,t) ∧
        fix.result.status = if ImportLine.isMissing text.toList then .complete else .skipped) ∧
      ∀ dir, ∃ ended t', FileFix.run codes (.apply (.inDirectory dir)) now path t = (ended,t') ∧
        ((∃ error, ended = .error (.backingUp path error) ∧ t'.resolve path = .ok (.file place (Text.bytes text))) ∨
          ∃ fix, ended = .ok fix ∧
            (fix.result.status = if ImportLine.isMissing text.toList then .complete else .skipped) ∧
            t'.resolve path = .ok (.file place (Text.bytes (String.ofList (ImportLine.ensure text.toList))))) := by
  have migrated := migrateText_of_unmarked unmarked codes
  have status (path : Path) (backup : Option Path) :
      (FileFix.ofMigration path text.toList (migrateText codes text.toList) backup).result.status =
        if ImportLine.isMissing text.toList then .complete else .skipped := by
    rw [migrated]
    exact classify_of_unmarked unmarked
  refine ⟨migrated,ImportLine.ensure_eq_self_iff,fun now t path place resolved => ?_⟩
  have readable := Text.ofBytes?_bytes text
  refine ⟨⟨_,?_,status path none⟩,fun dir => ?_⟩
  · rw [FileFix.run_of_file codes .dryRun now resolved,readable]
    simp [FileFix.backUp,FileFix.writeBack,WriteMode.isDryRun]
  · rcases FileFix.run_file codes dir now resolved readable with ⟨error,t',ended,kept⟩ | ⟨backup,t',ended,written⟩
    · exact ⟨_,t',ended,.inl ⟨error,rfl,kept⟩⟩
    · refine ⟨_,t',ended,.inr ⟨_,rfl,status path _,?_⟩⟩
      rwa [FileFix.rewritten_of_text readable,migrated] at written

def plainTree : Tree := .ofEntries [(["a.js"],.file (Text.bytes "let a\n"))]

theorem plainTree_skipped :
    plainTree.resolve ⟨"/a.js"⟩ = .ok (.file [Text.bytes "a.js"] (Text.bytes "let a\n")) ∧
    ∃ fix, FileFix.run .builtin .dryRun ⟨7,0⟩ ⟨"/a.js"⟩ plainTree = (.ok fix,plainTree) ∧
      fix.result.status = .skipped := by
  have resolved : plainTree.resolve ⟨"/a.js"⟩ = .ok (.file [Text.bytes "a.js"] (Text.bytes "let a\n")) := by rfl
  have unmarked : containsMarker "let a\n".toList = false := by decide
  have present : ImportLine.isMissing "let a\n".toList = false := by decide
  obtain ⟨fix,ended,status⟩ := ((unmarked_changed_iff_missing .builtin unmarked).2.2 ⟨7,0⟩ resolved).1
  rw [present] at status
  exact ⟨resolved,fix,ended,status⟩

def declarationAlone : List Char := ImportLine.baseDeclaration ++ ['\n']

theorem declarationAlone_changed :
    containsMarker declarationAlone = false ∧
    migrateText .builtin declarationAlone =
      ⟨declarationAlone ++ ImportLine.codesDeclaration ++ ['\n'],true,0⟩ ∧
    Status.classify declarationAlone (migrateText .builtin declarationAlone).text = .complete := by
  decide +kernel

end ErrorMigration
