import ErrorMigration.Proofs.Run
import ErrorMigration.Proofs.Text.Occurrence

/-! The files that a run lists as remaining. A dry run works them out from the texts, any other run looks for
them again; both give the candidates that were not completed, in the order of the results. -/
namespace ErrorMigration

theorem Candidates.holds_bytes (marker text : String) :
    holds marker (Text.bytes text) = Text.occursIn marker.toList text.toList :=
  Text.occursIn_bytes marker text

namespace Summary

/-- Results that are not complete are counted as one of the three other kinds. -/
theorem tally_incomplete (results : List FileResult) :
    (results.filter fun r => !r.isComplete).length =
      (tally results).incomplete + (tally results).skipped + (tally results).failed := by
  suffices counted : ∀ s : Summary, (results.foldl record s).incomplete + (results.foldl record s).skipped +
      (results.foldl record s).failed =
      s.incomplete + s.skipped + s.failed + (results.filter fun r => !r.isComplete).length by
    simpa [tally] using (counted {}).symm
  induction results with
  | nil => simp
  | cons r results ih =>
    intro s
    rw [List.foldl_cons,ih]
    cases status : r.status <;> simp [record,FileResult.isComplete,status] <;> omega

end Summary

namespace FileFix

/-- A text with the marker is complete once the marker is gone. -/
theorem isComplete_of_classify {result : FileResult} {before after : List Char}
    (status : result.status = Status.classify before after) (marked : containsMarker before = true) :
    result.isComplete = !containsMarker after := by
  rw [Bool.eq_iff_iff,FileResult.isComplete,decide_eq_true_iff,status,Status.classify_eq_complete_iff,
    Bool.not_eq_true']
  constructor
  · exact fun complete => complete.2
  · intro gone
    refine ⟨?_,gone⟩
    rintro rfl
    simp [gone] at marked

theorem isComplete_ofMigration (path : Path) {before : List Char} (migrated : Migrated) (backupPath : Option Path)
    (marked : containsMarker before = true) :
    (ofMigration path before migrated backupPath).result.isComplete = !containsMarker migrated.text :=
  isComplete_of_classify rfl marked

theorem containsMarker_of_holds {content : List UInt8} {text : String}
    (marked : Candidates.holds deprecatedMarker content = true) (readable : Text.ofBytes? content = some text) :
    containsMarker text.toList = true := by
  rw [← Text.ofBytes?_eq_some_iff.mp readable,Candidates.holds_bytes] at marked
  exact marked

end FileFix

namespace Run

theorem judged_results_path (codes : CodeTable) (found : List Candidate) :
    (judged codes found).results.map FileResult.path = found.map Candidate.path := by
  induction found with
  | nil => rfl
  | cons c rest ih =>
    have first : (Ledger.resultOf c.path (FileFix.judge codes c none)).path = c.path := by
      unfold FileFix.judge
      cases Text.ofBytes? c.content <;> rfl
    simp [judged,ih,first]

/-- What a dry run lists, before it is sorted. -/
theorem judged_remaining_perm (codes : CodeTable) {found : List Candidate}
    (marked : ∀ c ∈ found, Candidates.holds deprecatedMarker c.content = true) :
    (((judged codes found).results.filter fun r => !r.isSuccess).map FileResult.path ++
      ((judged codes found).changes.filter fun c => containsMarker c.after).map FileChange.path).Perm
      (((judged codes found).results.filter fun r => !r.isComplete).map FileResult.path) := by
  induction found with
  | nil => simp [judged]
  | cons c rest ih =>
    have others := ih fun other member => marked other (List.mem_cons_of_mem _ member)
    simp only [judged,Ledger.cons_results,Ledger.cons_changes]
    cases readable : Text.ofBytes? c.content with
    | none =>
      simpa [FileFix.judge,readable,Ledger.resultOf,Ledger.changeOf,FileResult.ofFailure,FileResult.isSuccess,
        FileResult.isComplete] using others
    | some text =>
      have complete := FileFix.isComplete_ofMigration c.path (migrateText codes text.toList) none
        (FileFix.containsMarker_of_holds (marked c List.mem_cons_self) readable)
      have success : (FileFix.ofMigration c.path text.toList (migrateText codes text.toList) none).result.isSuccess =
          true := decide_eq_true Status.classify_ne_failed
      simp only [FileFix.judge,readable,Ledger.resultOf,Ledger.changeOf,List.cons_append,List.nil_append,
        List.filter_cons,success,complete,Bool.not_true,Bool.false_eq_true,if_false,Bool.not_not]
      have after : (FileFix.ofMigration c.path text.toList (migrateText codes text.toList) none).change.after =
        (migrateText codes text.toList).text := rfl
      rw [after]
      split
      · simp only [List.map_cons]
        exact List.perm_middle.trans (others.cons _)
      · exact others

/-- A dry run lists the candidates that it does not complete. -/
theorem projectedRemaining_judged (codes : CodeTable) {found : List Candidate} {t : Tree} (formed : t.WellFormed)
    {root : Path} {extension : String} {base : Place}
    (listing : Candidates.Listing root extension deprecatedMarker t base found) :
    projectedRemaining (judged codes found) =
      ((judged codes found).results.filter fun r => !r.isComplete).map FileResult.path := by
  have part : (((judged codes found).results.filter fun r => !r.isComplete).map FileResult.path).Sublist
      (found.map Candidate.path) := by
    rw [← judged_results_path codes found]
    exact List.filter_sublist.map FileResult.path
  refine Path.sort_eq (judged_remaining_perm codes listing.marked) (listing.ordered.sublist part) ?_
  intro p left q right same
  exact listing.path_of_components formed p (part.subset left) q (part.subset right) same

theorem exists_of_mem_right {α β : Type} {related : α → β → Prop} {xs : List α} {ys : List β}
    (pairs : List.Forall₂ related xs ys) {y : β} (member : y ∈ ys) : ∃ x ∈ xs, related x y := by
  induction pairs with
  | nil => simp at member
  | cons head _ ih =>
    rcases List.mem_cons.mp member with rfl | later
    · exact ⟨_,List.mem_cons_self,head⟩
    · obtain ⟨x,inside,pair⟩ := ih later
      exact ⟨x,List.mem_cons_of_mem _ inside,pair⟩

/-- What a result says about the file that its candidate has become. -/
def Tells (t : Tree) (c : Candidate) (r : FileResult) : Prop :=
  r.path = c.path ∧ ∃ after, t.node? c.place = some (.file after) ∧
    r.isComplete = !Candidates.holds deprecatedMarker after

theorem Records.tells {codes : CodeTable} {c : Candidate} {t : Tree} {r : FileResult} (records : Records codes t c r)
    (marked : Candidates.holds deprecatedMarker c.content = true) : Tells t c r := by
  obtain ⟨path,⟨failed,found⟩ | ⟨text,readable,status,found⟩⟩ := records
  · have incomplete : r.isComplete = false := by simp [FileResult.isComplete,failed]
    exact ⟨path,_,found,by rw [marked,incomplete]; rfl⟩
  · have complete := FileFix.isComplete_of_classify status (FileFix.containsMarker_of_holds marked readable)
    refine ⟨path,_,found,?_⟩
    rw [complete,Candidates.holds_bytes,String.toList_ofList]
    rfl

theorem map_path_of_tells {t : Tree} {found : List Candidate} {results : List FileResult}
    (tells : List.Forall₂ (Tells t) found results) : results.map FileResult.path = found.map Candidate.path := by
  rw [eq_comm,← List.forall₂_eq_eq_eq,List.forall₂_map_left_iff,List.forall₂_map_right_iff]
  exact tells.imp fun c r told => told.1.symm

section Again

variable {codes : CodeTable} {dir : Path} {clock : Clock} {reading : Nat} {found : List Candidate} {t t' : Tree}
  {ledger : Ledger} {root : Path} {extension : String} {base : Place}

/-- Each result tells about its candidate's file as the run leaves it. -/
theorem Sweep.tells (sweep : Sweep codes dir clock reading found t ledger t')
    (apart : (found.map Candidate.place).Nodup)
    (marked : ∀ c ∈ found, Candidates.holds deprecatedMarker c.content = true) :
    List.Forall₂ (Tells t') found ledger.results := by
  have records := sweep.records apart
  generalize ledger.results = results at records
  clear sweep apart
  induction records with
  | nil => exact .nil
  | cons head _ ih =>
    exact .cons (head.tells (marked _ List.mem_cons_self))
      (ih fun other member => marked other (List.mem_cons_of_mem _ member))

/-- A file that is found after a run was a candidate of the run. -/
theorem Sweep.place_mem {texts : List String} {content : List UInt8}
    (sweep : Sweep codes dir clock reading found t ledger t') (formed : t.WellFormed)
    (listing : Candidates.Listing root extension deprecatedMarker t base found)
    (other : ¬ IsIntegerLiteral (Candidates.bareExtension extension)) (plain : t'.NoLinksIn dir)
    (matched : Candidates.Matches root extension deprecatedMarker t' base texts content) :
    base ++ texts.map Text.bytes ∈ found.map Candidate.place := by
  have change := sweep.becomes_numbered plain
  -- the file is an old one, since a backup has another extension
  have old : ∃ before, t.node? (base ++ texts.map Text.bytes) = some (.file before) := by
    rcases change.file_origin matched.found with old | ⟨numbered,_⟩
    · exact old
    · exact absurd numbered (BackupStore.not_isNumberedPlace_of_matches (sweep.wellFormed formed plain) other matched)
  obtain ⟨before,there⟩ := old
  -- and if it was not rewritten, it held the marker before
  by_contra elsewhere
  have same := change.kept there elsewhere
  rw [matched.found,Option.some.injEq,Node.file.injEq] at same
  subst same
  exact elsewhere (listing.place_mem formed
    ⟨matched.below,there,matched.extension,matched.usable,matched.marked⟩)

/-- Looking again after a run finds the candidates that it did not complete. -/
theorem Sweep.below_again (sweep : Sweep codes dir clock reading found t ledger t') (formed : t.WellFormed)
    (directory : t.directoryAt? root = some base)
    (listing : Candidates.Listing root extension deprecatedMarker t base found)
    (other : ¬ IsIntegerLiteral (Candidates.bareExtension extension)) (plain : t'.NoLinksIn dir) :
    Candidates.below root extension deprecatedMarker t' =
      .ok ((ledger.results.filter fun r => !r.isComplete).map FileResult.path) := by
  have tells := sweep.tells listing.apart listing.marked
  have part : ((ledger.results.filter fun r => !r.isComplete).map FileResult.path).Sublist
      (found.map Candidate.path) := map_path_of_tells tells ▸ List.filter_sublist.map FileResult.path
  refine Candidates.below_eq (sweep.wellFormed formed plain) (Tree.directoryAt?_becomes sweep.becomes directory)
    (listing.unique.sublist part) (listing.ordered.sublist part) fun path => ⟨?_,?_⟩
  · intro member
    obtain ⟨r,kept,rfl⟩ := List.mem_map.mp member
    obtain ⟨result,incomplete⟩ := List.mem_filter.mp kept
    obtain ⟨c,candidate,path,after,there,complete⟩ := exists_of_mem_right tells result
    obtain ⟨texts,joined,encoded,matched⟩ := listing.sound c candidate
    rw [complete,Bool.not_not] at incomplete
    exact ⟨texts,after,by rw [joined,path],matched.below,encoded ▸ there,matched.extension,matched.usable,incomplete⟩
  · rintro ⟨texts,content,rfl,matched⟩
    obtain ⟨c,member,place⟩ := List.mem_map.mp (sweep.place_mem formed listing other plain matched)
    obtain ⟨r,result,path,after,now,complete⟩ := exists_of_mem_right tells.flip member
    rw [place,matched.found,Option.some.injEq,Node.file.injEq] at now
    rw [← now,matched.marked] at complete
    exact List.mem_map.mpr ⟨r,List.mem_filter.mpr ⟨result,by simp [complete]⟩,
      by rw [path,listing.path_of_place member place.symm]⟩

end Again

/-- The directory that a run puts its backups into was absent or empty before the run. -/
def WasUnused (dir : Path) (before after : Tree) : Prop :=
  ∀ place, after.joinPlace? dir = some place →
    before.node? place = none ∨ ∀ name, before.node? (place ++ [name]) = none

theorem WasUnused.noLinksIn {dir : Path} {t t' : Tree} {rewritable addable : Place → Prop} (formed : t.WellFormed)
    (change : t.Becomes rewritable addable t') (unused : WasUnused dir t t') : t'.NoLinksIn dir := by
  intro parent leads name target found
  have old := change.link_origin found
  rcases unused parent leads with absent | empty
  · rw [formed.parent old] at absent
    simp at absent
  · rw [empty name] at old
    simp at old

theorem migrate_incomplete (settings : Settings) (locate : Locator) (mode : WriteMode) (tool : Tool) (clock : Clock)
    (t : Tree) :
    let report := (migrate settings locate mode tool clock t).1.report
    (report.results.filter fun r => !r.isComplete).length =
      report.summary.incomplete + report.summary.skipped + report.summary.failed := by
  simp only [migrate_apply]
  exact Summary.tally_incomplete _

/-- The files that a run lists as remaining are those of the results that are not complete, in that order,
whether they are worked out or looked for. -/
theorem migrate_remaining (settings : Settings) (mode : WriteMode) (tool : Tool) (clock : Clock) {t : Tree}
    (formed : t.WellFormed) (other : ¬ IsIntegerLiteral (Candidates.bareExtension settings.extension))
    (unused : mode = .dryRun ∨ ∃ dir, mode = .apply (.inDirectory dir) ∧
      WasUnused dir t (migrate settings settings.locator mode tool clock t).2) :
    let report := (migrate settings settings.locator mode tool clock t).1.report
    report.summary.remaining = (report.results.filter fun r => !r.isComplete).map FileResult.path ∧
    report.summary.remaining.length =
      report.summary.incomplete + report.summary.skipped + report.summary.failed := by
  intro report
  suffices listed : report.summary.remaining = (report.results.filter fun r => !r.isComplete).map FileResult.path by
    refine ⟨listed,?_⟩
    rw [listed,List.length_map]
    simp only [report]
    exact migrate_incomplete settings settings.locator mode tool clock t
  obtain ⟨missing,discovered⟩ | ⟨base,found,directory,discovered,listing⟩ := discover_locator settings formed
  · have located : settings.locator t = .error (.notDirectory settings.scanDir) :=
      Candidates.below_notDirectory missing settings.extension deprecatedMarker
    simp only [report,migrate_apply,discovered,fixAll_nil,remaining,Candidates.remaining,located]
    split
    · simp [projectedRemaining,Path.sort]
    · rfl
  · obtain rfl | ⟨dir,rfl,unused⟩ := unused
    · simp only [report,migrate_apply,discovered,fixAll_dryRun settings.codes clock 1 listing.inside]
      exact projectedRemaining_judged settings.codes formed listing
    · have swept := fixAll_sweep settings.codes dir clock 1 listing.inside listing.apart
      rw [migrate_apply,discovered] at unused
      have again : settings.locator _ = .ok _ :=
        swept.below_again formed directory listing other (unused.noLinksIn formed swept.becomes)
      simp only [report,migrate_apply,discovered,remaining,WriteMode.isDryRun,Candidates.remaining,again,
        Bool.false_eq_true,if_false]

/-- The failed file and the one without a call remain; the backup of the third is not looked at. -/
theorem migrate_remaining_sample : sampleTree.WellFormed ∧
    ¬ IsIntegerLiteral (Candidates.bareExtension ({} : Settings).extension) ∧
    (migrate {} ({} : Settings).locator (.apply (.inDirectory ⟨"src/saved"⟩)) ⟨"errfix",none⟩ (.fixedAt ⟨7,0⟩)
      sampleTree).1.report.summary.remaining = [⟨"./src/b.js"⟩,⟨"./src/c.js"⟩] := by
  have formed : sampleTree.WellFormed := by decide +kernel
  have other : ¬ IsIntegerLiteral (Candidates.bareExtension ({} : Settings).extension) :=
    not_isIntegerLiteral (c := 'j') (by decide) (by decide) (by decide)
  have swept : ((fixAll ({} : Settings).codes (.apply (.inDirectory ⟨"src/saved"⟩)) (.fixedAt ⟨7,0⟩) 1
        [⟨"./src/a.js"⟩,⟨"./src/b.js"⟩,⟨"./src/c.js"⟩] sampleTree).1.results.filter fun r => !r.isComplete).map
          FileResult.path = [⟨"./src/b.js"⟩,⟨"./src/c.js"⟩] ∧
      (fixAll ({} : Settings).codes (.apply (.inDirectory ⟨"src/saved"⟩)) (.fixedAt ⟨7,0⟩) 1
        [⟨"./src/a.js"⟩,⟨"./src/b.js"⟩,⟨"./src/c.js"⟩] sampleTree).2.joinPlace? ⟨"src/saved"⟩ =
          some (["src","saved"].map Text.bytes) := by
    decide +kernel
  have unused : WasUnused ⟨"src/saved"⟩ sampleTree (migrate {} ({} : Settings).locator
      (.apply (.inDirectory ⟨"src/saved"⟩)) ⟨"errfix",none⟩ (.fixedAt ⟨7,0⟩) sampleTree).2 := by
    simp only [migrate_apply,discover_sampleTree]
    intro place found
    rw [swept.2,Option.some.injEq] at found
    rw [← found]
    exact .inl (by decide +kernel)
  refine ⟨formed,other,?_⟩
  rw [(migrate_remaining {} _ ⟨"errfix",none⟩ (.fixedAt ⟨7,0⟩) formed other (.inr ⟨⟨"src/saved"⟩,rfl,unused⟩)).1]
  simp only [migrate_apply,discover_sampleTree]
  rw [swept.1]

end Run

end ErrorMigration
