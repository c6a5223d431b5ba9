import ErrorMigration.Proofs.FileFix
import ErrorMigration.Run

/-! A run over candidates at different places. One candidate's work leaves the others as they are, so each is
looked at with the content that it had at the start. A dry run is a list of judgements, and a run that writes
is a chain of the steps that `FileFix.Applied` describes. -/
namespace ErrorMigration

namespace Ledger

def cons (later : Ledger) (path : Path) : Except FixError FileFix → Ledger
  | .ok fix => later.consFix path fix
  | .error error => later.consFailure path error

def resultOf (path : Path) : Except FixError FileFix → FileResult
  | .ok fix => fix.result
  | .error error => .ofFailure path error.message

@[simp] theorem cons_results (later : Ledger) (path : Path) (fixed : Except FixError FileFix) :
    (later.cons path fixed).results = resultOf path fixed :: later.results := by
  cases fixed <;> rfl

@[simp] theorem cons_events (later : Ledger) (path : Path) (fixed : Except FixError FileFix) :
    (later.cons path fixed).events = .started path :: .finished (resultOf path fixed) :: later.events := by
  cases fixed <;> rfl

def changeOf : Except FixError FileFix → List FileChange
  | .ok fix => [fix.change]
  | .error _ => []

@[simp] theorem cons_changes (later : Ledger) (path : Path) (fixed : Except FixError FileFix) :
    (later.cons path fixed).changes = changeOf fixed ++ later.changes := by
  cases fixed <;> rfl

end Ledger

namespace Run

variable (codes : CodeTable) (mode : WriteMode) (clock : Clock)

@[simp] theorem fixAll_nil (reading : Nat) (t : Tree) : fixAll codes mode clock reading [] t = ({},t) := rfl

theorem fixAll_cons (reading : Nat) (path : Path) (rest : List Path) (t : Tree) :
    fixAll codes mode clock reading (path :: rest) t =
      let fixed := FileFix.run codes mode (clock reading) path t
      let later := fixAll codes mode clock (reading + 1) rest fixed.2
      (later.1.cons path fixed.1,later.2) := by
  change (match FileFix.run codes mode (clock reading) path t with
    | (fixed,t') => match fixAll codes mode clock (reading + 1) rest t' with
      | (later,t'') => (match fixed with
        | .ok fix => (pure (later.consFix path fix) : StateM Tree Ledger)
        | .error error => pure (later.consFailure path error)) t'') = _
  generalize FileFix.run codes mode (clock reading) path t = fixed
  obtain ⟨result,t'⟩ := fixed
  simp only
  generalize fixAll codes mode clock (reading + 1) rest t' = later
  cases result <;> rfl

/-- The tree in which the candidate with the given number is looked at. -/
def treeBefore (reading : Nat) (paths : List Path) (number : Nat) (t : Tree) : Tree :=
  (fixAll codes mode clock reading (paths.take number) t).2

@[simp] theorem treeBefore_zero (reading : Nat) (paths : List Path) (t : Tree) :
    treeBefore codes mode clock reading paths 0 t = t := rfl

theorem treeBefore_succ (reading : Nat) (path : Path) (rest : List Path) (number : Nat) (t : Tree) :
    treeBefore codes mode clock reading (path :: rest) (number + 1) t =
      treeBefore codes mode clock (reading + 1) rest number
        (FileFix.run codes mode (clock reading) path t).2 := by
  simp only [treeBefore,List.take_succ_cons,fixAll_cons]

/-- A run is told by its candidates one by one: each result is that of its candidate's own work, in the tree
that the candidates before it leave. -/
theorem results_fixAll (reading : Nat) (paths : List Path) (t : Tree) (number : Nat) :
    (fixAll codes mode clock reading paths t).1.results[number]? =
      paths[number]?.map fun path => Ledger.resultOf path
        (FileFix.run codes mode (clock (reading + number)) path
          (treeBefore codes mode clock reading paths number t)).1 := by
  induction paths generalizing reading t number with
  | nil => simp
  | cons path rest ih =>
    rw [fixAll_cons]
    cases number with
    | zero => simp
    | succ number =>
      simp only [Ledger.cons_results,List.getElem?_cons_succ,ih,treeBefore_succ]
      rw [show reading + 1 + number = reading + (number + 1) by omega]

def judged : List Candidate → Ledger
  | [] => {}
  | c :: rest => (judged rest).cons c.path (FileFix.judge codes c none)

theorem fixAll_dryRun (reading : Nat) {found : List Candidate} {t : Tree} (inside : ∀ c ∈ found, c.In t) :
    fixAll codes .dryRun clock reading (found.map Candidate.path) t = (judged codes found,t) := by
  induction found generalizing reading with
  | nil => rfl
  | cons c rest ih =>
    rw [List.map_cons,fixAll_cons,FileFix.run_dryRun codes (clock reading) (inside c List.mem_cons_self)]
    simp only [ih (reading + 1) fun other member => inside other (List.mem_cons_of_mem _ member)]
    rfl

end Run

namespace Run

/-- The steps of a run with backups in a directory, one for each candidate. -/
inductive Sweep (codes : CodeTable) (dir : Path) (clock : Clock) :
    Nat → List Candidate → Tree → Ledger → Tree → Prop where
  | done {reading : Nat} {t : Tree} : Sweep codes dir clock reading [] t {} t
  | step {reading : Nat} {c : Candidate} {rest : List Candidate} {t t' t'' : Tree}
      {fixed : Except FixError FileFix} {later : Ledger} (inside : c.In t)
      (applied : FileFix.Applied codes dir (clock reading) c t fixed t')
      (run : FileFix.run codes (.apply (.inDirectory dir)) (clock reading) c.path t = (fixed,t'))
      (others : Sweep codes dir clock (reading + 1) rest t' later t'') :
      Sweep codes dir clock reading (c :: rest) t (later.cons c.path fixed) t''

theorem fixAll_sweep (codes : CodeTable) (dir : Path) (clock : Clock) (reading : Nat) {found : List Candidate}
    {t : Tree} (inside : ∀ c ∈ found, c.In t) (apart : (found.map Candidate.place).Nodup) :
    Sweep codes dir clock reading found t
      (fixAll codes (.apply (.inDirectory dir)) clock reading (found.map Candidate.path) t).1
      (fixAll codes (.apply (.inDirectory dir)) clock reading (found.map Candidate.path) t).2 := by
  induction found generalizing reading t with
  | nil => exact .done
  | cons c rest ih =>
    rw [List.map_cons,fixAll_cons]
    have first := FileFix.run_applied codes dir (clock reading) (inside c List.mem_cons_self)
    simp only [List.map_cons,List.nodup_cons] at apart
    refine .step (inside c List.mem_cons_self) first rfl (ih (reading + 1) ?_ apart.2)
    intro other member
    refine first.other_inside (inside other (List.mem_cons_of_mem _ member)) ?_
    intro same
    exact apart.1 (same ▸ List.mem_map_of_mem member)

namespace Sweep

variable {codes : CodeTable} {dir : Path} {clock : Clock} {reading : Nat} {found : List Candidate} {t t' : Tree}
  {ledger : Ledger}

theorem becomes (sweep : Sweep codes dir clock reading found t ledger t') :
    t.Becomes (fun place => place ∈ found.map Candidate.place) (fun _ => True) t' := by
  induction sweep with
  | done => exact .refl _
  | step _ applied _ _ ih =>
    refine (applied.becomes.mono ?_ (by simp)).trans (ih.mono ?_ (by simp))
    · rintro _ rfl
      simp
    · intro place member
      exact List.mem_cons_of_mem _ member

/-- A run adds backups and nothing else, if its directory has no links. -/
theorem becomes_numbered (sweep : Sweep codes dir clock reading found t ledger t') (plain : t'.NoLinksIn dir) :
    t.Becomes (fun place => place ∈ found.map Candidate.place) BackupStore.IsNumberedPlace t' := by
  induction sweep with
  | done => exact .refl _
  | step _ applied _ others ih =>
    refine ((applied.becomes_numbered (plain.before others.becomes)).mono ?_ (by simp)).trans
      ((ih plain).mono ?_ (by simp))
    · rintro _ rfl
      simp
    · intro place member
      exact List.mem_cons_of_mem _ member

theorem wellFormed (sweep : Sweep codes dir clock reading found t ledger t') (formed : t.WellFormed)
    (plain : t'.NoLinksIn dir) : t'.WellFormed := by
  induction sweep with
  | done => exact formed
  | step inside applied _ others ih =>
    exact ih (applied.wellFormed inside formed (plain.before others.becomes)) plain

end Sweep

/-- What a result records about its candidate's file in a tree: the work failed and the file is as it was, or the
status is that of its text and of the migrated text, which the file holds. -/
def Records (codes : CodeTable) (t : Tree) (c : Candidate) (r : FileResult) : Prop :=
  r.path = c.path ∧ ((r.status = .failed ∧ t.node? c.place = some (.file c.content)) ∨
    ∃ text, Text.ofBytes? c.content = some text ∧
      r.status = Status.classify text.toList (migrateText codes text.toList).text ∧
      t.node? c.place = some (.file (Text.bytes (String.ofList (migrateText codes text.toList).text))))

theorem Records.becomes {codes : CodeTable} {rewritable addable : Place → Prop} {t t' : Tree} {c : Candidate}
    {r : FileResult} (records : Records codes t c r) (change : t.Becomes rewritable addable t')
    (fixed : ¬ rewritable c.place) : Records codes t' c r := by
  obtain ⟨path,⟨failed,found⟩ | ⟨text,readable,status,found⟩⟩ := records
  · exact ⟨path,.inl ⟨failed,change.kept found fixed⟩⟩
  · exact ⟨path,.inr ⟨text,readable,status,change.kept found fixed⟩⟩

theorem records_of_applied {codes : CodeTable} {dir : Path} {now : Moment} {c : Candidate} {t t' : Tree}
    {fixed : Except FixError FileFix} (applied : FileFix.Applied codes dir now c t fixed t') (inside : c.In t) :
    Records codes t' c (Ledger.resultOf c.path fixed) := by
  cases applied with
  | notText => exact ⟨rfl,.inl ⟨rfl,inside.found⟩⟩
  | notSaved _ _ kept =>
    refine ⟨rfl,.inl ⟨rfl,?_⟩⟩
    have change : t.Becomes (fun _ => False) (fun _ => False) t' := Tree.becomes_of_same_or_made kept
    exact change.kept inside.found not_false
  | saved readable _ _ _ _ _ _ _ written =>
    rw [FileFix.rewritten_of_text readable] at written
    exact ⟨rfl,.inr ⟨_,readable,rfl,written⟩⟩

/-- The results of a run, against the files as the run leaves them. -/
theorem Sweep.records {codes : CodeTable} {dir : Path} {clock : Clock} {reading : Nat} {found : List Candidate}
    {t t' : Tree} {ledger : Ledger} (sweep : Sweep codes dir clock reading found t ledger t')
    (apart : (found.map Candidate.place).Nodup) : List.Forall₂ (Records codes t') found ledger.results := by
  induction sweep with
  | done => exact .nil
  | step inside applied _ others ih =>
    simp only [List.map_cons,List.nodup_cons] at apart
    rw [Ledger.cons_results]
    exact .cons ((records_of_applied applied inside).becomes others.becomes apart.1) (ih apart.2)

def attempt? (codes : CodeTable) (mode : WriteMode) (clock : Clock) (paths : List Path) (t : Tree) (number : Nat) :
    Option (Except FixError FileFix) :=
  paths[number]?.map fun path =>
    (FileFix.run codes mode (clock (1 + number)) path (treeBefore codes mode clock 1 paths number t)).1

/-- A run is what it finds, the work on that, and what is left of the tree then. -/
theorem migrate_apply (settings : Settings) (locate : Locator) (mode : WriteMode) (tool : Tool) (clock : Clock)
    (t : Tree) :
    migrate settings locate mode tool clock t =
      let candidates := (discover locate t).1
      let swept := fixAll settings.codes mode clock 1 candidates t
      ({ report :=
          { schema := Report.currentSchema
            tool
            run := ⟨clock 0,some (clock (candidates.length + 1)),mode.isDryRun,mode.backupDir⟩
            scan := ⟨settings.scanDir,settings.extension,deprecatedMarker⟩
            results := swept.1.results
            summary := { Summary.tally swept.1.results with remaining := remaining locate mode swept.1 swept.2 } }
         patch := Patch.render swept.1.changes
         discoveryError := (discover locate t).2
         events := .found candidates.length :: swept.1.events },swept.2) := rfl

/-- Discovery fails, or lists the candidates of the tree. -/
theorem discover_locator (settings : Settings) {t : Tree} (formed : t.WellFormed) :
    (t.directoryAt? settings.scanDir = none ∧
      discover settings.locator t = ([],some (.notDirectory settings.scanDir))) ∨
    ∃ (base : Place) (found : List Candidate), t.directoryAt? settings.scanDir = some base ∧
      discover settings.locator t = (found.map Candidate.path,none) ∧
      Candidates.Listing settings.scanDir settings.extension deprecatedMarker t base found := by
  cases directory : t.directoryAt? settings.scanDir with
  | none =>
    left
    refine ⟨rfl,?_⟩
    simp only [discover,Settings.locator,Candidates.below_notDirectory directory]
  | some base =>
    right
    obtain ⟨found,located,listing⟩ := Candidates.exists_listing settings.extension deprecatedMarker formed
      directory
    refine ⟨base,found,rfl,?_,listing⟩
    simp only [discover,Settings.locator,located]

structure Swept (settings : Settings) (dir : Path) (clock : Clock) (t : Tree) (outcome : Outcome) (t' : Tree)
    (found : List Candidate) (ledger : Ledger) : Prop where
  sweep : Sweep settings.codes dir clock 1 found t ledger t'
  results : outcome.report.results = ledger.results
  backupDir : outcome.report.run.backupDir = some dir
  paths : (discover settings.locator t).1 = found.map Candidate.path
  inside : ∀ c ∈ found, c.In t
  apart : (found.map Candidate.place).Nodup
  sound : ∀ c ∈ found, ∃ base, Candidates.IsFound settings.scanDir settings.extension deprecatedMarker t base c

theorem exists_swept {settings : Settings} {dir : Path} {clock : Clock} {t t' : Tree} (formed : t.WellFormed)
    {tool : Tool} {outcome : Outcome}
    (ran : migrate settings settings.locator (.apply (.inDirectory dir)) tool clock t = (outcome,t')) :
    ∃ found ledger, Swept settings dir clock t outcome t' found ledger := by
  rw [migrate_apply] at ran
  obtain ⟨_,discovered⟩ | ⟨base,found,_,discovered,listing⟩ := discover_locator settings formed
  · rw [discovered] at ran
    cases ran
    exact ⟨[],{},.done,rfl,rfl,by rw [discovered]; rfl,by simp,by simp,by simp⟩
  · have swept := fixAll_sweep settings.codes dir clock 1 listing.inside listing.apart
    simp only [discovered] at ran
    generalize fixAll settings.codes (.apply (.inDirectory dir)) clock 1 (found.map Candidate.path) t = ended at *
    cases ran
    exact ⟨found,ended.1,swept,rfl,rfl,by rw [discovered],listing.inside,listing.apart,
      fun c member => ⟨base,listing.sound c member⟩⟩

/-- A file for each way that reading can end, and a link that is not looked into. -/
def sampleTree : Tree := .ofEntries
  [(["src"],.directory),
    (["src","d.js"],.link "a.js"),
    (["src","c.js"],.file (Text.bytes deprecatedMarker)),
    (["src","b.js"],.file (255 :: Text.bytes deprecatedMarker)),
    (["src","a.js"],.file (Text.bytes "throw new StandardErrorWrapper('A', 'b', \x7b c: 1 \x7d)"))]

theorem discover_sampleTree : discover ({} : Settings).locator sampleTree =
    ([⟨"./src/a.js"⟩,⟨"./src/b.js"⟩,⟨"./src/c.js"⟩],none) := by
  have directory : sampleTree.directoryAt? ({} : Settings).scanDir = some [Text.bytes "src"] := by decide +kernel
  have matching : (Candidates.filesBelow sampleTree [Text.bytes "src"]).filterMap
      (Candidates.matchingPath? ({} : Settings).scanDir "js" deprecatedMarker) =
      [⟨"./src/a.js"⟩,⟨"./src/b.js"⟩,⟨"./src/c.js"⟩] := by decide +kernel
  have located : ({} : Settings).locator sampleTree =
      .ok (Path.sort [⟨"./src/a.js"⟩,⟨"./src/b.js"⟩,⟨"./src/c.js"⟩]) := by
    rw [← matching]
    exact Candidates.below_of_directory directory "js" deprecatedMarker
  have sorted : Path.sort [⟨"./src/a.js"⟩,⟨"./src/b.js"⟩,⟨"./src/c.js"⟩] =
      [⟨"./src/a.js"⟩,⟨"./src/b.js"⟩,⟨"./src/c.js"⟩] := List.mergeSort_of_pairwise (by decide +kernel)
  simp only [discover,located,sorted]

end Run

end ErrorMigration
