import ErrorMigration.Console.Command
import ErrorMigration.Proofs.Artifacts

/-! Backups over many runs. A run rewrites no numbered name and adds each backup at a free place; as the names of
backups are numbered, what one run has saved no later run can touch, and no path is given out twice. -/
namespace ErrorMigration

namespace Run

open BackupStore (IsNumbered IsNumberedPlace)

/-- A backup that a run has made: its path, where it stands, and that nothing was there before the run. -/
structure Saved (dir : Path) (before after : Tree) (backup : Path) (content : List UInt8) (parent : Place)
    (name : String) : Prop where
  path : backup = dir.joinName name
  entry : Path.IsEntryName name
  numbered : IsNumbered name
  addressed : after.Addresses backup parent (Text.bytes name)
  directory : after.joinPlace? dir = some parent
  free : before.node? (parent ++ [Text.bytes name]) = none
  found : after.node? (parent ++ [Text.bytes name]) = some (.file content)

theorem Saved.becomes {rewritable addable : Place → Prop} {dir backup : Path} {before after later : Tree}
    {content : List UInt8} {parent : Place} {name : String} (saved : Saved dir before after backup content parent name)
    (change : after.Becomes rewritable addable later) (kept : ¬ rewritable (parent ++ [Text.bytes name])) :
    Saved dir before later backup content parent name where
  path := saved.path
  entry := saved.entry
  numbered := saved.numbered
  addressed := saved.addressed.becomes change
  directory := Tree.joinPlace?_becomes change saved.directory
  free := saved.free
  found := change.kept saved.found kept

theorem Saved.before {rewritable addable : Place → Prop} {dir backup : Path} {earlier before after : Tree}
    {content : List UInt8} {parent : Place} {name : String} (saved : Saved dir before after backup content parent name)
    (change : earlier.Becomes rewritable addable before) : Saved dir earlier after backup content parent name :=
  { saved with free := change.free saved.free }

/-- The path of a backup leads to it. -/
theorem Saved.resolve {dir backup : Path} {before after : Tree} {content : List UInt8} {parent : Place} {name : String}
    (saved : Saved dir before after backup content parent name) :
    after.resolve backup = .ok (.file (parent ++ [Text.bytes name]) content) :=
  saved.addressed.resolveFor_file saved.found .use

variable {codes : CodeTable} {dir : Path} {clock : Clock} {reading : Nat} {found : List Candidate} {t t' : Tree}
  {ledger : Ledger}

theorem saved_of_applied {now : Moment} {c : Candidate} {fixed : Except FixError FileFix}
    (applied : FileFix.Applied codes dir now c t fixed t') (plain : t'.NoLinksIn dir) {backup : Path}
    (reported : (Ledger.resultOf c.path fixed).backupPath = some backup) :
    ∃ parent name, Saved dir t t' backup c.content parent name := by
  cases applied with
  | notText => simp [Ledger.resultOf,FileResult.ofFailure] at reported
  | notSaved => simp [Ledger.resultOf,FileResult.ofFailure] at reported
  | @saved made _ _ _ name parent last _ named entry prepared vacant free change copied =>
    obtain rfl : dir.joinName name = backup := Option.some.inj reported
    obtain ⟨above,addressed,directory,_,target⟩ := (plain.before change).resolveFor_joinName entry vacant
    obtain ⟨rfl,rfl⟩ := target parent last rfl
    have directories : t.Becomes (fun _ => False) (fun _ => False) made := Tree.becomes_of_makeAll prepared
    exact ⟨parent,name,rfl,entry,named.numbered,addressed.becomes change,
      Tree.joinPlace?_becomes change directory,directories.free free,copied⟩

/-- Every backup that is reported has been made, from the content that its file had when its turn came. -/
theorem Sweep.saved (sweep : Sweep codes dir clock reading found t ledger t') (plain : t'.NoLinksIn dir)
    (sources : ∀ c ∈ found, ¬ IsNumberedPlace c.place) {number : Nat} {result : FileResult} {backup : Path}
    (reported : ledger.results[number]? = some result) (backedUp : result.backupPath = some backup) :
    ∃ (c : Candidate) (parent : Place) (name : String), result.path = c.path ∧
      c.In (treeBefore codes (.apply (.inDirectory dir)) clock reading (found.map Candidate.path) number t) ∧
      Saved dir t t' backup c.content parent name := by
  induction sweep generalizing number with
  | done => simp at reported
  | @step reading c rest t t₁ t₂ fixed later inside applied run others ih =>
    rw [Ledger.cons_results] at reported
    cases number with
    | zero =>
      obtain rfl : Ledger.resultOf c.path fixed = result := by simpa using reported
      obtain ⟨parent,name,saved⟩ := saved_of_applied applied (plain.before others.becomes) backedUp
      refine ⟨c,parent,name,?_,by rwa [treeBefore_zero],saved.becomes others.becomes ?_⟩
      · cases applied <;> rfl
      · intro rewritten
        obtain ⟨other,member,place⟩ := List.mem_map.mp rewritten
        exact sources other (List.mem_cons_of_mem _ member)
          (place ▸ BackupStore.isNumberedPlace_iff.mpr saved.numbered)
    | succ number =>
      obtain ⟨source,parent,name,path,there,saved⟩ := ih plain
        (fun other member => sources other (List.mem_cons_of_mem _ member)) (by simpa using reported)
      refine ⟨source,parent,name,path,?_,saved.before applied.becomes⟩
      rw [List.map_cons,treeBefore_succ,run]
      exact there

/-- A run gives out no path twice: the place of a backup is no longer free when the next one is made. -/
theorem Sweep.nodup_backups (sweep : Sweep codes dir clock reading found t ledger t') (plain : t'.NoLinksIn dir)
    (sources : ∀ c ∈ found, ¬ IsNumberedPlace c.place) :
    (ledger.results.filterMap FileResult.backupPath).Nodup := by
  induction sweep with
  | done => simp
  | @step reading c rest t t₁ t₂ fixed later inside applied run others ih =>
    have distinct := ih plain fun other member => sources other (List.mem_cons_of_mem _ member)
    rw [Ledger.cons_results]
    cases reported : (Ledger.resultOf c.path fixed).backupPath with
    | none => rwa [List.filterMap_cons_none reported]
    | some backup =>
      rw [List.filterMap_cons_some reported,List.nodup_cons]
      refine ⟨?_,distinct⟩
      intro again
      obtain ⟨result,member,backedUp⟩ := List.mem_filterMap.mp again
      obtain ⟨number,located⟩ := List.getElem?_of_mem member
      obtain ⟨parent,name,first⟩ := saved_of_applied applied (plain.before others.becomes) reported
      obtain ⟨_,parent',name',_,_,second⟩ := others.saved plain
        (fun other member => sources other (List.mem_cons_of_mem _ member)) located backedUp
      have parents : parent = parent' :=
        Option.some.inj ((Tree.joinPlace?_becomes others.becomes first.directory).symm.trans second.directory)
      have names : name = name' := by
        have same := congrArg Path.fileName? (first.path.symm.trans second.path)
        simpa [Path.fileName?_joinName dir first.entry,Path.fileName?_joinName dir second.entry] using same
      have there := first.found
      rw [parents,names,second.free] at there
      simp at there

/-- What a run with backups does to a tree without links, and what it has saved. -/
structure Saves (settings : Settings) (dir : Path) (clock : Clock) (t : Tree) (outcome : Outcome) (t' : Tree) :
    Prop where
  change : t.Becomes (fun place => ¬ IsNumberedPlace place) (fun _ => True) t'
  backupDir : outcome.report.run.backupDir = some dir
  distinct : (outcome.report.results.filterMap FileResult.backupPath).Nodup
  saved : ∀ {number : Nat} {result : FileResult} {backup : Path}, outcome.report.results[number]? = some result →
    result.backupPath = some backup → ∃ (c : Candidate) (parent : Place) (name : String), result.path = c.path ∧
      c.In (treeBefore settings.codes (.apply (.inDirectory dir)) clock 1 (discover settings.locator t).1 number t) ∧
      Saved dir t t' backup c.content parent name

theorem migrate_saves {settings : Settings} (other : ¬ IsIntegerLiteral (Candidates.bareExtension settings.extension))
    (formed : t.WellFormed) (free : t.LinkFree) {tool : Tool} {outcome : Outcome}
    (ran : migrate settings settings.locator (.apply (.inDirectory dir)) tool clock t = (outcome,t')) :
    Saves settings dir clock t outcome t' := by
  obtain ⟨found,ledger,swept⟩ := exists_swept formed ran
  have plain := (swept.sweep.becomes.linkFree free).noLinksIn dir
  have sources : ∀ c ∈ found, ¬ IsNumberedPlace c.place := by
    intro c member
    obtain ⟨_,_,_,encoded,matched⟩ := swept.sound c member
    exact encoded ▸ BackupStore.not_isNumberedPlace_of_matches formed other matched
  refine ⟨swept.sweep.becomes.mono ?_ (by simp),swept.backupDir,?_,?_⟩
  · intro place member
    obtain ⟨c,candidate,rfl⟩ := List.mem_map.mp member
    exact sources c candidate
  · rw [swept.results]
    exact swept.sweep.nodup_backups plain sources
  · intro number result backup located backedUp
    rw [swept.results] at located
    rw [swept.paths]
    exact swept.sweep.saved plain sources located backedUp

end Run

@[simp] theorem WriteMode.backupDir_inDirectory (dir : Path) :
    (WriteMode.apply (.inDirectory dir)).backupDir = some dir := rfl

namespace Console

theorem lift_apply {ε α : Type} (work : StateM Tree α) (t : Tree) :
    (liftM work : FileTask ε α) t = (.ok (work t).1,(work t).2) := rfl

theorem writeMode_apply {given : Given} (writes : given.dryRun = false) (settings : Settings) (started : Moment)
    (t : Tree) : writeMode given settings started t =
      match t.makeAll (settings.runDir started).ancestors with
      | (.error cause,made) => (.error (.prepare ⟨settings.runDir started,.makingDirectory (settings.runDir started)
          (.makingDirectory (settings.runDir started) cause)⟩),made)
      | (.ok (),made) => (.ok (.apply (.inDirectory (settings.runDir started))),made) := by
  simp only [writeMode,writes,Bool.false_eq_true,if_false,FileTask.bind_apply,FileTask.orElseError_apply,
    Run.prepareBackups,BackupStore.create,FileTask.makeDirectories]
  rcases t.makeAll (settings.runDir started).ancestors with ⟨_ | _,made⟩ <;> rfl

/-- A command fails before its run starts, or the run is followed by the files that it leaves. -/
theorem perform_apply (clock : Clock) (given : Given) (t : Tree) : perform clock given t =
      match Config.settings t given.flags given.repository with
      | .error error => (.error (.config error),t)
      | .ok settings =>
        match writeMode given settings (clock 0) t with
        | (.error error,made) => (.error error,made)
        | (.ok mode,made) =>
          let ran := Run.migrate settings settings.locator mode tool (fun reading => clock (reading + 1)) made
          (.ok ⟨settings,ran.1⟩,match given.outDir <|> mode.backupDir with
            | some dir => (Artifacts.write ran.1 dir ran.2).2
            | none => ran.2) := by
  simp only [perform,FileTask.bind_apply,Given.settings,FileTask.inspect]
  cases Config.settings t given.flags given.repository with
  | error error => rfl
  | ok settings =>
    simp only [Except.mapError]
    rcases writeMode given settings (clock 0) t with ⟨_ | mode,made⟩
    · rfl
    · simp only [lift_apply]
      generalize Run.migrate settings settings.locator mode tool (fun reading => clock (reading + 1)) made = ran
      cases (given.outDir <|> mode.backupDir) <;> rfl

end Console

structure Round where
  start : Tree
  clock : Clock
  given : Console.Given

namespace Round

open BackupStore (IsNumbered IsNumberedPlace)

def ended (r : Round) : Except Console.CommandError Console.Migration × Tree := Console.perform r.clock r.given r.start

def after (r : Round) : Tree := r.ended.2

def report? (r : Round) : Option Report :=
  match r.ended.1 with
  | .ok migration => some migration.outcome.report
  | .error _ => none

def results (r : Round) : List FileResult := (r.report?.map Report.results).getD []

def backupDir? (r : Round) : Option Path := r.report?.bind fun report => report.run.backupDir

def backups (r : Round) : List Path := r.results.filterMap FileResult.backupPath

def directory? (r : Round) : Option Place := r.backupDir?.bind r.after.directoryAt?

def treeBefore (r : Round) (number : Nat) : Tree :=
  match Config.settings r.start r.given.flags r.given.repository with
  | .error _ => r.start
  | .ok settings =>
    match Console.writeMode r.given settings (r.clock 0) r.start with
    | (.error _,made) => made
    | (.ok mode,made) => Run.treeBefore settings.codes mode (fun reading => r.clock (reading + 1)) 1
        (Run.discover settings.locator made).1 number made

/-- A command that writes, leaves its files beside the backups, and whose candidates do not look like backups. -/
structure Applies (r : Round) : Prop where
  writes : r.given.dryRun = false
  beside : r.given.outDir = none
  extension : ∀ settings, Config.settings r.start r.given.flags r.given.repository = .ok settings →
    ¬ IsIntegerLiteral (Candidates.bareExtension settings.extension)

/-- A command stops before its run starts, or its run is followed by the files it leaves. -/
theorem stages {r : Round} (writes : r.given.dryRun = false) (beside : r.given.outDir = none) :
    (r.report? = none ∧ (r.after = r.start ∨
      ∃ settings : Settings, r.after = (r.start.makeAll (settings.runDir (r.clock 0)).ancestors).2)) ∨
    ∃ settings made outcome t, Config.settings r.start r.given.flags r.given.repository = .ok settings ∧
      r.start.makeAll (settings.runDir (r.clock 0)).ancestors = (.ok (),made) ∧
      Run.migrate settings settings.locator (.apply (.inDirectory (settings.runDir (r.clock 0)))) Console.tool
        (fun reading => r.clock (reading + 1)) made = (outcome,t) ∧
      r.report? = some outcome.report ∧ r.after = (Artifacts.write outcome (settings.runDir (r.clock 0)) t).2 ∧
      ∀ number, r.treeBefore number = Run.treeBefore settings.codes
        (.apply (.inDirectory (settings.runDir (r.clock 0)))) (fun reading => r.clock (reading + 1)) 1
        (Run.discover settings.locator made).1 number made := by
  unfold report? after treeBefore ended
  rw [Console.perform_apply,beside]
  cases configured : Config.settings r.start r.given.flags r.given.repository with
  | error error => exact .inl ⟨rfl,.inl rfl⟩
  | ok settings =>
    simp only [Console.writeMode_apply writes]
    cases prepared : r.start.makeAll (settings.runDir (r.clock 0)).ancestors with
    | mk result made =>
    cases result with
    | error cause => exact .inl ⟨rfl,.inr ⟨settings,by rw [prepared]⟩⟩
    | ok =>
      cases ran : Run.migrate settings settings.locator (.apply (.inDirectory (settings.runDir (r.clock 0))))
        Console.tool (fun reading => r.clock (reading + 1)) made with
      | mk outcome t => exact .inr ⟨settings,made,outcome,t,rfl,prepared,ran,by simp [ran]⟩

theorem runDir_spelling (settings : Settings) (started : Moment) : (settings.runDir started).spelling ≠ "" := by
  unfold Settings.runDir Path.joinName Path.join
  split
  · simp
  · split <;> simp

structure Effect (r : Round) : Prop where
  change : r.start.Becomes (fun place => ¬ IsNumberedPlace place) (fun _ => True) r.after
  distinct : r.backups.Nodup
  saved : ∀ {number : Nat} {result : FileResult} {backup : Path}, r.results[number]? = some result →
    result.backupPath = some backup → ∃ (dir : Path) (c : Candidate) (parent : Place) (name : String),
      r.backupDir? = some dir ∧ r.directory? = some parent ∧ result.path = c.path ∧ c.In (r.treeBefore number) ∧
      Run.Saved dir r.start r.after backup c.content parent name

theorem Effect.saved_of_mem {r : Round} {backup : Path} (effect : r.Effect) (reported : backup ∈ r.backups) :
    ∃ (dir : Path) (content : List UInt8) (parent : Place) (name : String), r.directory? = some parent ∧
      Run.Saved dir r.start r.after backup content parent name := by
  obtain ⟨result,member,backedUp⟩ := List.mem_filterMap.mp reported
  obtain ⟨number,located⟩ := List.getElem?_of_mem member
  obtain ⟨dir,c,parent,name,_,directory,_,_,saved⟩ := effect.saved located backedUp
  exact ⟨dir,c.content,parent,name,directory,saved⟩

theorem Applies.effect {r : Round} (applies : r.Applies) (formed : r.start.WellFormed) (free : r.start.LinkFree) :
    r.Effect := by
  rcases stages applies.writes applies.beside with ⟨stopped,kept⟩ | ⟨settings,made,outcome,t,configured,prepared,ran,reported,left,trees⟩
  · have nothing : r.results = [] := by simp [results,stopped]
    refine ⟨?_,by simp [backups,nothing],by simp [nothing]⟩
    rcases kept with kept | ⟨settings,kept⟩
    · rw [kept]
      exact .refl _
    · rw [kept]
      exact Tree.makeAll_becomes _ _ _ _
  · have directories : r.start.Becomes (fun place => ¬ IsNumberedPlace place) (fun _ => True) made :=
      Tree.becomes_of_makeAll prepared
    have formedMade := formed.of_makeAll prepared
    have freeMade := directories.linkFree free
    have saves := Run.migrate_saves (applies.extension settings configured) formedMade freeMade ran
    have artifacts : t.Becomes (fun place => ¬ IsNumberedPlace place) (fun _ => True) r.after := by
      rw [left]
      exact Artifacts.write_becomes (saves.change.linkFree freeMade) _ _
    have results_eq : r.results = outcome.report.results := by simp [results,reported]
    have dir_eq : r.backupDir? = some (settings.runDir (r.clock 0)) := by simp [backupDir?,reported,saves.backupDir]
    refine ⟨directories.trans (saves.change.trans artifacts),?_,?_⟩
    · rw [backups,results_eq]
      exact saves.distinct
    · intro number result backup located backedUp
      rw [results_eq] at located
      obtain ⟨c,parent,name,path,there,saved⟩ := saves.saved located backedUp
      have kept := (saved.becomes artifacts
        (not_not.mpr (BackupStore.isNumberedPlace_iff.mpr saved.numbered))).before directories
      refine ⟨settings.runDir (r.clock 0),c,parent,name,dir_eq,?_,path,by rwa [trees number],kept⟩
      have directory := kept.directory
      rw [Tree.joinPlace?,if_neg (runDir_spelling settings (r.clock 0))] at directory
      rw [directory?,dir_eq,Option.bind_some,directory]

/-- Files are edited between two commands, but nothing in the run directories so far. -/
structure Edit (directories : List Place) (before after : Tree) : Prop where
  home : after.home = before.home
  formed : after.WellFormed
  linkFree : after.LinkFree
  kept : ∀ directory ∈ directories, ∀ below, after.node? (directory ++ below) = before.node? (directory ++ below)

/-- Commands one after the other, with edits before each of them. -/
inductive Follows : List Place → Tree → List Round → Prop where
  | done {directories : List Place} {t : Tree} : Follows directories t []
  | next {directories : List Place} {t : Tree} {r : Round} {rest : List Round} (edit : Edit directories t r.start)
      (applies : r.Applies) (later : Follows (r.directory?.toList ++ directories) r.after rest) :
      Follows directories t (r :: rest)

theorem Follows.suffix {directories : List Place} {t : Tree} {earlier rest : List Round}
    (follows : Follows directories t (earlier ++ rest)) : ∃ directories' t', Follows directories' t' rest := by
  induction earlier generalizing directories t with
  | nil => exact ⟨directories,t,follows⟩
  | cons r earlier ih =>
    cases follows with
    | next _ _ later => exact ih later

/-- A backup of an earlier run. Its place is told by its path alone, as there are no links. -/
structure Held (directories : List Place) (t : Tree) (backup : Path) (place : Place) (content : List UInt8) :
    Prop where
  numbered : IsNumberedPlace place
  inside : ∃ directory ∈ directories, ∃ below, place = directory ++ below
  spelled : Tree.lexical (t.startOf backup) (Tree.steps backup) = place
  found : t.node? place = some (.file content)

variable {directories : List Place} {t t' : Tree} {r : Round} {backup : Path} {place : Place} {content : List UInt8}

theorem Held.edit (held : Held directories t backup place content) (edit : Edit directories t t') :
    Held directories t' backup place content where
  numbered := held.numbered
  inside := held.inside
  spelled := by rw [Tree.startOf_eq edit.home,held.spelled]
  found := by
    obtain ⟨directory,member,below,rfl⟩ := held.inside
    rw [edit.kept directory member below,held.found]

theorem Held.round (held : Held directories r.start backup place content) (effect : r.Effect) :
    Held (r.directory?.toList ++ directories) r.after backup place content where
  numbered := held.numbered
  inside := by
    obtain ⟨directory,member,below⟩ := held.inside
    exact ⟨directory,List.mem_append_right _ member,below⟩
  spelled := by rw [Tree.startOf_eq effect.change.home,held.spelled]
  found := effect.change.kept held.found (not_not.mpr held.numbered)

/-- A path that holds a backup is not given out again: a new backup was free when the command started. -/
theorem Held.notMem_backups (held : Held directories r.start backup place content) (effect : r.Effect)
    (free : r.start.LinkFree) : backup ∉ r.backups := by
  intro again
  obtain ⟨dir,_,parent,name,_,saved⟩ := effect.saved_of_mem again
  have there := saved.addressed.eq_lexical (effect.change.linkFree free)
  rw [Tree.startOf_eq effect.change.home,held.spelled] at there
  have taken := saved.free
  rw [there,held.found] at taken
  simp at taken

/-- What is held when a sequence starts is held after each of its commands, and its path stays its own. -/
theorem Follows.held {rounds : List Round} (follows : Follows directories t rounds)
    (held : Held directories t backup place content) :
    backup ∉ rounds.flatMap backups ∧
      ∀ s ∈ rounds, s.after.LinkFree ∧ ∃ directories', Held directories' s.after backup place content := by
  induction follows with
  | done => simp
  | next edit applies later ih =>
    have effect := applies.effect edit.formed edit.linkFree
    have started := held.edit edit
    obtain ⟨fresh,kept⟩ := ih (started.round effect)
    constructor
    · rw [List.flatMap_cons,List.mem_append,not_or]
      exact ⟨started.notMem_backups effect edit.linkFree,fresh⟩
    · intro s member
      rcases List.mem_cons.mp member with rfl | member
      · exact ⟨effect.change.linkFree edit.linkFree,_,started.round effect⟩
      · exact kept s member

/-- What a command has saved is held when the next one starts. -/
theorem held_of_saved {dir : Path} {parent : Place} {name : String} (free : r.after.LinkFree)
    (directory : r.directory? = some parent) (saved : Run.Saved dir r.start r.after backup content parent name) :
    Held (r.directory?.toList ++ directories) r.after backup (parent ++ [Text.bytes name]) content where
  numbered := BackupStore.isNumberedPlace_iff.mpr saved.numbered
  inside := ⟨parent,by simp [directory],_,rfl⟩
  spelled := (saved.addressed.eq_lexical free).symm
  found := saved.found

/-- As long as the path of the run directory leads somewhere, the path of a backup leads to it. -/
theorem Held.resolve {dir : Path} {parent : Place} {name : String} {before after : Tree}
    (held : Held directories t backup place content) (free : t.LinkFree)
    (saved : Run.Saved dir before after backup content parent name) (present : t.isDirectory dir = true) :
    t.resolve backup = .ok (.file place content) := by
  obtain ⟨goal,leads⟩ := Option.isSome_iff_exists.mp present
  obtain ⟨_,left,reached⟩ := Tree.directoryAt?_eq_some_iff.mp leads
  have steps : Tree.steps backup = Tree.plainSteps dir ++ [.down (Text.bytes name)] := by
    rw [saved.path,Tree.steps_joinName dir saved.entry]
  have start : t.startOf backup = t.startOf dir := by rw [saved.path,Tree.startOf_joinName t dir saved.entry]
  have spelled := held.spelled
  rw [steps,start,Tree.lexical_append,← (reached.eq_lexical free).1] at spelled
  have addressed : t.Addresses backup goal (Text.bytes name) :=
    ⟨saved.addressed.usable,saved.addressed.short,_,left,steps,start ▸ reached⟩
  have found := held.found
  rw [← spelled] at found ⊢
  exact addressed.resolveFor_file found .use

theorem Follows.nodup_backups {rounds : List Round} (follows : Follows directories t rounds) :
    (rounds.flatMap backups).Nodup := by
  induction follows with
  | done => simp
  | next edit applies later ih =>
    have effect := applies.effect edit.formed edit.linkFree
    rw [List.flatMap_cons,List.nodup_append]
    refine ⟨effect.distinct,ih,?_⟩
    rintro backup reported _ again rfl
    obtain ⟨dir,_,parent,name,directory,saved⟩ := effect.saved_of_mem reported
    exact (later.held (held_of_saved (effect.change.linkFree edit.linkFree) directory saved)).1 again

/-- Backups are exact, and no later command changes them: a reported backup holds the bytes that its file had
when its turn came, at the end of the command and of every later one. No path is reported twice. -/
theorem Follows.backups_immutable {t : Tree} {rounds : List Round} (follows : Follows [] t rounds) :
    (∀ earlier r later, rounds = earlier ++ r :: later → ∀ number result backup,
      r.results[number]? = some result → result.backupPath = some backup →
      ∃ dir source place content, r.backupDir? = some dir ∧
        (r.treeBefore number).resolve result.path = .ok (.file source content) ∧
        r.after.resolve backup = .ok (.file place content) ∧
        ∀ s ∈ later, s.after.node? place = some (.file content) ∧
          (s.after.isDirectory dir = true → s.after.resolve backup = .ok (.file place content))) ∧
    (rounds.flatMap backups).Nodup := by
  refine ⟨?_,follows.nodup_backups⟩
  rintro earlier r later rfl number result backup located backedUp
  obtain ⟨directories,t',suffix⟩ := follows.suffix
  cases suffix with
  | next edit applies rest =>
    have effect := applies.effect edit.formed edit.linkFree
    have free := effect.change.linkFree edit.linkFree
    obtain ⟨dir,c,parent,name,dir_eq,directory,path,inside,saved⟩ := effect.saved located backedUp
    refine ⟨dir,c.place,parent ++ [Text.bytes name],c.content,dir_eq,?_,saved.resolve,?_⟩
    · rw [path]
      exact inside.resolveFor .use
    · intro s member
      obtain ⟨_,kept⟩ := rest.held (held_of_saved free directory saved)
      obtain ⟨plain,_,held⟩ := kept s member
      exact ⟨held.found,held.resolve plain saved⟩

def firstSample : Round where
  start := .ofEntries [(["a.js"],.file (Text.bytes deprecatedMarker))]
  clock := .fixedAt ⟨0,0⟩
  given := { repoRoot := some ⟨"/"⟩, flags := { scanRoot := some ⟨"/"⟩, reportsDir := some ⟨"/"⟩ } }

/-- The same command in the same second, after the file has been edited. -/
def secondSample : Round :=
  { firstSample with start := firstSample.after.put [Text.bytes "a.js"] (.file (Text.bytes ("// " ++ deprecatedMarker))) }

theorem sample_applies {r : Round} (given : r.given = firstSample.given)
    (configured : Config.settings r.start r.given.flags r.given.repository =
      .ok { repoRoot := ⟨"/"⟩, scanRoot := ⟨"/"⟩, reportsDir := ⟨"/"⟩ }) : r.Applies where
  writes := by rw [given]; rfl
  beside := by rw [given]; rfl
  extension settings same := by
    rw [configured,Except.ok.injEq] at same
    subst same
    exact not_isIntegerLiteral (c := 'j') (by decide) (by decide) (by decide)

/-- The second of two commands in one second uses the run directory of the first, and another name in it. -/
theorem Follows.backups_immutable_sample : Follows [] firstSample.start [firstSample,secondSample] ∧
    firstSample.results[0]?.bind FileResult.backupPath = some ⟨"/backups-19700101_000000/a.js.backup.0"⟩ ∧
    (firstSample.backups ++ secondSample.backups).Nodup ∧
    ∃ place content, secondSample.after.node? place = some (.file content) ∧
      firstSample.after.resolve ⟨"/backups-19700101_000000/a.js.backup.0"⟩ = .ok (.file place content) := by
  have started : firstSample.start.WellFormed ∧ firstSample.start.LinkFree := by decide +kernel
  have first : Config.settings firstSample.start firstSample.given.flags firstSample.given.repository =
      .ok { repoRoot := ⟨"/"⟩, scanRoot := ⟨"/"⟩, reportsDir := ⟨"/"⟩ } := by decide +kernel
  have second : Config.settings secondSample.start secondSample.given.flags secondSample.given.repository =
      .ok { repoRoot := ⟨"/"⟩, scanRoot := ⟨"/"⟩, reportsDir := ⟨"/"⟩ } := by decide +kernel
  have ran : secondSample.start.WellFormed ∧ secondSample.start.LinkFree ∧
      firstSample.directory? = some [Text.bytes "backups-19700101_000000"] ∧
      firstSample.results[0]?.bind FileResult.backupPath = some ⟨"/backups-19700101_000000/a.js.backup.0"⟩ := by
    decide +kernel
  obtain ⟨formed,free,directory,reported⟩ := ran
  have edited : secondSample.start =
    firstSample.after.put [Text.bytes "a.js"] (.file (Text.bytes ("// " ++ deprecatedMarker))) := rfl
  have edit : Edit (firstSample.directory?.toList ++ []) firstSample.after secondSample.start := by
    refine ⟨by rw [edited,Tree.home_put],formed,free,?_⟩
    intro place member below
    obtain rfl : place = [Text.bytes "backups-19700101_000000"] := by
      rw [directory] at member
      simpa using member
    rw [edited]
    refine Tree.node?_put_other _ _ ?_
    intro same
    have names := (List.cons.inj same).1
    exact absurd names (by decide +kernel)
  have follows : Follows [] firstSample.start [firstSample,secondSample] :=
    .next ⟨rfl,started.1,started.2,by simp⟩ (sample_applies rfl first) (.next edit (sample_applies rfl second) .done)
  have immutable := follows.backups_immutable
  obtain ⟨result,located,backedUp⟩ := Option.bind_eq_some_iff.mp reported
  obtain ⟨_,_,place,content,_,_,resolved,later⟩ :=
    immutable.1 [] firstSample [secondSample] rfl 0 result _ located backedUp
  refine ⟨follows,reported,?_,place,content,(later secondSample List.mem_cons_self).1,resolved⟩
  have distinct := immutable.2
  rwa [List.flatMap_cons,List.flatMap_cons,List.flatMap_nil,List.append_nil] at distinct

end Round

end ErrorMigration
