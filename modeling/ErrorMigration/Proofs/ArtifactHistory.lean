import ErrorMigration.Proofs.RunFrame
import ErrorMigration.Proofs.RunNames

/-! The files of a run over many runs. A run writes its files where their paths lead in the end; so what an earlier run
has left stays until a later one uses the same place, or migrates it as a candidate. Without links the place tells the
run directory, and its name tells the second the run began in: the files are replaced by a run of the same second, and
by no other. -/
namespace ErrorMigration

namespace Tree

variable {t : Tree}

def isFile (t : Tree) (p : Path) : Bool :=
  match t.resolve p with
  | .ok (.file _ _) => true
  | _ => false

theorem exists_of_isFile {p : Path} (file : t.isFile p = true) :
    ∃ place content, t.resolve p = .ok (.file place content) := by
  unfold isFile at file
  split at file
  · exact ⟨_,_,‹_›⟩
  · contradiction

/-- In a tree without links a file that a joined path leads to has the joined name. -/
theorem LinkFree.place_of_resolve (free : t.LinkFree) {dir : Path} {name : String} (entry : Path.IsEntryName name)
    {place : Place} {content : List UInt8} (resolved : t.resolve (dir.joinName name) = .ok (.file place content)) :
    ∃ parent, t.joinPlace? dir = some parent ∧ place = parent ++ [Text.bytes name] := by
  obtain ⟨parent,_,leads,target,_⟩ := (free.noLinksIn dir).resolveFor_joinName entry (resolveFor_of_file resolved)
  exact ⟨parent,leads,target place content rfl⟩

/-- In a tree without links two names in a directory do not lead to one file. -/
theorem LinkFree.name_of_resolve (free : t.LinkFree) {dir : Path} {name name' : String}
    (entry : Path.IsEntryName name) (entry' : Path.IsEntryName name') {place : Place} {content content' : List UInt8}
    (resolved : t.resolve (dir.joinName name) = .ok (.file place content))
    (resolved' : t.resolve (dir.joinName name') = .ok (.file place content')) : name = name' := by
  obtain ⟨parent,_,rfl⟩ := free.place_of_resolve entry resolved
  obtain ⟨parent',_,same⟩ := free.place_of_resolve entry' resolved'
  have lasts := (List.append_inj' same (by simp only [List.length_singleton])).2
  simpa only [List.cons.injEq,and_true,Text.bytes_inj] using lasts

end Tree

namespace Artifacts

def contents (outcome : Outcome) : List (String × String) :=
  [("report.json",outcome.report.prettyText),("report.md",outcome.report.markdown),
    ("patch.diff",String.ofList outcome.patch)]

theorem map_fst_contents (outcome : Outcome) : (contents outcome).map Prod.fst = names := rfl

def storeAll (dir : Path) : List (String × String) → FileTask StoreError Unit
  | [] => pure ()
  | (name,text) :: rest => do
    store (dir.joinName name) text
    storeAll dir rest

theorem write_eq_storeAll (outcome : Outcome) (dir : Path) :
    write outcome dir = (FileTask.makeDirectories dir).orElseError (.makingDirectory dir) >>= fun _ =>
      storeAll dir (contents outcome) := by
  simp [write,contents,storeAll]

/-- In the tree one of the names in the directory leads to a file at the place. -/
def Leads (dir : Path) (names : List String) (t : Tree) (place : Place) : Prop :=
  ∃ name ∈ names, ∃ content, t.resolve (dir.joinName name) = .ok (.file place content)

variable {rewritable addable : Place → Prop} {t t' : Tree} {dir : Path} {place : Place}

theorem Leads.becomes {names : List String} (leads : Leads dir names t place) (change : t.Becomes rewritable addable t') :
    Leads dir names t' place := by
  obtain ⟨name,member,content,resolved⟩ := leads
  obtain ⟨after,found⟩ := change.file (Tree.node?_of_resolve resolved)
  exact ⟨name,member,after,Tree.resolve_file_becomes change resolved found⟩

theorem Leads.mono {names names' : List String} (leads : Leads dir names t place) (more : names ⊆ names') :
    Leads dir names' t place := by
  obtain ⟨name,member,content,resolved⟩ := leads
  exact ⟨name,more member,content,resolved⟩

/-- A text is stored where its path leads then. -/
theorem store_becomes_leads (dir : Path) (name text : String) (t : Tree) :
    t.Becomes (Leads dir [name] (store (dir.joinName name) text t).2) (fun _ => True)
      (store (dir.joinName name) text t).2 := by
  rcases store_apply (dir.joinName name) text t with same | written
  · rw [same]
    exact makeParent_becomes _ t
  · obtain ⟨place,_,change,resolved⟩ := Tree.resolve_of_write written
    refine (makeParent_becomes _ t).trans (change.mono ?_ fun _ _ => trivial)
    rintro _ rfl
    exact ⟨name,List.mem_singleton_self name,_,resolved⟩

theorem storeAll_becomes_leads (dir : Path) (entries : List (String × String)) (t : Tree) :
    t.Becomes (Leads dir (entries.map Prod.fst) (storeAll dir entries t).2) (fun _ => True)
      (storeAll dir entries t).2 := by
  induction entries generalizing t with
  | nil => exact .refl t
  | cons entry rest ih =>
    obtain ⟨name,text⟩ := entry
    have first := store_becomes_leads dir name text t
    rw [storeAll,FileTask.bind_apply]
    generalize store (dir.joinName name) text t = stored at first
    rcases stored with ⟨error | _,between⟩
    · exact first.mono (fun _ leads => leads.mono (by simp)) fun _ _ => trivial
    · have later := ih between
      refine (first.mono ?_ fun _ _ => trivial).trans (later.mono ?_ fun _ _ => trivial)
      · exact fun _ leads => (leads.becomes later).mono (by simp)
      · exact fun _ leads => leads.mono (List.subset_cons_self _ _)

/-- The files of a run are written where their paths lead in the end. -/
theorem write_becomes_leads (outcome : Outcome) (dir : Path) (t : Tree) :
    t.Becomes (Leads dir names (write outcome dir t).2) (fun _ => True) (write outcome dir t).2 := by
  rw [write_eq_storeAll,FileTask.bind_apply,FileTask.orElseError_apply]
  have directories (rewritable : Place → Prop) :
      t.Becomes rewritable (fun _ => True) (FileTask.makeDirectories dir t).2 :=
    Tree.makeAll_becomes _ _ t dir.ancestors
  generalize FileTask.makeDirectories dir t = made at directories
  rcases made with ⟨error | _,between⟩
  · exact directories _
  · exact (directories _).trans (storeAll_becomes_leads dir (contents outcome) between)

/-- Texts that are stored under different names in a tree without links are all there in the end. -/
theorem resolve_of_storeAll {entries : List (String × String)} (free : t'.LinkFree)
    (legal : ∀ entry ∈ entries, Path.IsEntryName entry.1) (distinct : (entries.map Prod.fst).Nodup)
    (stored : storeAll dir entries t = (.ok (),t')) {name text : String} (member : (name,text) ∈ entries) :
    ∃ place, t'.resolve (dir.joinName name) = .ok (.file place (Text.bytes text)) := by
  induction entries generalizing t with
  | nil => simp at member
  | cons entry rest ih =>
    obtain ⟨_,between,first,later⟩ := FileTask.bind_eq_ok_iff.mp stored
    simp only [List.map_cons,List.nodup_cons] at distinct
    rcases List.mem_cons.mp member with rfl | member
    · obtain ⟨_,_,_,written⟩ := FileTask.bind_eq_ok_iff.mp first
      rw [FileTask.orElseError_eq_ok_iff,FileTask.writeFile_eq_ok_iff] at written
      obtain ⟨place,_,_,resolved⟩ := Tree.resolve_of_write written
      have change := storeAll_becomes_leads dir rest between
      rw [later] at change
      have legalName := legal (name,text) List.mem_cons_self
      -- a later text has another name, and so another place
      have apart : ¬ Leads dir (rest.map Prod.fst) t' place := by
        rintro ⟨other,among,content,resolvedOther⟩
        obtain ⟨after,found⟩ := change.file (Tree.node?_of_resolve resolved)
        obtain ⟨entry,inside,rfl⟩ := List.mem_map.mp among
        have same := free.name_of_resolve legalName (legal entry (List.mem_cons_of_mem _ inside))
          (Tree.resolve_file_becomes change resolved found) resolvedOther
        rw [same] at distinct
        exact distinct.1 among
      exact ⟨place,Tree.resolve_file_becomes change resolved (change.kept (Tree.node?_of_resolve resolved) apart)⟩
    · exact ih (fun entry inside => legal entry (List.mem_cons_of_mem _ inside)) distinct.2 later member

/-- A run whose files were all written has left its own texts. -/
theorem resolve_of_write {outcome : Outcome} (free : t'.LinkFree) (written : write outcome dir t = (.ok (),t'))
    {name text : String} (member : (name,text) ∈ contents outcome) :
    ∃ place, t'.resolve (dir.joinName name) = .ok (.file place (Text.bytes text)) := by
  rw [write_eq_storeAll] at written
  obtain ⟨_,_,_,stored⟩ := FileTask.bind_eq_ok_iff.mp written
  refine resolve_of_storeAll free ?_ (by rw [map_fst_contents]; decide) stored member
  exact fun entry inside => entry_of_mem_names (map_fst_contents outcome ▸ List.mem_map_of_mem inside)

end Artifacts

namespace Round

/-- One of the files that the command leaves stands at the place. -/
def Uses (r : Round) (place : Place) : Prop :=
  ∃ dir, r.backupDir? = some dir ∧ Artifacts.Leads dir Artifacts.names r.after place

/-- The command has changed the file at the place, as one of its candidates. -/
def Rewrites (r : Round) (place : Place) : Prop :=
  ∃ result ∈ r.results, (result.status = .complete ∨ result.status = .incomplete) ∧
    ∃ content, r.after.resolve result.path = .ok (.file place content)

/-- The command has written all its files. -/
def Stores (r : Round) (outcome : Outcome) : Prop :=
  ∃ migration dir swept, r.ended.1 = .ok migration ∧ migration.outcome = outcome ∧ r.backupDir? = some dir ∧
    Artifacts.write outcome dir swept = (.ok (),r.after)

/-- A command that has written all its files has left its own text at a place that it uses. -/
theorem Stores.node?_of_uses {r : Round} {outcome : Outcome} (stores : r.Stores outcome) (free : r.after.LinkFree)
    {place : Place} (uses : r.Uses place) {name text : String} (last : place.getLast? = some (Text.bytes name))
    (member : (name,text) ∈ Artifacts.contents outcome) : r.after.node? place = some (.file (Text.bytes text)) := by
  obtain ⟨_,_,_,_,rfl,reported,written⟩ := stores
  obtain ⟨_,reported',used,artifact,_,leads⟩ := uses
  rw [reported,Option.some.injEq] at reported'
  subst reported'
  obtain ⟨parent,_,rfl⟩ := free.place_of_resolve (Artifacts.entry_of_mem_names artifact) leads
  obtain rfl : used = name := by simpa [Text.bytes_inj] using last
  obtain ⟨own,resolved⟩ := Artifacts.resolve_of_write free written member
  rw [resolved] at leads
  cases leads
  exact Tree.node?_of_resolve resolved

namespace Phases

variable {r : Round} {settings : Settings} {outcome : Outcome} {found : List Candidate} {ledger : Ledger}
  {made swept : Tree} {place : Place} {content : List UInt8}

theorem artifacts (phases : r.Phases settings outcome found ledger made swept) :
    swept.Becomes (Artifacts.Leads (settings.runDir (r.clock 0)) Artifacts.names r.after) (fun _ => True) r.after := by
  rw [phases.left]
  exact Artifacts.write_becomes_leads outcome _ swept

theorem becomes (phases : r.Phases settings outcome found ledger made swept) :
    r.start.Becomes (fun _ => True) (fun _ => True) r.after :=
  (phases.directories.mono (by simp) (by simp)).trans
    ((phases.run.sweep.becomes.mono (by simp) (by simp)).trans (phases.artifacts.mono (by simp) (by simp)))

/-- A command changes a file as one of its candidates or as one of the files it leaves, and else not at all. -/
theorem kept (phases : r.Phases settings outcome found ledger made swept)
    (old : r.start.node? place = some (.file content)) (unused : ¬ r.Uses place) (unwritten : ¬ r.Rewrites place) :
    r.after.node? place = some (.file content) := by
  have there := phases.directories.kept old not_false
  have notLeft : ¬ Artifacts.Leads (settings.runDir (r.clock 0)) Artifacts.names r.after place :=
    fun leads => unused ⟨_,phases.backupDir,leads⟩
  refine phases.artifacts.kept ?_ notLeft
  by_cases candidate : place ∈ found.map Candidate.place
  · obtain ⟨c,member,rfl⟩ := List.mem_map.mp candidate
    have inside := phases.run.inside c member
    obtain ⟨result,reported,recorded⟩ :=
      Run.exists_of_mem_right (phases.run.sweep.records phases.run.apart).flip member
    obtain ⟨after,foundAfter,agrees⟩ := Run.Records.agrees recorded
    rw [inside.found,Option.some.injEq,Node.file.injEq] at there
    rcases agrees with ⟨changed,_⟩ | ⟨_,same⟩
    · have addressed := (inside.addressed.becomes phases.run.sweep.becomes).becomes phases.artifacts
      have leads := addressed.resolveFor_file (phases.artifacts.kept foundAfter notLeft) .use
      rw [← recorded.1] at leads
      exact absurd ⟨result,phases.results ▸ reported,changed,after,leads⟩ unwritten
    · rw [foundAfter,same,there]
  · exact phases.run.sweep.becomes.kept there candidate

theorem resolve_kept (phases : r.Phases settings outcome found ledger made swept) {p : Path}
    (leads : r.start.resolve p = .ok (.file place content)) (unused : ¬ r.Uses place) (unwritten : ¬ r.Rewrites place) :
    r.after.resolve p = .ok (.file place content) :=
  Tree.resolve_file_becomes phases.becomes leads (phases.kept (Tree.node?_of_resolve leads) unused unwritten)

/-- Without links, the files of a command stand in its run directory, which is named for the second. -/
theorem place_of_uses (phases : r.Phases settings outcome found ledger made swept) (free : r.after.LinkFree)
    (uses : r.Uses place) :
    ∃ above, ∃ name ∈ Artifacts.names, r.directory? = some (above ++ [Text.bytes ("backups-" ++ (r.clock 0).stamp)]) ∧
      place = above ++ [Text.bytes ("backups-" ++ (r.clock 0).stamp)] ++ [Text.bytes name] := by
  obtain ⟨_,reported,name,member,_,resolved⟩ := uses
  rw [phases.backupDir,Option.some.injEq] at reported
  subst reported
  obtain ⟨parent,leads,rfl⟩ := free.place_of_resolve (Artifacts.entry_of_mem_names member) resolved
  have spelled := Tree.joinPlace?_eq_lexical free leads
  rw [Tree.joinPlace?,if_neg (runDir_spelling settings (r.clock 0))] at leads
  rw [Settings.runDir,Tree.plainSteps_joinName _ (entry_runDir _),Tree.lexical_append,Tree.lexical,
    Tree.lexical] at spelled
  refine ⟨_,name,member,?_,by rw [← spelled]⟩
  rw [directory?,phases.backupDir,Option.bind_some,leads,← spelled]

/-- Two commands that use one place in trees without links have one run directory and one second. -/
theorem same_second (phases : r.Phases settings outcome found ledger made swept) (free : r.after.LinkFree)
    (uses : r.Uses place) {s : Round} {settings' : Settings} {outcome' : Outcome} {found' : List Candidate}
    {ledger' : Ledger} {made' swept' : Tree} (phases' : s.Phases settings' outcome' found' ledger' made' swept')
    (free' : s.after.LinkFree) (uses' : s.Uses place) :
    s.directory? = r.directory? ∧ (s.clock 0).seconds = (r.clock 0).seconds := by
  obtain ⟨above,name,_,directory,place_eq⟩ := phases.place_of_uses free uses
  obtain ⟨above',name',_,directory',place_eq'⟩ := phases'.place_of_uses free' uses'
  rw [place_eq] at place_eq'
  obtain ⟨same,_⟩ := List.append_inj' place_eq' (by simp only [List.length_singleton])
  obtain ⟨_,lasts⟩ := List.append_inj' same (by simp only [List.length_singleton])
  simp only [List.cons.injEq,and_true,Text.bytes_inj,String.append_right_inj] at lasts
  exact ⟨by rw [directory',directory,same],Moment.seconds_eq_of_stamp_eq lasts.symm⟩

end Phases

/-- Commands one after the other, each in the tree that the one before it has left. They write, leave their files
beside the backups and are completed. -/
inductive Succession : Tree → List Round → Prop where
  | done {t : Tree} : Succession t []
  | next {t : Tree} {r : Round} {rest : List Round} (start : r.start = t) (formed : t.WellFormed)
      (writes : r.given.dryRun = false) (beside : r.given.outDir = none) (completed : r.report?.isSome = true)
      (later : Succession r.after rest) : Succession t (r :: rest)

namespace Succession

variable {t : Tree} {rounds : List Round} {p : Path} {place : Place} {content : List UInt8}

theorem suffix {earlier later : List Round} (succession : Succession t (earlier ++ later)) :
    ∃ t', Succession t' later ∧ t.Becomes (fun _ => True) (fun _ => True) t' := by
  induction earlier generalizing t with
  | nil => exact ⟨t,succession,.refl t⟩
  | cons r earlier ih =>
    cases succession with
    | next start formed writes beside completed rest =>
      subst start
      obtain ⟨t',suffix,change⟩ := ih rest
      obtain ⟨_,_,_,_,_,_,phases⟩ := exists_phases formed writes beside completed
      exact ⟨t',suffix,phases.becomes.trans change⟩

/-- What holds at each command of a succession. -/
theorem phases {r : Round} (succession : Succession t rounds) (member : r ∈ rounds) :
    (∃ settings outcome found ledger made swept, r.Phases settings outcome found ledger made swept) ∧
    t.Becomes (fun _ => True) (fun _ => True) r.after := by
  obtain ⟨earlier,later,rfl⟩ := List.append_of_mem member
  obtain ⟨t',suffix,change⟩ := succession.suffix
  cases suffix with
  | next start formed writes beside completed rest =>
    subst start
    obtain ⟨_,_,_,_,_,_,phases⟩ := exists_phases formed writes beside completed
    exact ⟨⟨_,_,_,_,_,_,phases⟩,change.trans phases.becomes⟩

/-- A file stays as long as no command uses its place or changes it. -/
theorem kept {between rest : List Round} {s : Round} (succession : Succession t (between ++ s :: rest))
    (leads : t.resolve p = .ok (.file place content))
    (quiet : ∀ u ∈ between ++ [s], ¬ u.Uses place ∧ ¬ u.Rewrites place) :
    s.after.resolve p = .ok (.file place content) := by
  induction between generalizing t with
  | nil =>
    obtain ⟨⟨_,_,_,_,_,_,phases⟩,_⟩ := succession.phases List.mem_cons_self
    cases succession with
    | next start =>
      subst start
      obtain ⟨unused,unwritten⟩ := quiet s (List.mem_append_right _ (List.mem_singleton_self s))
      exact phases.resolve_kept leads unused unwritten
  | cons u between ih =>
    obtain ⟨⟨_,_,_,_,_,_,phases⟩,_⟩ := succession.phases List.mem_cons_self
    cases succession with
    | next start _ _ _ _ later =>
      subst start
      obtain ⟨unused,unwritten⟩ := quiet u List.mem_cons_self
      exact ih later (phases.resolve_kept leads unused unwritten) fun v member => quiet v (List.mem_cons_of_mem _ member)

/-- The files of a run stay until a later run of the succession uses their place or changes them as its candidates.
In a tree without links a run that uses the place has the same run directory and began in the same second; if it has
written all its files, its own text has replaced the older one. -/
theorem artifacts_kept {earlier later : List Round} {r : Round} (succession : Succession t rounds)
    (split : rounds = earlier ++ r :: later) {dir : Path} {name : String} (reported : r.backupDir? = some dir)
    (artifact : name ∈ Artifacts.names) (leads : r.after.resolve (dir.joinName name) = .ok (.file place content)) :
    (∀ between s rest, later = between ++ s :: rest →
      (∀ u ∈ between ++ [s], ¬ u.Uses place ∧ ¬ u.Rewrites place) →
      s.after.resolve (dir.joinName name) = .ok (.file place content)) ∧
    (t.LinkFree → ∀ s ∈ r :: later, s.Uses place →
      s.directory? = r.directory? ∧ (s.clock 0).seconds = (r.clock 0).seconds ∧
      ∀ outcome text, s.Stores outcome → (name,text) ∈ Artifacts.contents outcome →
        s.after.resolve (dir.joinName name) = .ok (.file place (Text.bytes text))) := by
  subst split
  obtain ⟨t',suffix,change⟩ := succession.suffix
  cases suffix with
  | next start formed writes beside completed rest =>
  refine ⟨?_,?_⟩
  · rintro between s rest' rfl quiet
    exact rest.kept leads quiet
  · intro free s member uses
    obtain ⟨⟨_,_,_,_,_,_,phases⟩,become⟩ := succession.phases (List.mem_append_right _ List.mem_cons_self)
    obtain ⟨⟨_,_,_,_,_,_,phases'⟩,become'⟩ := succession.phases (List.mem_append_right _ member)
    have used : r.Uses place := ⟨dir,reported,name,artifact,content,leads⟩
    obtain ⟨directory,second⟩ :=
      phases.same_second (become.linkFree free) used phases' (become'.linkFree free) uses
    refine ⟨directory,second,fun outcome text stores member' => ?_⟩
    obtain ⟨parent,_,place_eq⟩ :=
      (become.linkFree free).place_of_resolve (Artifacts.entry_of_mem_names artifact) leads
    have own := stores.node?_of_uses (become'.linkFree free) uses (by simp [place_eq]) member'
    have between : r.after.Becomes (fun _ => True) (fun _ => True) s.after := by
      rcases List.mem_cons.mp member with rfl | later
      · exact .refl _
      · exact (rest.phases later).2
    exact Tree.resolve_file_becomes between leads own

/-- The same command once more, in the tree that it has left. -/
def again (r : Round) (clock : Clock) : Round := ⟨r.after,clock,r.given⟩

theorem again_start (r : Round) (clock : Clock) : (again r clock).start = r.after := by simp only [again]

theorem again_given (r : Round) (clock : Clock) : (again r clock).given = r.given := by simp only [again]

/-- The command of the sample, once more in the next second, and once more in the same. -/
theorem callSample_again :
    (callSample.start.WellFormed ∧ callSample.start.LinkFree ∧ callSample.after.WellFormed ∧
      callSample.report?.isSome = true ∧ callSample.backupDir? = some ⟨"/backups-19700101_000000"⟩ ∧
      callSample.after.isFile ⟨"/backups-19700101_000000/report.md"⟩ = true) ∧
    (again callSample (.fixedAt ⟨1,0⟩)).report?.map Report.results = some [] ∧
    (again callSample callSample.clock).report?.isSome = true ∧
    (again callSample callSample.clock).directory? = callSample.directory? ∧
    callSample.after.node? [Text.bytes "backups-19700101_000000",Text.bytes "report.md"] ≠
      (again callSample callSample.clock).after.node?
        [Text.bytes "backups-19700101_000000",Text.bytes "report.md"] := by decide +kernel

theorem pair_of_again (clock : Clock) (completed : (again callSample clock).report?.isSome = true) :
    Succession callSample.start [callSample,again callSample clock] := by
  have first := callSample_again.1
  have rest : Succession callSample.after [again callSample clock] :=
    .next (again_start _ _) first.2.2.1 (by rw [again_given]; rfl) (by rw [again_given]; rfl) completed .done
  exact .next rfl first.1 rfl rfl first.2.2.2.1 rest

theorem artifacts_kept_sample :
    ∃ place content, callSample.after.resolve ⟨"/backups-19700101_000000/report.md"⟩ = .ok (.file place content) ∧
      (again callSample (.fixedAt ⟨1,0⟩)).after.resolve ⟨"/backups-19700101_000000/report.md"⟩ =
        .ok (.file place content) := by
  have first := callSample_again.1
  have later := callSample_again.2.1
  obtain ⟨place,content,leads⟩ := Tree.exists_of_isFile first.2.2.2.2.2
  have succession := pair_of_again (.fixedAt ⟨1,0⟩) (by
    rw [Option.map_eq_some_iff] at later
    obtain ⟨_,completed,_⟩ := later
    rw [completed]
    rfl)
  have untouched : (again callSample (.fixedAt ⟨1,0⟩)).results = [] := by rw [results,later]; rfl
  have seconds : ((again callSample (.fixedAt ⟨1,0⟩)).clock 0).seconds ≠ (callSample.clock 0).seconds := by decide
  have artifact : "report.md" ∈ Artifacts.names := by decide
  have history := succession.artifacts_kept (List.nil_append _).symm first.2.2.2.2.1 artifact leads
  refine ⟨place,content,leads,history.1 [] _ [] rfl fun u member => ?_⟩
  rw [List.mem_singleton.mp member]
  refine ⟨fun uses => ?_,?_⟩
  · exact seconds (history.2 first.2.1 _ (by simp) uses).2.1
  · rintro ⟨result,listed,_⟩
    simp [untouched] at listed

theorem artifacts_lost :
    Succession callSample.start [callSample,again callSample callSample.clock] ∧
    (again callSample callSample.clock).directory? = callSample.directory? ∧
    callSample.after.node? [Text.bytes "backups-19700101_000000",Text.bytes "report.md"] ≠
      (again callSample callSample.clock).after.node?
        [Text.bytes "backups-19700101_000000",Text.bytes "report.md"] :=
  ⟨pair_of_again _ callSample_again.2.2.1,callSample_again.2.2.2⟩

end Succession

end Round

end ErrorMigration
