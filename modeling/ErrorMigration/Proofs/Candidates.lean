import ErrorMigration.Candidates
import ErrorMigration.Proofs.Files.Order
import ErrorMigration.Proofs.Files.Resolution

/-! The candidates of a tree. Each candidate is a file of its own, and its path leads to that file by way of
real directories, in this tree and in every tree that this one becomes. -/
namespace ErrorMigration

namespace Tree

theorem WellFormed.directory_above {t : Tree} (formed : t.WellFormed) {place : Place} {names : List Name} {node : Node}
    (found : t.node? (place ++ names) = some node) (below : names ≠ []) : t.node? place = some .directory := by
  induction names using List.reverseRecOn generalizing node with
  | nil => contradiction
  | append_singleton names name ih =>
    rw [← List.append_assoc] at found
    have parent := formed.parent found
    by_cases last : names = []
    · simpa [last] using parent
    · exact ih parent last

/-- Down to an entry of a well-formed tree every step leads through a directory. -/
theorem WellFormed.reaches_down {t : Tree} (formed : t.WellFormed) {place : Place} {names : List Name} {last : Name}
    {node : Node} (found : t.node? (place ++ names ++ [last]) = some node) (links : Nat) :
    Reaches t links place (names.map .down) (place ++ names) links := by
  induction names generalizing place with
  | nil => simpa using Reaches.done
  | cons name names ih =>
    have found' : t.node? (place ++ [name] ++ names ++ [last]) = some node := by simpa using found
    have below : t.node? (place ++ [name] ++ (names ++ [last])) = some node := by simpa using found'
    have legal := formed.legal found name (by simp)
    rw [List.map_cons,List.append_cons]
    exact .down legal.short (formed.directory_above below (by simp)) (ih found')

end Tree

namespace Path

/-- What each of the joined names adds at the end. -/
theorem foldl_joinName_eq {α : Type} {parts : Path → List α} {part : String → α}
    (step : ∀ (left : Path) {name : String}, IsEntryName name → parts (left.joinName name) = parts left ++ [part name])
    {texts : List String} (entries : ∀ text ∈ texts, IsEntryName text) (root : Path) :
    parts (texts.foldl joinName root) = parts root ++ texts.map part := by
  induction texts generalizing root with
  | nil => simp
  | cons text texts ih =>
    rw [List.foldl_cons,ih (fun other member => entries other (List.mem_cons_of_mem _ member)),
      step root (entries text List.mem_cons_self)]
    simp

theorem components_foldl_joinName {texts : List String} (entries : ∀ text ∈ texts, IsEntryName text) (root : Path) :
    (texts.foldl joinName root).components = root.components ++ texts.map .name :=
  foldl_joinName_eq components_joinName entries root

theorem plainSteps_foldl_joinName {texts : List String} (entries : ∀ text ∈ texts, IsEntryName text) (root : Path) :
    Tree.plainSteps (texts.foldl joinName root) =
      Tree.plainSteps root ++ texts.map fun text => .down (Text.bytes text) :=
  foldl_joinName_eq Tree.plainSteps_joinName entries root

theorem startOf_foldl_joinName {texts : List String} (entries : ∀ text ∈ texts, IsEntryName text) (root : Path)
    (t : Tree) : t.startOf (texts.foldl joinName root) = t.startOf root := by
  induction texts generalizing root with
  | nil => rfl
  | cons text texts ih =>
    rw [List.foldl_cons,ih (fun other member => entries other (List.mem_cons_of_mem _ member)),
      Tree.startOf_joinName t root (entries text List.mem_cons_self)]

end Path

namespace Candidates

theorem pathBelow?_eq_some_iff {root path : Path} {names : List Name} : pathBelow? root names = some path ↔
    ∃ texts : List String, texts.map Text.bytes = names ∧ texts.foldl Path.joinName root = path := by
  unfold pathBelow?
  induction names generalizing root with
  | nil => simp [eq_comm]
  | cons name names ih =>
    simp only [List.foldlM_cons,Option.bind_eq_bind,Option.bind_eq_some_iff,Option.map_eq_some_iff,
      Text.ofBytes?_eq_some_iff,ih]
    constructor
    · rintro ⟨_,⟨text,rfl,rfl⟩,texts,rfl,rfl⟩
      exact ⟨text :: texts,rfl,rfl⟩
    · rintro ⟨_ | ⟨text,texts⟩,encoded,joined⟩
      · simp at encoded
      · simp only [List.map_cons,List.cons.injEq] at encoded
        exact ⟨_,⟨text,encoded.1,rfl⟩,texts,encoded.2,joined⟩

theorem throughDirectories_of_wellFormed {t : Tree} (formed : t.WellFormed) {place : Place} {names : List Name}
    {node : Node} (found : t.node? (place ++ names) = some node) : throughDirectories t place names = true := by
  induction names generalizing place with
  | nil => rfl
  | cons name names ih =>
    cases names with
    | nil => rfl
    | cons next names =>
      have found' : t.node? (place ++ [name] ++ (next :: names)) = some node := by simpa using found
      simp only [throughDirectories,Bool.and_eq_true,decide_eq_true_eq]
      exact ⟨formed.directory_above found' (by simp),ih found'⟩

theorem mem_filesBelow_iff {t : Tree} (formed : t.WellFormed) {root : Place} {names : List Name}
    {content : List UInt8} : (names,content) ∈ filesBelow t root ↔
      names ≠ [] ∧ t.node? (root ++ names) = some (.file content) := by
  unfold filesBelow
  rw [List.mem_filterMap]
  constructor
  · rintro ⟨⟨place,node⟩,member,taken⟩
    cases node with
    | directory => simp at taken
    | link target => simp at taken
    | file bytes =>
      simp only [Option.ite_none_right_eq_some,Bool.and_eq_true,List.isPrefixOf_iff_prefix,
        Bool.not_eq_true',Option.some.injEq,Prod.mk.injEq] at taken
      obtain ⟨⟨⟨⟨rest,rfl⟩,filled⟩,_⟩,rfl,rfl⟩ := taken
      simp only [List.drop_left,List.isEmpty_eq_false_iff] at filled ⊢
      exact ⟨filled,(t.mem_entries_iff (by simp [filled])).mp member⟩
  · rintro ⟨filled,found⟩
    refine ⟨(root ++ names,.file content),(t.mem_entries_iff (by simp [filled])).mpr found,?_⟩
    simp [filled,throughDirectories_of_wellFormed formed found]

theorem nodup_filesBelow (t : Tree) (root : Place) : (filesBelow t root).Nodup := by
  refine List.Nodup.filterMap ?_ t.nodup.of_map
  rintro ⟨place,node⟩ ⟨place',node'⟩ file taken taken'
  cases node <;> cases node' <;> simp_all
  obtain ⟨⟨⟨⟨rest,rfl⟩,_⟩,_⟩,rfl⟩ := taken
  obtain ⟨⟨⟨⟨rest',rfl⟩,_⟩,_⟩,same⟩ := taken'
  simp_all

/-- The files that a locator is to find below the directory at `base`, told by their names on the way down. -/
structure Matches (root : Path) (extension marker : String) (t : Tree) (base : Place) (texts : List String)
    (content : List UInt8) : Prop where
  below : texts ≠ []
  found : t.node? (base ++ texts.map Text.bytes) = some (.file content)
  extension : hasExtension extension (texts.foldl Path.joinName root) = true
  usable : Tree.unusable? (texts.foldl Path.joinName root) = none
  marked : holds marker content = true

theorem Matches.entries {root : Path} {extension marker : String} {t : Tree} {base : Place} {texts : List String}
    {content : List UInt8} (formed : t.WellFormed) (matched : Matches root extension marker t base texts content) :
    ∀ text ∈ texts, Path.IsEntryName text := fun text member =>
  (formed.legal matched.found (Text.bytes text)
    (List.mem_append_right _ (List.mem_map_of_mem member))).entry rfl

/-- The names on the way down are told by the path. -/
theorem texts_unique {root : Path} {texts texts' : List String} (entries : ∀ text ∈ texts, Path.IsEntryName text)
    (entries' : ∀ text ∈ texts', Path.IsEntryName text)
    (same : (texts.foldl Path.joinName root).components = (texts'.foldl Path.joinName root).components) :
    texts = texts' := by
  rw [Path.components_foldl_joinName entries,Path.components_foldl_joinName entries',
    List.append_cancel_left_eq] at same
  exact List.map_injective_iff.mpr (fun _ _ equal => by simpa using equal) same

theorem below_notDirectory {t : Tree} {root : Path} (missing : t.directoryAt? root = none)
    (extension marker : String) : below root extension marker t = .error (.notDirectory root) := by
  simp [below,missing]

def matchingPath? (root : Path) (extension marker : String) (file : List Name × List UInt8) : Option Path := do
  let path ← pathBelow? root file.1
  if hasExtension extension path && (Tree.unusable? path).isNone && holds marker file.2 then pure path
  else none

theorem matchingPath?_eq_some_iff {root path : Path} {extension marker : String} {file : List Name × List UInt8} :
    matchingPath? root extension marker file = some path ↔ ∃ texts : List String, texts.map Text.bytes = file.1 ∧
      texts.foldl Path.joinName root = path ∧ hasExtension extension path = true ∧ Tree.unusable? path = none ∧
      holds marker file.2 = true := by
  simp only [matchingPath?,Option.bind_eq_bind,Option.bind_eq_some_iff,pathBelow?_eq_some_iff,
    Option.ite_none_right_eq_some,Option.pure_def,Option.some.injEq,Bool.and_eq_true,Option.isNone_iff_eq_none]
  constructor
  · rintro ⟨_,⟨texts,encoded,rfl⟩,⟨⟨wanted,usable⟩,marked⟩,rfl⟩
    exact ⟨texts,encoded,rfl,wanted,usable,marked⟩
  · rintro ⟨texts,encoded,rfl,wanted,usable,marked⟩
    exact ⟨_,⟨texts,encoded,rfl⟩,⟨⟨wanted,usable⟩,marked⟩,rfl⟩

theorem mem_filterMap_matchingPath? {t : Tree} (formed : t.WellFormed) {root path : Path} {base : Place}
    {extension marker : String} : path ∈ (filesBelow t base).filterMap (matchingPath? root extension marker) ↔
      ∃ texts content, texts.foldl Path.joinName root = path ∧ Matches root extension marker t base texts content := by
  rw [List.mem_filterMap]
  constructor
  · rintro ⟨file,member,taken⟩
    obtain ⟨texts,encoded,rfl,wanted,usable,marked⟩ := matchingPath?_eq_some_iff.mp taken
    obtain ⟨below,found⟩ := (mem_filesBelow_iff formed).mp member
    rw [← encoded] at below found
    exact ⟨texts,file.2,rfl,by simpa using below,found,wanted,usable,marked⟩
  · rintro ⟨texts,content,rfl,matched⟩
    exact ⟨(texts.map Text.bytes,content),
      (mem_filesBelow_iff formed).mpr ⟨by simpa using matched.below,matched.found⟩,
      matchingPath?_eq_some_iff.mpr ⟨texts,rfl,rfl,matched.extension,matched.usable,matched.marked⟩⟩

/-- Two files below a directory have two paths. -/
theorem nodup_filterMap_matchingPath? {t : Tree} (formed : t.WellFormed) (root : Path) (base : Place)
    (extension marker : String) : ((filesBelow t base).filterMap (matchingPath? root extension marker)).Nodup := by
  refine List.pairwise_filterMap.mpr ((nodup_filesBelow t base).imp_of_mem ?_)
  rintro file file' member member' apart path taken _ taken' rfl
  obtain ⟨texts,encoded,joined,_⟩ := matchingPath?_eq_some_iff.mp taken
  obtain ⟨texts',encoded',joined',_⟩ := matchingPath?_eq_some_iff.mp taken'
  obtain ⟨_,found⟩ := (mem_filesBelow_iff formed).mp member
  obtain ⟨_,found'⟩ := (mem_filesBelow_iff formed).mp member'
  have entries : ∀ text ∈ texts, Path.IsEntryName text := fun text inside =>
    (formed.legal found _ (List.mem_append_right _ (encoded ▸ List.mem_map_of_mem inside))).entry rfl
  have entries' : ∀ text ∈ texts', Path.IsEntryName text := fun text inside =>
    (formed.legal found' _ (List.mem_append_right _ (encoded' ▸ List.mem_map_of_mem inside))).entry rfl
  have names : file.1 = file'.1 := by
    rw [← encoded,← encoded',texts_unique entries entries' (by rw [joined,joined'])]
  rw [← names,found,Option.some.injEq,Node.file.injEq] at found'
  exact apart (Prod.ext names found')

theorem below_of_directory {t : Tree} {root : Path} {base : Place} (directory : t.directoryAt? root = some base)
    (extension marker : String) : below root extension marker t =
      .ok (Path.sort ((filesBelow t base).filterMap (matchingPath? root extension marker))) := by
  simp only [below,directory]
  rfl

/-- The candidates of a tree: the sorted list of all matching files below the directory. -/
theorem below_directory {t : Tree} (formed : t.WellFormed) {root : Path} {base : Place}
    (directory : t.directoryAt? root = some base) (extension marker : String) :
    ∃ paths, below root extension marker t = .ok paths ∧ paths.Nodup ∧ (paths.Pairwise fun p q => p.key ≤ q.key) ∧
      ∀ path, path ∈ paths ↔ ∃ texts content, texts.foldl Path.joinName root = path ∧
        Matches root extension marker t base texts content := by
  have sorted := List.mergeSort_perm ((filesBelow t base).filterMap (matchingPath? root extension marker))
    fun p q => !q.precedes p
  refine ⟨_,below_of_directory directory extension marker,
    sorted.nodup_iff.mpr (nodup_filterMap_matchingPath? formed root base extension marker),
    Path.pairwise_sort _,fun path => sorted.mem_iff.trans (mem_filterMap_matchingPath? formed)⟩

/-- A sorted list of all matching files is what a locator finds. -/
theorem below_eq {t : Tree} (formed : t.WellFormed) {root : Path} {base : Place} {extension marker : String}
    (directory : t.directoryAt? root = some base) {paths : List Path} (nodup : paths.Nodup)
    (ordered : paths.Pairwise fun p q => p.key ≤ q.key)
    (members : ∀ path, path ∈ paths ↔ ∃ texts content, texts.foldl Path.joinName root = path ∧
      Matches root extension marker t base texts content) : below root extension marker t = .ok paths := by
  have permuted := (List.perm_ext_iff_of_nodup
    (nodup_filterMap_matchingPath? formed root base extension marker) nodup).mpr fun path =>
      (mem_filterMap_matchingPath? formed).trans (members path).symm
  rw [below_of_directory directory,Path.sort_eq permuted ordered]
  · intro p left q right same
    obtain ⟨texts,_,rfl,matched⟩ := (members p).mp left
    obtain ⟨texts',_,rfl,matched'⟩ := (members q).mp right
    rw [texts_unique (matched.entries formed) (matched'.entries formed) same]

/-- New directories bring in no candidates and take none away. -/
theorem below_becomes {t t' : Tree} (formed : t.WellFormed) (formed' : t'.WellFormed)
    (change : t.Becomes (fun _ => False) (fun _ => False) t') {root : Path} {base : Place}
    (directory : t.directoryAt? root = some base) (extension marker : String) :
    below root extension marker t' = below root extension marker t := by
  obtain ⟨paths,located,nodup,ordered,members⟩ := below_directory formed directory extension marker
  have same {texts : List String} {content : List UInt8} :
      Matches root extension marker t' base texts content ↔ Matches root extension marker t base texts content := by
    constructor
    · rintro ⟨below,found,suffix,usable,marked⟩
      exact ⟨below,change.file_iff.mp found,suffix,usable,marked⟩
    · rintro ⟨below,found,suffix,usable,marked⟩
      exact ⟨below,change.file_iff.mpr found,suffix,usable,marked⟩
  rw [located]
  refine below_eq formed' (Tree.directoryAt?_becomes change directory) nodup ordered fun path => ?_
  simp only [members path,same]

end Candidates

structure Candidate where
  path : Path
  parent : Place
  name : Name
  content : List UInt8

namespace Candidate

def place (c : Candidate) : Place := c.parent ++ [c.name]

/-- The path names the place of the candidate, and its content stands there. -/
structure In (c : Candidate) (t : Tree) : Prop where
  addressed : t.Addresses c.path c.parent c.name
  found : t.node? c.place = some (.file c.content)

theorem In.resolveFor {c : Candidate} {t : Tree} (inside : c.In t) (purpose : Tree.Purpose) :
    t.resolveFor purpose c.path = .ok (.file c.place c.content) :=
  inside.addressed.resolveFor_file inside.found purpose

/-- A candidate whose place is not rewritten stays one. -/
theorem In.becomes {c : Candidate} {rewritable addable : Place → Prop} {t t' : Tree} (inside : c.In t)
    (change : Tree.Becomes rewritable addable t t') (fixed : ¬ rewritable c.place) : c.In t' :=
  ⟨inside.addressed.becomes change,change.kept inside.found fixed⟩

end Candidate

namespace Candidates

def IsFound (root : Path) (extension marker : String) (t : Tree) (base : Place) (c : Candidate) : Prop :=
  ∃ texts, texts.foldl Path.joinName root = c.path ∧ base ++ texts.map Text.bytes = c.place ∧
    Matches root extension marker t base texts c.content

variable {root : Path} {extension marker : String} {t : Tree} {base : Place}

/-- A matching file is a candidate in the tree: its path leads down to it from the root of the search. -/
theorem Matches.candidate (formed : t.WellFormed) (directory : t.directoryAt? root = some base)
    {texts : List String} {content : List UInt8} (matched : Matches root extension marker t base texts content) :
    ∃ c : Candidate, c.path = texts.foldl Path.joinName root ∧ c.In t ∧ IsFound root extension marker t base c := by
  obtain ⟨init,last,rfl⟩ := (List.eq_nil_or_concat' texts).resolve_left matched.below
  have entries := matched.entries formed
  have found := matched.found
  have place : base ++ (init ++ [last]).map Text.bytes = base ++ init.map Text.bytes ++ [Text.bytes last] := by simp
  rw [place] at found
  have entry := entries last (by simp)
  have inner : ∀ text ∈ init, Path.IsEntryName text := fun text member => entries text (by simp [member])
  obtain ⟨_,left,reached⟩ := Tree.directoryAt?_eq_some_iff.mp directory
  have down := formed.reaches_down found left
  have path : (init ++ [last]).foldl Path.joinName root = (init.foldl Path.joinName root).joinName last := by simp
  refine ⟨⟨(init ++ [last]).foldl Path.joinName root,base ++ init.map Text.bytes,Text.bytes last,content⟩,rfl,
    ⟨⟨matched.usable,(formed.legal found _ (by simp)).short,?_⟩,found⟩,init ++ [last],rfl,place,matched⟩
  refine ⟨Tree.plainSteps root ++ init.map fun text => .down (Text.bytes text),left,?_,?_⟩
  · rw [path,Tree.steps_joinName _ entry,Path.plainSteps_foldl_joinName inner]
  · rw [Path.startOf_foldl_joinName entries]
    refine reached.append ?_
    simpa [Function.comp_def] using down

structure Listing (root : Path) (extension marker : String) (t : Tree) (base : Place) (found : List Candidate) :
    Prop where
  inside : ∀ c ∈ found, c.In t
  sound : ∀ c ∈ found, IsFound root extension marker t base c
  complete : ∀ texts content, Matches root extension marker t base texts content →
    texts.foldl Path.joinName root ∈ found.map Candidate.path
  unique : (found.map Candidate.path).Nodup
  ordered : (found.map Candidate.path).Pairwise fun p q => p.key ≤ q.key

namespace Listing

variable {found : List Candidate}

theorem marked (listing : Listing root extension marker t base found) :
    ∀ c ∈ found, holds marker c.content = true := by
  intro c member
  obtain ⟨_,_,_,matched⟩ := listing.sound c member
  exact matched.marked

/-- The place of a candidate tells its path. -/
theorem path_of_place (listing : Listing root extension marker t base found) {c : Candidate} (member : c ∈ found)
    {texts : List String} (place : base ++ texts.map Text.bytes = c.place) : c.path = texts.foldl Path.joinName root := by
  obtain ⟨texts',joined,encoded,_⟩ := listing.sound c member
  rw [← encoded,List.append_cancel_left_eq] at place
  rw [← joined,List.map_injective_iff.mpr Text.bytes_injective place]

/-- The place of a file that is to be found is that of a candidate. -/
theorem place_mem (listing : Listing root extension marker t base found) (formed : t.WellFormed) {texts : List String}
    {content : List UInt8} (matched : Matches root extension marker t base texts content) :
    base ++ texts.map Text.bytes ∈ found.map Candidate.place := by
  obtain ⟨c,member,path⟩ := List.mem_map.mp (listing.complete texts content matched)
  obtain ⟨texts',joined,encoded,matched'⟩ := listing.sound c member
  have same := texts_unique (matched'.entries formed) (matched.entries formed) (by rw [joined,path])
  exact List.mem_map.mpr ⟨c,member,by rw [← encoded,same]⟩

/-- Candidates with different paths are at different places. -/
theorem apart (listing : Listing root extension marker t base found) : (found.map Candidate.place).Nodup := by
  refine List.pairwise_map.mpr ((List.pairwise_map.mp listing.unique).imp_of_mem ?_)
  intro c c' member member' other place
  obtain ⟨texts,joined,encoded,_⟩ := listing.sound c member
  exact other (by rw [listing.path_of_place member' (encoded.trans place),joined])

theorem path_of_components (listing : Listing root extension marker t base found)
    (formed : t.WellFormed) : ∀ p ∈ found.map Candidate.path, ∀ q ∈ found.map Candidate.path,
      p.components = q.components → p = q := by
  intro p left q right same
  obtain ⟨c,member,rfl⟩ := List.mem_map.mp left
  obtain ⟨c',member',rfl⟩ := List.mem_map.mp right
  obtain ⟨texts,joined,_,matched⟩ := listing.sound c member
  obtain ⟨texts',joined',_,matched'⟩ := listing.sound c' member'
  rw [← joined,← joined'] at same ⊢
  rw [texts_unique (matched.entries formed) (matched'.entries formed) same]

end Listing

theorem exists_listing (extension marker : String) (formed : t.WellFormed) (directory : t.directoryAt? root = some base) :
    ∃ found : List Candidate, below root extension marker t = .ok (found.map Candidate.path) ∧
      Listing root extension marker t base found := by
  obtain ⟨paths,located,unique,ordered,members⟩ := below_directory formed directory extension marker
  have each : ∀ path ∈ paths, ∃ c : Candidate, c.path = path ∧ c.In t ∧ IsFound root extension marker t base c := by
    intro path member
    obtain ⟨texts,content,rfl,matched⟩ := (members path).mp member
    exact matched.candidate formed directory
  obtain ⟨found,rfl,all⟩ : ∃ found : List Candidate, found.map Candidate.path = paths ∧
      ∀ c ∈ found, c.In t ∧ IsFound root extension marker t base c := by
    have : Nonempty Candidate := ⟨⟨root,[],[],[]⟩⟩
    choose! pick picked using each
    refine ⟨paths.map pick,?_,?_⟩
    · rw [List.map_map]
      exact List.map_congr_left (fun path member => (picked path member).1) |>.trans (List.map_id _)
    · simp only [List.mem_map,forall_exists_index,and_imp]
      rintro _ path member rfl
      exact (picked path member).2
  exact ⟨found,located,fun c member => (all c member).1,fun c member => (all c member).2,
    fun texts content matched => (members _).mpr ⟨texts,content,rfl,matched⟩,unique,ordered⟩

end Candidates

end ErrorMigration
