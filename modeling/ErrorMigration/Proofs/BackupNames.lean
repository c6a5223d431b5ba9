import ErrorMigration.Proofs.FileAtomicity
import ErrorMigration.Proofs.Text.Digits

/-! The names of backups. The numbers are tried in order, so the one that is taken is the first whose name is free in the
directory. There is one in every directory of fewer than `2 ^ 32 - 1` entries, and a directory with more can take them
all. What is stored under a name stands at a place that was free, so no later backup gets the same name or changes what is
stored. -/
namespace ErrorMigration

namespace Tree

/-- A directory that is there is not made again, and nothing is missing above it. -/
theorem makeDirectory_of_isDirectory {t : Tree} {p : Path} (there : t.isDirectory p = true) :
    ∃ cause, t.makeDirectory p = .error cause ∧ cause ≠ .notFound := by
  obtain ⟨goal,found⟩ := Option.isSome_iff_exists.mp there
  obtain ⟨usable,left,reached⟩ := directoryAt?_eq_some_iff.mp found
  have whole := reached.walkLinks
  unfold makeDirectory
  rw [usable]
  cases ends : (plainSteps p).getLast? with
  | none => exact ⟨.exists,rfl,by decide⟩
  | some last =>
    rw [← List.dropLast_append_getLast? last ends] at whole
    obtain ⟨above,left',front⟩ := reaches_of_walkLinks_append (by simp) whole
    have upper : t.resolveSteps .use p (plainSteps p).dropLast = .ok (.directory above) := front.walkLinks
    rw [front.walkLinks_append (by simp),walkLinks_eq_ok_iff] at whole
    simp only [upper]
    cases whole with
    | down _ short found | link _ short found => exact ⟨.exists,by simp [Nat.not_lt.mpr short,found],by decide⟩
    | stay | slash | up => exact ⟨.exists,rfl,by decide⟩

/-- Nothing is made where a directory is already. -/
theorem makeAll_of_isDirectory {t : Tree} {p : Path} (there : t.isDirectory p = true) :
    t.makeAll p.ancestors = (.ok (),t) := by
  obtain ⟨above,chain⟩ := p.exists_ancestors_eq
  obtain ⟨cause,failed,other⟩ := makeDirectory_of_isDirectory there
  rw [chain,makeAll]
  split
  · rfl
  · simp only [failed]

end Tree

namespace BackupStore

/-- The tree in which a backup looks for a name: the directory is there. -/
def prepared (dir : Path) (t : Tree) : Tree := (t.makeAll dir.ancestors).2

theorem becomes_prepared (dir : Path) (t : Tree) : t.Becomes (fun _ => False) (fun _ => False) (prepared dir t) :=
  Tree.makeAll_becomes _ _ t dir.ancestors

/-- Where the directory is there, the name is looked for in the tree as it is. -/
theorem prepared_of_joinPlace? {dir : Path} {t : Tree} {place : Place} (there : t.joinPlace? dir = some place) :
    prepared dir t = t := by
  unfold Tree.joinPlace? at there
  unfold prepared
  split at there
  · rename_i empty
    obtain ⟨above,chain⟩ := dir.exists_ancestors_eq
    rw [chain,Tree.makeAll,if_pos empty]
  · rw [Tree.makeAll_of_isDirectory (Option.isSome_iff_exists.mpr ⟨place,there⟩)]

/-- In a directory without links the names are its entries: the first free name has none, and those before it have. -/
theorem FirstFree.entries {t : Tree} {dir : Path} {base : String} {number : Nat} {parent : Place} {name : Name}
    (first : FirstFree t dir base number) (entry : ∀ n, Path.IsEntryName (nthName base n)) (plain : t.NoLinksIn dir)
    (vacant : t.resolveFor .write (dir.joinName (nthName base number)) = .ok (.vacant parent name)) :
    t.joinPlace? dir = some parent ∧ name = Text.bytes (nthName base number) ∧
      ∀ earlier < number, ∃ node, t.node? (parent ++ [Text.bytes (nthName base earlier)]) = some node := by
  obtain ⟨goal,addressed,leads,_,last⟩ := plain.resolveFor_joinName (entry number) vacant
  obtain ⟨rfl,rfl⟩ := last _ _ rfl
  refine ⟨leads,rfl,fun earlier less => ?_⟩
  obtain ⟨other,left,node,reached,found⟩ := entry_of_isPresent (entry earlier) (first.taken earlier less)
  obtain ⟨_,_,_,again⟩ := Tree.addresses_of_resolve (entry number) vacant
  have same := Tree.joinPlace?_eq (entry number) addressed.usable again
  rw [leads,Option.some.injEq] at same
  rw [(reached.unique again).1,← same] at found
  exact ⟨node,found⟩

/-- What a backup has done when it gives back a path: the name is the first free one, the bytes of the source stand at a
place where nothing stood, and everything else is as it was but for directories that were missing. -/
structure Copied (dir source : Path) (now : Moment) (t : Tree) (dest : Path) (t' : Tree) (fileName : String)
    (number : Nat) (spot : Place) (content : List UInt8) : Prop where
  named : source.fileName? = some fileName
  path : dest = dir.joinName (nthName (baseName fileName now) number)
  first : FirstFree (prepared dir t) dir (baseName fileName now) number
  bounded : number ≤ lastNumber ∧ number ≤ (prepared dir t).entries.length
  entries : (prepared dir t).NoLinksIn dir → ∃ parent, (prepared dir t).joinPlace? dir = some parent ∧
    spot = parent ++ [Text.bytes (nthName (baseName fileName now) number)] ∧
    ∀ earlier < number, ∃ node,
      (prepared dir t).node? (parent ++ [Text.bytes (nthName (baseName fileName now) earlier)]) = some node
  absent : t.isPresent dest = false
  free : t.node? spot = none ∧ (prepared dir t).node? spot = none
  copy : ∃ place, t.node? place = some (.file content) ∧ t'.resolve source = .ok (.file place content) ∧
    t'.resolve dest = .ok (.file spot content)
  frame : t.Becomes (fun _ => False) (fun place => place = spot) t'

theorem copied_of_saveInto {dir source dest : Path} {now : Moment} {t t' : Tree}
    (saved : saveInto dir now source t = (.ok dest,t')) :
    ∃ fileName number spot content, Copied dir source now t dest t' fileName number spot content := by
  obtain ⟨fileName,made,named,ready,chosen,copied⟩ := saveInto_eq_ok saved
  obtain rfl : prepared dir t = made := by rw [prepared,ready]
  have entry := nthName_entry now named
  have directories := becomes_prepared dir t
  obtain ⟨number,bound,path,first⟩ := freePath_eq_ok entry chosen
  obtain ⟨place,content,resolved,written⟩ := Tree.copy_eq_ok copied
  have absent : (prepared dir t).isPresent dest = false := path ▸ first.free
  obtain ⟨parent,name,vacant,free,rfl⟩ := Tree.write_absent absent written
  have change : (prepared dir t).Becomes (fun _ => False) (fun place => place = parent ++ [name])
      ((prepared dir t).put (parent ++ [name]) (.file content)) := .put_added content free rfl
  refine ⟨fileName,number,parent ++ [name],content,named,path,first,⟨bound,first.le_length entry⟩,fun plain => ?_,
    Tree.isPresent_before directories absent,⟨directories.free free,free⟩,
    ⟨place,directories.file_iff.mp (Tree.node?_of_resolve resolved),change.keepsFiles.paths _ _ _ not_false resolved,
      Tree.resolve_put_vacant vacant free content⟩,
    (directories.mono (fun _ impossible => impossible) fun _ impossible => impossible.elim).trans change⟩
  rw [path] at vacant
  obtain ⟨leads,rfl,taken⟩ := first.entries entry plain vacant
  exact ⟨parent,leads,rfl,taken⟩

/-- A backup finds the directory made, and all its names taken. -/
structure NamesUsedUp (dir source : Path) (now : Moment) (t : Tree) (fileName : String) : Prop where
  named : source.fileName? = some fileName
  made : (t.makeAll dir.ancestors).1 = .ok ()
  taken : AllTaken (prepared dir t) dir (baseName fileName now)

/-- The counter overflows for want of a name, and for nothing else. -/
theorem saveInto_eq_counterOverflow_iff {dir source : Path} {now : Moment} {t : Tree} :
    (saveInto dir now source t).1 = .error .counterOverflow ↔ ∃ fileName, NamesUsedUp dir source now t fileName := by
  constructor
  · intro overflow
    cases named : source.fileName? with
    | none =>
      rw [saveInto_unnamed named] at overflow
      cases overflow
    | some fileName =>
      rw [saveInto_named named] at overflow
      rcases ready : t.makeAll dir.ancestors with ⟨cause | _,made⟩
      · rw [ready] at overflow
        cases overflow
      · rw [ready] at overflow
        obtain rfl : prepared dir t = made := by rw [prepared,ready]
        simp only at overflow
        split at overflow
        · rename_i error ended
          cases overflow
          exact ⟨fileName,named,by rw [ready],((freePath_eq_error_iff (nthName_entry now named)).mp ended).2⟩
        · split at overflow <;> cases overflow
  · rintro ⟨fileName,named,ready,taken⟩
    have ended := (freePath_eq_error_iff (nthName_entry now named)).mpr ⟨rfl,taken⟩
    have made : t.makeAll dir.ancestors = (.ok (),prepared dir t) := Prod.ext ready rfl
    rw [saveInto_named named,made]
    simp only [ended]

/-- A directory of fewer entries leaves a name free. -/
theorem NamesUsedUp.lt_length {dir source : Path} {now : Moment} {t : Tree} {fileName : String}
    (usedUp : NamesUsedUp dir source now t fileName) : lastNumber < (prepared dir t).entries.length :=
  lt_length_of_taken (nthName_entry now usedUp.named) usedUp.taken

/-- A file in the directory to work in, with the given number of names for its backups taken there. -/
def filledTree (count : Nat) : Tree :=
  Tree.put
    { entries := (List.range count).map fun number => ([Text.bytes (nthName "a.backup.7" number)],.file [])
      home := []
      nodup := by
        rw [List.map_map]
        refine List.nodup_range.map fun m n same => nthName_injective "a.backup.7" ?_
        simpa [Text.bytes_inj] using same }
    [Text.bytes "a"] (.file (Text.bytes "one"))

theorem filledTree_node? {count number : Nat} (within : number < count) :
    (filledTree count).node? [Text.bytes (nthName "a.backup.7" number)] = some (.file []) := by
  have apart : [Text.bytes (nthName "a.backup.7" number)] ≠ [Text.bytes "a"] := by
    rw [ne_eq,List.cons.injEq,Text.bytes_inj,and_iff_left rfl]
    intro same
    have dotted : '.' ∈ (nthName "a.backup.7" number).toList := by cases number <;> simp [nthName]
    rw [same] at dotted
    contradiction
  rw [filledTree,Tree.node?_put_other _ _ apart,← Tree.mem_entries_iff _ (by simp)]
  exact List.mem_map.mpr ⟨number,List.mem_range.mpr within,rfl⟩

/-- Names with numbers of 32 bits are short. -/
theorem utf8ByteSize_nthName_le {number : Nat} (numbered : number ≤ lastNumber) :
    (nthName "a.backup.7" number).utf8ByteSize ≤ 21 := by
  have base : "a.backup.7".utf8ByteSize = 10 := by decide
  cases number with
  | zero => exact base.trans_le (by decide)
  | succ n =>
    have digits : (toString (n + 1)).utf8ByteSize ≤ 10 := by
      have ascii : ∀ c ∈ (toString (n + 1)).toList, c.toNat < 128 := by
        intro c member
        rw [Nat.toString_eq_repr,Nat.toList_repr] at member
        have := Text.toNat_of_isDigit (Text.isDigit_of_mem_toDigits member)
        omega
      rw [← Text.length_bytes,Text.bytes_of_ascii ascii,List.length_map,Nat.toString_eq_repr,Nat.toList_repr]
      exact Nat.toDigits_length 10 (n + 1) 10 (by decide) (numbered.trans_lt (by decide))
    have dot : ".".utf8ByteSize = 1 := by decide
    rw [nthName,String.utf8ByteSize_append,String.utf8ByteSize_append]
    omega

theorem filledTree_taken {count number : Nat} (within : number < count) (numbered : number ≤ lastNumber) :
    (filledTree count).isPresent (Path.joinName ⟨""⟩ (nthName "a.backup.7" number)) = true := by
  have named : IsBackupName "a" ⟨7,0⟩ (nthName "a.backup.7" number) := nthName_isBackupName "a" ⟨7,0⟩ number
  have entry := named.entry (by decide)
  have short := utf8ByteSize_nthName_le numbered
  have spelled : (Path.joinName ⟨""⟩ (nthName "a.backup.7" number)).spelling = nthName "a.backup.7" number := by
    rw [Path.joinName_eq _ entry.noSlash]
    simp
  have usable : Tree.unusable? (Path.joinName ⟨""⟩ (nthName "a.backup.7" number)) = none := by
    rw [Tree.unusable?_eq_none_iff,spelled]
    exact ⟨named.notMem (by decide) (by decide) (by decide) (by decide),entry.nonempty,short.trans (by decide)⟩
  have addressed : Tree.Addresses (filledTree count) (Path.joinName ⟨""⟩ (nthName "a.backup.7" number)) []
      (Text.bytes (nthName "a.backup.7" number)) :=
    Tree.addresses_joinName entry usable (short.trans (by decide)) .done
  exact Tree.isPresent_of_file (addressed.resolveFor_file (filledTree_node? within) .use)

theorem filledTree_usedUp {count : Nat} (all : lastNumber < count) :
    NamesUsedUp ⟨""⟩ ⟨"a"⟩ ⟨7,0⟩ (filledTree count) "a" where
  named := by decide
  made := by
    obtain ⟨above,chain⟩ := Path.exists_ancestors_eq ⟨""⟩
    rw [chain,Tree.makeAll,if_pos rfl]
  taken := by
    have home : prepared ⟨""⟩ (filledTree count) = filledTree count :=
      prepared_of_joinPlace? (show (filledTree count).joinPlace? ⟨""⟩ = some [] from if_pos rfl)
    intro number numbered
    rw [home]
    exact filledTree_taken (numbered.trans_lt all) numbered

theorem filledTree_resolve (count : Nat) :
    (filledTree count).resolve ⟨"a"⟩ = .ok (.file [Text.bytes "a"] (Text.bytes "one")) := rfl

/-- The bound on the entries is needed: here a file can be read, and no name is left for its backup. -/
theorem saveInto_filledTree :
    (filledTree (2 ^ 32 - 1)).resolve ⟨"a"⟩ = .ok (.file [Text.bytes "a"] (Text.bytes "one")) ∧
    (saveInto ⟨""⟩ ⟨7,0⟩ ⟨"a"⟩ (filledTree (2 ^ 32 - 1))).1 = .error .counterOverflow :=
  ⟨filledTree_resolve _,saveInto_eq_counterOverflow_iff.mpr ⟨"a",filledTree_usedUp (by decide)⟩⟩

/-- Backups into one directory, one after the other: the paths that are given back, each with the bytes of its source.
A backup that fails gives back none. -/
inductive Series (dir : Path) : Tree → List (Path × List UInt8) → Tree → Prop where
  | done (t : Tree) : Series dir t [] t
  | saved {t between t' : Tree} {now : Moment} {source dest : Path} {place : Place} {content : List UInt8}
      {copies : List (Path × List UInt8)} (ended : saveInto dir now source t = (.ok dest,between))
      (held : between.resolve source = .ok (.file place content)) (rest : Series dir between copies t') :
      Series dir t ((dest,content) :: copies) t'
  | failed {t between t' : Tree} {now : Moment} {source : Path} {error : BackupError}
      {copies : List (Path × List UInt8)} (ended : saveInto dir now source t = (.error error,between))
      (rest : Series dir between copies t') : Series dir t copies t'

section Series

variable {dir : Path} {t t' : Tree} {copies : List (Path × List UInt8)}

theorem Series.becomes (series : Series dir t copies t') : t.Becomes (fun _ => False) (fun _ => True) t' := by
  induction series with
  | done t => exact .refl t
  | @saved t _ _ now source _ _ _ _ ended _ _ ih =>
    have step := saveInto_becomes dir source now t
    rw [ended] at step
    exact step.trans ih
  | failed ended _ ih => exact ((becomes_of_saveInto_error ended).mono (fun _ may => may) fun _ _ => trivial).trans ih

/-- A copy is behind a path that led nowhere, at a place that was free, and it is still there. -/
structure Persists (t t' : Tree) (copy : Path × List UInt8) : Prop where
  absent : t.isPresent copy.1 = false
  leads : ∃ place, t.node? place = none ∧ t'.resolve copy.1 = .ok (.file place copy.2)

theorem Persists.before {rewritable addable : Place → Prop} {earlier : Tree} {copy : Path × List UInt8}
    (persists : Persists t t' copy) (change : earlier.Becomes rewritable addable t) : Persists earlier t' copy := by
  obtain ⟨absent,place,free,leads⟩ := persists
  exact ⟨Tree.isPresent_before change absent,place,change.free free,leads⟩

def Apart (t : Tree) (p q : Path) : Prop := p ≠ q ∧ ∀ place content place' content',
  t.resolve p = .ok (.file place content) → t.resolve q = .ok (.file place' content') → place ≠ place'

theorem Series.persists (series : Series dir t copies t') :
    (∀ copy ∈ copies, Persists t t' copy) ∧ copies.Pairwise fun earlier later => Apart t' earlier.1 later.1 := by
  induction series with
  | done t => exact ⟨nofun,.nil⟩
  | failed ended _ ih => exact ⟨fun copy member => (ih.1 copy member).before (becomes_of_saveInto_error ended),ih.2⟩
  | @saved t between t' _ _ dest _ content copies ended held rest ih =>
    obtain ⟨_,_,spot,_,copied⟩ := copied_of_saveInto ended
    obtain ⟨_,_,read,leads⟩ := copied.copy
    rw [read,Except.ok.injEq,Tree.Target.file.injEq] at held
    obtain ⟨rfl,rfl⟩ := held
    have kept := rest.becomes.keepsFiles.paths _ _ _ not_false leads
    refine ⟨List.forall_mem_cons.mpr ⟨⟨copied.absent,spot,copied.free.1,kept⟩,fun copy member =>
      (ih.1 copy member).before copied.frame⟩,List.pairwise_cons.mpr ⟨?_,ih.2⟩⟩
    -- the first copy is there before the others are made, where they found nothing
    intro copy member
    obtain ⟨absent,goal,free,found⟩ := ih.1 copy member
    refine ⟨?_,fun place bytes place' bytes' first second => ?_⟩
    · rintro rfl
      rw [Tree.isPresent_of_file leads] at absent
      contradiction
    · rw [kept] at first
      rw [found] at second
      cases first
      cases second
      rintro rfl
      rw [Tree.node?_of_resolve leads] at free
      contradiction

end Series

/-- Backups into a directory. Each ends with a path or an error. A path that is given back has the first free name, and
the bytes of the source stand behind it at a place where nothing stood; no file is rewritten, and an error adds none
either. The counter overflows if and only if all names that it can number are taken, which needs a tree of `2 ^ 32 - 1`
entries. The name is looked for in the tree as it is, if the directory is there, and else in the one with the directory
made. All copies of a series have different paths and places, and keep their bytes. -/
theorem saveInto_exact (dir : Path) :
    (∀ now source t dest t', saveInto dir now source t = (.ok dest,t') →
      ∃ fileName number spot content, Copied dir source now t dest t' fileName number spot content) ∧
    (∀ now source t error t', saveInto dir now source t = (.error error,t') →
      t.Becomes (fun _ => False) (fun _ => False) t') ∧
    (∀ now source t, (saveInto dir now source t).1 = .error .counterOverflow ↔
      ∃ fileName, NamesUsedUp dir source now t fileName) ∧
    (∀ now source t fileName, NamesUsedUp dir source now t fileName → 2 ^ 32 - 1 ≤ (prepared dir t).entries.length) ∧
    (∀ t place, t.joinPlace? dir = some place → prepared dir t = t) ∧
    ∀ t copies t', Series dir t copies t' → (copies.map Prod.fst).Nodup ∧ (∀ copy ∈ copies, Persists t t' copy) ∧
      copies.Pairwise fun earlier later => Apart t' earlier.1 later.1 := by
  refine ⟨fun _ _ _ _ _ => copied_of_saveInto,fun _ _ _ _ _ => becomes_of_saveInto_error,
    fun _ _ _ => saveInto_eq_counterOverflow_iff,fun _ _ _ _ usedUp => usedUp.lt_length,
    fun _ _ => prepared_of_joinPlace?,fun t copies t' series => ?_⟩
  obtain ⟨persists,apart⟩ := series.persists
  exact ⟨List.pairwise_map.mpr (apart.imp And.left),persists,apart⟩

/-- Two sources of one name, and a directory that holds a file with the name of a backup. -/
def crowdedTree : Tree := .ofEntries
  [(["a.js"],.file (Text.bytes "one")),(["c"],.directory),(["c","a.js"],.file (Text.bytes "two")),(["b"],.directory),
    (["b","a.js.backup.7"],.file (Text.bytes "other"))]

theorem crowdedTree_saved :
    (∃ between t', saveInto ⟨"/b"⟩ ⟨7,0⟩ ⟨"/a.js"⟩ crowdedTree = (.ok ⟨"/b/a.js.backup.7.1"⟩,between) ∧
      saveInto ⟨"/b"⟩ ⟨7,0⟩ ⟨"/c/a.js"⟩ between = (.ok ⟨"/b/a.js.backup.7.2"⟩,t') ∧
      (∃ place, t'.resolve ⟨"/b/a.js.backup.7.1"⟩ = .ok (.file place (Text.bytes "one"))) ∧
      ∃ place, t'.resolve ⟨"/b/a.js.backup.7.2"⟩ = .ok (.file place (Text.bytes "two"))) ∧
    NamesUsedUp ⟨""⟩ ⟨"a"⟩ ⟨7,0⟩ (filledTree (2 ^ 32 - 1)) "a" ∧
      2 ^ 32 - 1 ≤ (prepared ⟨""⟩ (filledTree (2 ^ 32 - 1))).entries.length := by
  have usedUp : NamesUsedUp ⟨""⟩ ⟨"a"⟩ ⟨7,0⟩ (filledTree (2 ^ 32 - 1)) "a" := filledTree_usedUp (by decide)
  obtain ⟨_,_,_,filled,_⟩ := saveInto_exact ⟨""⟩
  refine ⟨?_,usedUp,filled _ _ _ _ usedUp⟩
  have first : (saveInto ⟨"/b"⟩ ⟨7,0⟩ ⟨"/a.js"⟩ crowdedTree).1 = .ok ⟨"/b/a.js.backup.7.1"⟩ := by decide +kernel
  have second : (saveInto ⟨"/b"⟩ ⟨7,0⟩ ⟨"/c/a.js"⟩ (saveInto ⟨"/b"⟩ ⟨7,0⟩ ⟨"/a.js"⟩ crowdedTree).2).1 =
      .ok ⟨"/b/a.js.backup.7.2"⟩ := by decide +kernel
  obtain ⟨between,ended⟩ : ∃ between, saveInto ⟨"/b"⟩ ⟨7,0⟩ ⟨"/a.js"⟩ crowdedTree =
      (.ok ⟨"/b/a.js.backup.7.1"⟩,between) := ⟨_,Prod.ext first rfl⟩
  rw [ended] at second
  obtain ⟨t',ended'⟩ : ∃ t', saveInto ⟨"/b"⟩ ⟨7,0⟩ ⟨"/c/a.js"⟩ between = (.ok ⟨"/b/a.js.backup.7.2"⟩,t') :=
    ⟨_,Prod.ext second rfl⟩
  have one : crowdedTree.resolve ⟨"/a.js"⟩ = .ok (.file [Text.bytes "a.js"] (Text.bytes "one")) := rfl
  have two : crowdedTree.resolve ⟨"/c/a.js"⟩ = .ok (.file [Text.bytes "c",Text.bytes "a.js"] (Text.bytes "two")) := rfl
  obtain ⟨copies,_,_,_,_,series⟩ := saveInto_exact ⟨"/b"⟩
  obtain ⟨_,_,_,_,copied⟩ := copies _ _ _ _ _ ended
  obtain ⟨_,_,_,_,copied'⟩ := copies _ _ _ _ _ ended'
  have held := copied.frame.keepsFiles.paths _ _ _ not_false one
  have held' := copied'.frame.keepsFiles.paths _ _ _ not_false
    (copied.frame.keepsFiles.paths _ _ _ not_false two)
  obtain ⟨_,persists,_⟩ := series _ _ _ (.saved ended held (.saved ended' held' (.done t')))
  simp only [List.forall_mem_cons] at persists
  obtain ⟨⟨_,place,_,leads⟩,⟨_,place',_,leads'⟩,_⟩ := persists
  exact ⟨between,t',ended,ended',⟨place,leads⟩,place',leads'⟩

end BackupStore

end ErrorMigration
