import ErrorMigration.Files.Access
import ErrorMigration.Proofs.Files.Resolution

/-! What the operations on files do to a tree. Making directories never touches a file, and a file is
written at one place: an old file of that place is rewritten, or the place was free. -/
namespace ErrorMigration

namespace FileTask

variable {ε δ α β : Type}

/-- A task after another one runs in the tree that the first one leaves, unless that one fails. -/
theorem bind_apply (task : FileTask ε α) (next : α → FileTask ε β) (t : Tree) :
    (task >>= next) t = match task t with
      | (.ok a,t') => next a t'
      | (.error e,t') => (.error e,t') := by
  change ExceptT.bindCont next (task t).1 (task t).2 = _
  rcases task t with ⟨_ | _,t'⟩ <;> rfl

@[simp] theorem pure_apply (a : α) (t : Tree) : (pure a : FileTask ε α) t = (.ok a,t) := rfl

@[simp] theorem throw_apply (e : ε) (t : Tree) : (throw e : FileTask ε α) t = (.error e,t) := rfl

theorem orElseError_apply (task : FileTask ε α) (explain : ε → δ) (t : Tree) :
    task.orElseError explain t = ((task t).1.mapError explain,(task t).2) := rfl

/-- Two tasks end well if the second one ends well in the tree that the first one leaves. -/
theorem bind_eq_ok_iff {task : FileTask ε α} {next : α → FileTask ε β} {t t' : Tree} {b : β} :
    (task >>= next) t = (.ok b,t') ↔ ∃ a between, task t = (.ok a,between) ∧ next a between = (.ok b,t') := by
  rw [bind_apply]
  rcases task t with ⟨_ | a,between⟩
  · exact ⟨nofun,nofun⟩
  · constructor
    · intro ended
      exact ⟨a,between,rfl,ended⟩
    · rintro ⟨_,_,⟨⟩,ended⟩
      exact ended

theorem orElseError_eq_ok_iff {task : FileTask ε α} {explain : ε → δ} {t t' : Tree} {a : α} :
    task.orElseError explain t = (.ok a,t') ↔ task t = (.ok a,t') := by
  rw [orElseError_apply]
  rcases task t with ⟨_ | _,_⟩
  · exact ⟨nofun,nofun⟩
  · constructor
    · rintro ⟨⟩
      rfl
    · rintro ⟨⟩
      rfl

theorem writeFile_eq_ok_iff {p : Path} {content : List UInt8} {t t' : Tree} :
    writeFile p content t = (.ok (),t') ↔ t.write p content = .ok t' := by
  simp only [writeFile,update]
  cases t.write p content with
  | error cause => exact ⟨nofun,nofun⟩
  | ok next =>
    constructor
    · rintro ⟨⟩
      rfl
    · rintro ⟨⟩
      rfl

theorem bind_becomes {rewritable addable : Place → Prop} {task : FileTask ε α} {next : α → FileTask ε β} {t : Tree}
    (first : t.Becomes rewritable addable (task t).2)
    (second : ∀ a, (task t).2.Becomes rewritable addable (next a (task t).2).2) :
    t.Becomes rewritable addable ((task >>= next) t).2 := by
  rw [bind_apply]
  generalize task t = ended at first second
  rcases ended with ⟨_ | a,t'⟩
  · exact first
  · exact first.trans (second a)

end FileTask

theorem Path.exists_ancestors_eq (p : Path) : ∃ above, p.ancestors = p :: above := by
  unfold ancestors chainUp
  split <;> exact ⟨_,rfl⟩

namespace Tree

variable {rewritable addable : Place → Prop} {t t' : Tree} {p : Path}

/-- A directory that is made gets a free name in a directory that is reached. -/
theorem made_of_makeDirectory (made : t.makeDirectory p = .ok t') :
    unusable? p = none ∧ ∃ place name left, (plainSteps p).getLast? = some (.down name) ∧ name.length ≤ maxNameLength ∧
      Reaches t maxLinks (t.startOf p) (plainSteps p).dropLast place left ∧ t.node? (place ++ [name]) = none ∧
      t' = t.put (place ++ [name]) .directory := by
  unfold makeDirectory at made
  split at made
  · simp at made
  · simp at made
  · rename_i last usable isLast
    split at made
    · simp at made
    · simp at made
    · simp at made
    · rename_i place resolved
      split at made
      · rename_i name
        split at made
        · simp at made
        rename_i short
        split at made
        · simp at made
        rename_i free
        obtain ⟨left,reached⟩ := reaches_of_walkLinks resolved
        exact ⟨usable,place,name,left,isLast,Nat.le_of_not_lt short,reached,by simpa using free,
          (Except.ok.inj made).symm⟩
      · simp at made

theorem makeDirectory_becomes (made : t.makeDirectory p = .ok t') : Becomes rewritable addable t t' := by
  obtain ⟨_,_,_,_,_,_,_,free,rfl⟩ := made_of_makeDirectory made
  exact .put_directory free

/-- What making one directory keeps is kept by making a directory with those above it, also when this fails half-way. -/
theorem makeAll_keeps {holds : Tree → Prop}
    (step : ∀ {t t' : Tree} {p : Path}, t.makeDirectory p = .ok t' → holds t → holds t') (before : holds t)
    (paths : List Path) : holds (t.makeAll paths).2 := by
  induction paths with
  | nil => exact before
  | cons p above ih =>
    simp only [makeAll]
    split
    · exact before
    split
    · rename_i made
      exact step made before
    · split
      · rename_i failed
        simpa [failed] using ih
      · rename_i t' succeeded
        rw [succeeded] at ih
        split
        · rename_i made
          exact step made ih
        · split <;> exact ih
    · split <;> exact before

/-- Directories are made where nothing stands, also when making them fails half-way. -/
theorem makeAll_becomes (rewritable addable : Place → Prop) (t : Tree) (paths : List Path) :
    Becomes rewritable addable t (t.makeAll paths).2 :=
  makeAll_keeps (fun made change => change.trans (makeDirectory_becomes made)) (.refl t) paths

theorem becomes_of_makeAll {paths : List Path} {ended : Except Cause Unit} (made : t.makeAll paths = (ended,t')) :
    Becomes rewritable addable t t' := by
  simpa [made] using makeAll_becomes rewritable addable t paths

/-- Directories were made, or not even tried. -/
theorem becomes_of_same_or_made {paths : List Path} (kept : t' = t ∨ t' = (t.makeAll paths).2) :
    Becomes rewritable addable t t' := by
  rcases kept with rfl | rfl
  · exact .refl t'
  · exact makeAll_becomes _ _ t paths

/-- A directory that was made is where its path leads. -/
theorem isDirectory_of_makeDirectory (made : t.makeDirectory p = .ok t') : t'.isDirectory p = true := by
  have change : Becomes (fun _ => False) (fun _ => False) t t' := makeDirectory_becomes made
  obtain ⟨usable,place,name,left,isLast,short,reached,_,rfl⟩ := made_of_makeDirectory made
  have entry : Reaches _ left place [.down name] (place ++ [name]) left :=
    .down short (t.node?_put_same .directory (by simp)) .done
  have whole := (reached.becomes change).append entry
  rw [List.dropLast_append_getLast? _ isLast,← startOf_eq change.home] at whole
  exact Option.isSome_iff_exists.mpr ⟨_,directoryAt?_eq_some_iff.mpr ⟨usable,left,whole⟩⟩

/-- Making a directory with those above it fails, or the directory is there afterwards. -/
theorem isDirectory_of_makeAll (filled : p.spelling ≠ "") (made : t.makeAll p.ancestors = (.ok (),t')) :
    t'.isDirectory p = true := by
  obtain ⟨above,chain⟩ := p.exists_ancestors_eq
  rw [chain,makeAll,if_neg filled] at made
  split at made
  · rename_i first
    cases made
    exact isDirectory_of_makeDirectory first
  · split at made
    · cases made
    · split at made
      · rename_i second
        cases made
        exact isDirectory_of_makeDirectory second
      · split at made
        · cases made
          assumption
        · cases made
  · split at made
    · cases made
      assumption
    · cases made

/-- A file that a path leads to is rewritten in its place. -/
theorem write_file {before : List UInt8} {place : Place} (content : List UInt8)
    (resolved : t.resolveFor .write p = .ok (.file place before)) :
    t.write p content = .ok (t.put place (.file content)) := by
  simp [write,placeToWrite,resolved,Except.map]

/-- Writing fails, rewrites a file or fills a free place; the path tells which place it is. -/
theorem write_place {content : List UInt8} (written : t.write p content = .ok t') :
    ∃ place, t' = t.put place (.file content) ∧
      ((∃ before, t.resolveFor .write p = .ok (.file place before) ∧ t.node? place = some (.file before)) ∨
       (∃ parent name, place = parent ++ [name] ∧ t.resolveFor .write p = .ok (.vacant parent name) ∧
          t.node? place = none)) := by
  simp only [write,placeToWrite] at written
  cases resolved : t.resolveFor .write p with
  | error cause => simp [resolved,Except.map] at written
  | ok target =>
    obtain ⟨_,walked⟩ := resolveFor_eq_ok_iff.mp resolved
    cases target with
    | directory goal => simp [resolved,Except.map] at written
    | file goal before =>
      simp only [resolved,Except.map,Except.ok.injEq] at written
      exact ⟨goal,written.symm,.inl ⟨before,rfl,(node?_of_walkLinks walked).1 goal before rfl⟩⟩
    | vacant parent name =>
      simp only [resolved,Except.map,Except.ok.injEq] at written
      exact ⟨_,written.symm,.inr ⟨parent,name,rfl,rfl,(node?_of_walkLinks walked).2 parent name rfl⟩⟩

/-- A path that is not present can only be written at a free place. -/
theorem write_absent {content : List UInt8} (absent : t.isPresent p = false) (written : t.write p content = .ok t') :
    ∃ parent name, t.resolveFor .write p = .ok (.vacant parent name) ∧ t.node? (parent ++ [name]) = none ∧
      t' = t.put (parent ++ [name]) (.file content) := by
  obtain ⟨place,rfl,⟨before,resolved,found⟩ | ⟨parent,name,rfl,resolved,free⟩⟩ := write_place written
  · obtain ⟨usable,walked⟩ := resolveFor_eq_ok_iff.mp resolved
    have used : t.resolve p = .ok (.file place before) :=
      resolveFor_eq_ok_iff.mpr ⟨usable,walkLinks_use_of_write walked⟩
    simp [isPresent,used] at absent
  · exact ⟨parent,name,resolved,free,rfl⟩

/-- A path leads to what was written to it. -/
theorem resolve_of_write {content : List UInt8} (written : t.write p content = .ok t') :
    ∃ place, t' = t.put place (.file content) ∧ Becomes (fun q => q = place) (fun q => q = place) t t' ∧
      t'.resolve p = .ok (.file place content) := by
  have leads {target : Target} {place : Place} (filled : place ≠ []) (spot : target.filePlace? = some place)
      (resolved : t.resolveFor .write p = .ok target)
      (change : Becomes (fun q => q = place) (fun q => q = place) t (t.put place (.file content))) :
      (t.put place (.file content)).resolve p = .ok (.file place content) := by
    obtain ⟨usable,walked⟩ := resolveFor_eq_ok_iff.mp resolved
    refine resolveFor_eq_ok_iff.mpr ⟨usable,?_⟩
    rw [startOf_eq change.home]
    exact walkLinks_file_becomes change (node?_put_same _ _ filled) spot (walkLinks_use_of_write walked)
  obtain ⟨place,rfl,⟨before,resolved,found⟩ | ⟨parent,name,rfl,resolved,free⟩⟩ := write_place written
  · have change : Becomes (fun q => q = place) (fun q => q = place) t (t.put place (.file content)) :=
      .put_rewritten content found rfl
    exact ⟨place,rfl,change,leads (ne_nil_of_node? found (by simp)) rfl resolved change⟩
  · have change : Becomes (fun q => q = parent ++ [name]) (fun q => q = parent ++ [name]) t
        (t.put (parent ++ [name]) (.file content)) := .put_added content free rfl
    exact ⟨parent ++ [name],rfl,change,leads (by simp) rfl resolved change⟩

theorem copy_eq_ok {source dest : Path} (copied : t.copy source dest = .ok t') :
    ∃ place content, t.resolve source = .ok (.file place content) ∧ t.write dest content = .ok t' := by
  unfold copy at copied
  split at copied
  · simp at copied
  · simp at copied
  · simp at copied
  · rename_i place content resolved
    exact ⟨place,content,resolved,copied⟩

end Tree

end ErrorMigration
