import ErrorMigration.Backup
import ErrorMigration.Proofs.Candidates
import ErrorMigration.Proofs.Files.Access

/-! Backups. A backup is named for its file and ends in a number, so it has a numeric extension. Its name
is the first free one, which is missed only if the entries of the tree fill all that a counter of 32 bits can try; and
a backup that fails leaves every file as it is. -/
namespace ErrorMigration

/-- The text of a whole number, as it ends the name of a backup. -/
def IsIntegerLiteral (text : List Char) : Prop := ∃ n : Int, text = (toString n).toList

theorem integer_chars {n : Int} {c : Char} (member : c ∈ (toString n).toList) : c = '-' ∨ c.isDigit = true := by
  rw [Int.toString_eq_repr,Int.repr_eq_if] at member
  split at member
  · rw [Nat.toList_repr] at member
    exact .inr (Nat.isDigit_of_mem_toDigits (by decide) (by decide) member)
  · rw [String.toList_append,List.mem_append,Nat.toList_repr] at member
    rcases member with sign | digit
    · exact .inl (by simpa using sign)
    · exact .inr (Nat.isDigit_of_mem_toDigits (by decide) (by decide) digit)

theorem notMem_integer (n : Int) {c : Char} (notSign : c ≠ '-') (notDigit : c.isDigit = false) :
    c ∉ (toString n).toList := by
  intro member
  rcases integer_chars member with sign | digit
  · exact notSign sign
  · simp [notDigit] at digit

/-- A text with a character that no number has is not a number. -/
theorem not_isIntegerLiteral {text : List Char} {c : Char} (member : c ∈ text) (notSign : c ≠ '-')
    (notDigit : c.isDigit = false) : ¬ IsIntegerLiteral text := by
  rintro ⟨n,rfl⟩
  exact notMem_integer n notSign notDigit member

theorem natText_injective : Function.Injective (fun n : Nat => toString n) := by
  intro m n same
  have digits : Nat.toDigits 10 m = Nat.toDigits 10 n := by
    have := congrArg String.toList same
    simpa [Nat.toString_eq_repr,Nat.toList_repr] using this
  have values := congrArg (fun l => Nat.ofDigitChars 10 l 0) digits
  simpa [Nat.ofDigitChars_toDigits] using values

namespace BackupStore

/-- A name that ends in a dot and a whole number. -/
def IsNumbered (name : String) : Prop := ∃ (stem : String) (n : Int), stem ≠ "" ∧ name = stem ++ "." ++ toString n

/-- The numeric ending is the extension of a numbered name. -/
theorem IsNumbered.extension {name : String} (numbered : IsNumbered name) :
    ∃ n : Int, Path.extensionOf? name.toList = some (toString n).toList := by
  obtain ⟨stem,n,filled,rfl⟩ := numbered
  refine ⟨n,?_⟩
  have digits : ∀ c ∈ (toString n).toList.reverse, (c ≠ '.') = true := by
    intro c member
    have absent := notMem_integer n (c := '.') (by decide) (by decide)
    simp only [List.mem_reverse] at member
    simp only [eq_iff_iff,iff_true]
    rintro rfl
    exact absent member
  have front : stem.toList.reverse ≠ [] := by simpa using filled
  obtain ⟨c,cs,reversed⟩ := List.exists_cons_of_ne_nil front
  have backwards : (stem ++ "." ++ toString n).toList.reverse =
      (toString n).toList.reverse ++ '.' :: c :: cs := by simp [reversed]
  simp only [Path.extensionOf?,backwards]
  rw [List.dropWhile_append_of_pos (by simpa using digits),List.takeWhile_append_of_pos (by simpa using digits)]
  simp

theorem not_isNumbered_of_extension {name : String} {extension : List Char}
    (wanted : Path.extensionOf? name.toList = some extension) (other : ¬ IsIntegerLiteral extension) :
    ¬ IsNumbered name := by
  intro numbered
  obtain ⟨n,found⟩ := numbered.extension
  rw [wanted,Option.some.injEq] at found
  exact other ⟨n,found⟩

theorem baseName_eq (fileName : String) (now : Moment) :
    baseName fileName now = fileName ++ ".backup." ++ toString now.seconds := rfl

def IsBackupName (fileName : String) (now : Moment) (name : String) : Prop :=
  name = baseName fileName now ∨ ∃ n : Nat, name = baseName fileName now ++ "." ++ toString (n + 1)

theorem IsBackupName.numbered {fileName name : String} {now : Moment} (named : IsBackupName fileName now name) :
    IsNumbered name := by
  have base : baseName fileName now = fileName ++ ".backup" ++ "." ++ toString now.seconds := by
    apply String.toList_injective
    simp [baseName_eq]
  rcases named with rfl | ⟨n,rfl⟩
  · exact ⟨fileName ++ ".backup",now.seconds,by simp,base⟩
  · exact ⟨baseName fileName now,(n + 1 : Nat),by simp [base],rfl⟩

def IsNumberedPlace (place : Place) : Prop :=
  ∃ (parent : Place) (name : String), place = parent ++ [Text.bytes name] ∧ IsNumbered name

theorem isNumberedPlace_iff {parent : Place} {name : String} :
    IsNumberedPlace (parent ++ [Text.bytes name]) ↔ IsNumbered name := by
  constructor
  · rintro ⟨_,other,same,numbered⟩
    obtain ⟨_,last⟩ := List.append_inj' same rfl
    rw [List.cons.injEq,Text.bytes_inj] at last
    exact last.1 ▸ numbered
  · intro numbered
    exact ⟨parent,name,rfl,numbered⟩

/-- A backup does not have the extension of the candidates. -/
theorem not_isNumberedPlace_of_matches {root : Path} {extension marker : String} {t : Tree} {base : Place}
    {texts : List String} {content : List UInt8} (formed : t.WellFormed)
    (other : ¬ IsIntegerLiteral (Candidates.bareExtension extension))
    (matched : Candidates.Matches root extension marker t base texts content) :
    ¬ IsNumberedPlace (base ++ texts.map Text.bytes) := by
  obtain ⟨init,last,rfl⟩ := (List.eq_nil_or_concat' texts).resolve_left matched.below
  have entry := matched.entries formed last (by simp)
  have wanted := matched.extension
  simp only [Candidates.hasExtension,List.foldl_append,List.foldl_cons,List.foldl_nil,
    Path.fileName?_joinName _ entry,Option.bind_some,decide_eq_true_eq] at wanted
  rw [List.map_append,List.map_singleton,← List.append_assoc,isNumberedPlace_iff]
  exact not_isNumbered_of_extension wanted other

theorem IsBackupName.notMem {fileName name : String} {now : Moment} {c : Char}
    (named : IsBackupName fileName now name) (absent : c ∉ fileName.toList) (other : c ∉ ".backup.".toList)
    (notSign : c ≠ '-') (notDigit : c.isDigit = false) : c ∉ name.toList := by
  have inBase : c ∉ (baseName fileName now).toList := by
    simp only [baseName_eq,String.toList_append,List.mem_append,not_or]
    exact ⟨⟨absent,other⟩,notMem_integer now.seconds notSign notDigit⟩
  rcases named with rfl | ⟨n,rfl⟩
  · exact inBase
  · have dot : c ∉ ".".toList := fun member => other (by simp_all)
    simp only [String.toList_append,List.mem_append,not_or]
    exact ⟨⟨inBase,dot⟩,notMem_integer (n + 1 : Nat) notSign notDigit⟩

theorem IsBackupName.entry {fileName name : String} {now : Moment} (named : IsBackupName fileName now name)
    (noSlash : '/' ∉ fileName.toList) : Path.IsEntryName name := by
  have letter : 'b' ∈ name.toList := by
    rcases named with rfl | ⟨n,rfl⟩ <;> simp [baseName_eq]
  refine ⟨?_,?_,?_,?_⟩
  · rintro rfl; simp at letter
  · exact named.notMem noSlash (by decide) (by decide) (by decide)
  · rintro rfl; simp at letter
  · rintro rfl; simp at letter

/-- What is present in a directory has an entry there. -/
theorem entry_of_isPresent {t : Tree} {dir : Path} {name : String} (entry : Path.IsEntryName name)
    (present : t.isPresent (dir.joinName name) = true) :
    ∃ parent left node, Tree.Reaches t Tree.maxLinks (t.startOf dir) (Tree.plainSteps dir) parent left ∧
      t.node? (parent ++ [Text.bytes name]) = some node := by
  cases resolved : t.resolve (dir.joinName name) with
  | error cause => simp [Tree.isPresent,resolved] at present
  | ok target =>
    obtain ⟨parent,left,addressed,reached⟩ := Tree.addresses_of_resolve entry resolved
    cases found : t.node? (parent ++ [Text.bytes name]) with
    | none =>
      have vacant : t.resolve (dir.joinName name) = .ok (.vacant parent (Text.bytes name)) :=
        addressed.resolveFor_vacant found .use
      simp [Tree.isPresent,vacant] at present
    | some node => exact ⟨parent,left,node,reached,found⟩

/-- The names that are tried for a backup, in their order. -/
def nthName (base : String) : Nat → String
  | 0 => base
  | n + 1 => base ++ "." ++ toString (n + 1)

theorem nthName_injective (base : String) : Function.Injective (nthName base) := by
  have longer (n : Nat) : base ≠ nthName base (n + 1) := by
    intro same
    have lengths := congrArg String.length same
    simp only [nthName,String.length_append] at lengths
    have dot : ".".length = 1 := rfl
    omega
  intro m n same
  cases m with
  | zero =>
    cases n with
    | zero => rfl
    | succ n => exact absurd same (longer n)
  | succ m =>
    cases n with
    | zero => exact absurd same.symm (longer m)
    | succ n =>
      have lists := congrArg String.toList same
      simp only [nthName,String.toList_append] at lists
      exact natText_injective (String.toList_injective (List.append_cancel_left lists))

theorem nthName_isBackupName (fileName : String) (now : Moment) (number : Nat) :
    IsBackupName fileName now (nthName (baseName fileName now) number) := by
  cases number with
  | zero => exact .inl rfl
  | succ n => exact .inr ⟨n,rfl⟩

theorem nthName_entry {source : Path} {fileName : String} (now : Moment) (named : source.fileName? = some fileName)
    (number : Nat) : Path.IsEntryName (nthName (baseName fileName now) number) :=
  (nthName_isBackupName fileName now number).entry (Path.noSlash_of_fileName? named)

section Numbers

variable {t : Tree} {dir : Path} {base : String}

/-- Each name that is taken has an entry of its own. -/
theorem lt_length_of_taken (entry : ∀ number, Path.IsEntryName (nthName base number)) {last : Nat}
    (taken : ∀ number ≤ last, t.isPresent (dir.joinName (nthName base number)) = true) : last < t.entries.length := by
  obtain ⟨parent,left,_,reached,_⟩ := entry_of_isPresent (entry 0) (taken 0 (Nat.zero_le _))
  let place (number : Nat) : Place := parent ++ [Text.bytes (nthName base number)]
  have injective : Function.Injective place := by
    intro m n same
    simp only [place,List.append_cancel_left_eq,List.cons.injEq,and_true,Text.bytes_inj] at same
    exact nthName_injective base same
  have unique : ((List.range (last + 1)).map place).Nodup := List.nodup_range.map injective
  have inside : (List.range (last + 1)).map place ⊆ t.entries.map Prod.fst := by
    intro p member
    obtain ⟨number,bound,rfl⟩ := List.mem_map.mp member
    rw [List.mem_range] at bound
    obtain ⟨other,_,node,again,found⟩ := entry_of_isPresent (entry number) (taken number (by omega))
    rw [← (reached.unique again).1] at found
    exact List.mem_map.mpr ⟨_,(t.mem_entries_iff (by simp)).mpr found,rfl⟩
  simpa [Nat.succ_le_iff] using (List.subperm_of_subset unique inside).length_le

structure FirstFree (t : Tree) (dir : Path) (base : String) (number : Nat) : Prop where
  free : t.isPresent (dir.joinName (nthName base number)) = false
  taken : ∀ earlier < number, t.isPresent (dir.joinName (nthName base earlier)) = true

theorem FirstFree.le_length {number : Nat} (entry : ∀ number, Path.IsEntryName (nthName base number))
    (first : FirstFree t dir base number) : number ≤ t.entries.length := by
  cases number with
  | zero => exact Nat.zero_le _
  | succ n => exact lt_length_of_taken entry fun earlier within => first.taken earlier (Nat.lt_succ_of_le within)

/-- All names lead somewhere, up to the last that can be tried. -/
def AllTaken (t : Tree) (dir : Path) (base : String) : Prop :=
  ∀ number ≤ lastNumber, t.isPresent (dir.joinName (nthName base number)) = true

/-- The search ends at the first free name, if there is one among those that can be tried. -/
theorem freePath_cases (entry : ∀ number, Path.IsEntryName (nthName base number)) :
    (∃ number ≤ lastNumber, freePath t dir base = .ok (dir.joinName (nthName base number)) ∧
      FirstFree t dir base number) ∨
    freePath t dir base = .error .counterOverflow ∧ AllTaken t dir base := by
  have choices : freePath t dir base =
      (((List.range (min t.entries.length lastNumber + 1)).map fun number =>
        dir.joinName (nthName base number)).find? fun p => !t.isPresent p).elim (.error .counterOverflow) .ok := by
    rw [List.range_succ_eq_map,List.map_cons,List.map_map]
    rfl
  rw [List.find?_map] at choices
  cases chosen : (List.range (min t.entries.length lastNumber + 1)).find? ((fun p => !t.isPresent p) ∘ fun number =>
      dir.joinName (nthName base number)) with
  | none =>
    rw [chosen] at choices
    have taken (number : Nat) (within : number ≤ min t.entries.length lastNumber) :
        t.isPresent (dir.joinName (nthName base number)) = true := by
      simpa using List.find?_eq_none.mp chosen number (List.mem_range.mpr (by omega))
    -- the entries alone would leave a name free, so the numbers have ended
    have more := lt_length_of_taken entry taken
    exact .inr ⟨choices,fun number within => taken number (by omega)⟩
  | some number =>
    rw [chosen] at choices
    obtain ⟨absent,within,before⟩ := List.find?_range_eq_some.mp chosen
    rw [List.mem_range] at within
    refine .inl ⟨number,by omega,choices,by simpa using absent,fun earlier less => ?_⟩
    simpa using before earlier less

theorem freePath_eq_ok (entry : ∀ number, Path.IsEntryName (nthName base number)) {dest : Path}
    (chosen : freePath t dir base = .ok dest) :
    ∃ number ≤ lastNumber, dest = dir.joinName (nthName base number) ∧ FirstFree t dir base number := by
  rcases freePath_cases entry with ⟨number,within,found,first⟩ | ⟨overflow,_⟩
  · rw [chosen,Except.ok.injEq] at found
    exact ⟨number,within,found,first⟩
  · rw [chosen] at overflow
    contradiction

/-- The search fails only with the counter, and exactly if all names are taken. -/
theorem freePath_eq_error_iff (entry : ∀ number, Path.IsEntryName (nthName base number)) {error : BackupError} :
    freePath t dir base = .error error ↔ error = .counterOverflow ∧ AllTaken t dir base := by
  rcases freePath_cases entry with ⟨number,within,found,first⟩ | ⟨overflow,taken⟩
  · rw [found]
    simp only [reduceCtorEq,false_iff,not_and]
    exact fun _ taken => absurd (taken number within) (by simp [first.free])
  · rw [overflow]
    simp only [Except.error.injEq,taken,and_true]
    exact eq_comm

end Numbers

/-- Make a directory, choose a path in the tree that this leaves, and copy a file to it. -/
theorem copyInto_apply (choose : Tree → Except BackupError Path) (dir source : Path) (t : Tree) :
    (do
      (FileTask.makeDirectories dir).orElseError (.makingDirectory dir)
      let dest ← FileTask.inspect choose
      (FileTask.copyFile source dest).orElseError (.copying source dest)
      pure dest : FileTask BackupError Path) t =
    match t.makeAll dir.ancestors with
    | (.error cause,made) => (.error (.makingDirectory dir (.makingDirectory dir cause)),made)
    | (.ok (),made) =>
      match choose made with
      | .error error => (.error error,made)
      | .ok dest =>
        match made.copy source dest with
        | .error cause => (.error (.copying source dest (.copying source dest cause)),made)
        | .ok t' => (.ok dest,t') := by
  simp only [FileTask.bind_apply,FileTask.orElseError_apply,FileTask.makeDirectories,FileTask.copyFile,
    FileTask.update,FileTask.inspect]
  rcases t.makeAll dir.ancestors with ⟨_ | _,made⟩
  · rfl
  · simp only [Except.mapError]
    cases choose made with
    | error error => rfl
    | ok dest =>
      simp only
      cases made.copy source dest <;> rfl

theorem saveInto_unnamed {source : Path} (unnamed : source.fileName? = none) (dir : Path) (now : Moment) (t : Tree) :
    saveInto dir now source t = (.error (.noFileName source),t) := by
  unfold saveInto
  rw [unnamed]
  exact FileTask.throw_apply _ t

/-- The choice is abstract in `copyInto_apply`: the search for a free name must not be unfolded here. -/
theorem saveInto_named {source : Path} {fileName : String} (named : source.fileName? = some fileName)
    (dir : Path) (now : Moment) (t : Tree) :
    saveInto dir now source t =
      match t.makeAll dir.ancestors with
      | (.error cause,made) => (.error (.makingDirectory dir (.makingDirectory dir cause)),made)
      | (.ok (),made) =>
        match freePath made dir (baseName fileName now) with
        | .error error => (.error error,made)
        | .ok dest =>
          match made.copy source dest with
          | .error cause => (.error (.copying source dest (.copying source dest cause)),made)
          | .ok t' => (.ok dest,t') := by
  unfold saveInto
  rw [named]
  exact copyInto_apply (fun t => freePath t dir (baseName fileName now)) dir source t

/-- A failed backup has made directories at most. -/
theorem saveInto_error {dir source : Path} {now : Moment} {t t' : Tree} {error : BackupError}
    (failed : saveInto dir now source t = (.error error,t')) : t' = t ∨ t' = (t.makeAll dir.ancestors).2 := by
  cases named : source.fileName? with
  | none =>
    rw [saveInto_unnamed named] at failed
    cases failed
    exact .inl rfl
  | some fileName =>
    rw [saveInto_named named] at failed
    right
    split at failed
    · rename_i stopped
      cases failed
      rw [stopped]
    · rename_i succeeded
      rw [succeeded]
      split at failed
      · cases failed; rfl
      · split at failed
        · cases failed; rfl
        · cases failed

/-- A backup that succeeds: the directory was made, the path chosen for it, and the bytes of the file written there. -/
theorem saveInto_eq_ok {dir source dest : Path} {now : Moment} {t t' : Tree}
    (saved : saveInto dir now source t = (.ok dest,t')) :
    ∃ fileName made, source.fileName? = some fileName ∧ t.makeAll dir.ancestors = (.ok (),made) ∧
      freePath made dir (baseName fileName now) = .ok dest ∧ made.copy source dest = .ok t' := by
  cases named : source.fileName? with
  | none =>
    rw [saveInto_unnamed named] at saved
    cases saved
  | some fileName =>
    rw [saveInto_named named] at saved
    split at saved
    · cases saved
    · rename_i made succeeded
      split at saved
      · cases saved
      · rename_i chosen
        split at saved
        · cases saved
        · rename_i copied
          cases saved
          exact ⟨fileName,made,rfl,succeeded,chosen,copied⟩

/-- A backup that succeeds: its name is one for the file and the time, its path was free once the directory
was made, and the bytes of the file were written there. -/
theorem saveInto_ok {dir source dest : Path} {now : Moment} {t t' : Tree}
    (saved : saveInto dir now source t = (.ok dest,t')) :
    ∃ fileName name made place content, source.fileName? = some fileName ∧ IsBackupName fileName now name ∧
      Path.IsEntryName name ∧ dest = dir.joinName name ∧ t.makeAll dir.ancestors = (.ok (),made) ∧
      made.isPresent dest = false ∧ made.resolve source = .ok (.file place content) ∧
      made.write dest content = .ok t' := by
  obtain ⟨fileName,made,named,succeeded,chosen,copied⟩ := saveInto_eq_ok saved
  have entry := nthName_entry now named
  obtain ⟨number,_,rfl,first⟩ := freePath_eq_ok entry chosen
  obtain ⟨place,content,resolved,written⟩ := Tree.copy_eq_ok copied
  exact ⟨fileName,_,made,place,content,named,nthName_isBackupName fileName now number,entry number,rfl,succeeded,
    first.free,resolved,written⟩

/-- A backup adds at most; it rewrites no file. -/
theorem saveInto_becomes (dir source : Path) (now : Moment) (t : Tree) :
    t.Becomes (fun _ => False) (fun _ => True) (saveInto dir now source t).2 := by
  cases ended : saveInto dir now source t with
  | mk result t' =>
  cases result with
  | error error => exact Tree.becomes_of_same_or_made (saveInto_error ended)
  | ok dest =>
    obtain ⟨_,_,_,_,content,_,_,_,_,prepared,absent,_,written⟩ := saveInto_ok ended
    obtain ⟨parent,name,_,free,rfl⟩ := Tree.write_absent absent written
    exact (Tree.becomes_of_makeAll prepared).trans (.put_added content free trivial)

end BackupStore

end ErrorMigration
