import ErrorMigration.Proofs.Files.Access

/-! Well-formed trees stay well-formed. A path leads to directories only, the names that it can make are legal,
and a node is put into a directory where no other entry depends on it. -/
namespace ErrorMigration.Tree

variable {t t' : Tree} {p : Path}

theorem WellFormed.startOf (formed : t.WellFormed) (p : Path) : t.node? (t.startOf p) = some .directory := by
  unfold Tree.startOf
  split
  · simp
  · exact formed.home

theorem WellFormed.dropLast (formed : t.WellFormed) {place : Place} (found : t.node? place = some .directory) :
    t.node? place.dropLast = some .directory := by
  by_cases below : place = []
  · simp [below]
  · rw [← List.dropLast_append_getLast below] at found
    exact formed.parent found

/-- A walk from a directory ends in one. -/
theorem Reaches.directory (formed : t.WellFormed) {links left : Nat} {place goal : Place} {steps : List Step}
    (reached : Reaches t links place steps goal left) (start : t.node? place = some .directory) :
    t.node? goal = some .directory := by
  induction reached with
  | done => exact start
  | stay _ ih => exact ih start
  | slash _ ih => exact ih start
  | up _ ih => exact ih (formed.dropLast start)
  | down _ found _ ih => exact ih found
  | link _ _ _ ih =>
    apply ih
    unfold linkStart
    split
    · simp
    · exact start

theorem ofSegment_down {segment : List Char} {name : Name} (named : Step.ofSegment segment = .down name) :
    name = Text.bytes (String.ofList segment) ∧ segment ≠ ['.'] ∧ segment ≠ ['.','.'] := by
  unfold Step.ofSegment at named
  split at named
  · simp at named
  · simp at named
  · rename_i notHere notUp
    rw [Step.down.injEq] at named
    exact ⟨named.symm,notHere,notUp⟩

/-- The names in a path that can be used at all are legal, if they are short enough. -/
theorem legal_of_mem_plainSteps (usable : unusable? p = none) {name : Name} (member : .down name ∈ plainSteps p)
    (short : name.length ≤ maxNameLength) : name.IsLegal := by
  unfold plainSteps at member
  obtain ⟨segment,kept,named⟩ := List.mem_map.mp member
  obtain ⟨piece,filled⟩ := List.mem_filter.mp kept
  obtain ⟨rfl,notHere,notUp⟩ := ofSegment_down named
  have noSlash : '/' ∉ segment := Text.notMem_of_mem_pieces piece
  have noZero : '\x00' ∉ segment := fun inside =>
    (unusable?_eq_none_iff.mp usable).1 (Text.mem_of_mem_pieces piece inside)
  refine ⟨?_,?_,?_,?_,?_,short⟩
  · simpa [Text.bytes_eq_nil] using filled
  · rw [Text.ascii_mem_bytes (by decide)]
    simpa using noSlash
  · rw [Text.ascii_mem_bytes (by decide)]
    simpa using noZero
  · intro here
    exact notHere (by simpa using congrArg String.toList (Text.bytes_injective here))
  · intro up
    exact notUp (by simpa using congrArg String.toList (Text.bytes_injective up))

/-- What a tree needs to stay well-formed when one entry of a directory is filled. -/
theorem WellFormed.fill (formed : t.WellFormed) {parent : Place} {name : Name}
    (directory : t.node? parent = some .directory) (legal : name.IsLegal) (home : t'.home = t.home)
    (others : ∀ place, place ≠ parent ++ [name] → t'.node? place = t.node? place)
    (plain : t.node? (parent ++ [name]) ≠ some .directory) : t'.WellFormed := by
  have apart {place : Place} (found : t.node? place = some .directory) : place ≠ parent ++ [name] := by
    rintro rfl
    exact plain found
  refine ⟨?_,?_,?_⟩
  · rw [home,others _ (apart formed.home)]
    exact formed.home
  · intro place node found inner inside
    by_cases here : place = parent ++ [name]
    · subst here
      rcases List.mem_append.mp inside with above | last
      · exact formed.legal directory inner above
      · rw [List.mem_singleton.mp last]
        exact legal
    · rw [others place here] at found
      exact formed.legal found inner inside
  · intro place inner node found
    have above : t.node? place = some .directory := by
      by_cases here : place ++ [inner] = parent ++ [name]
      · rw [(List.append_inj' here rfl).1]
        exact directory
      · rw [others _ here] at found
        exact formed.parent found
    rw [others place (apart above),above]

theorem WellFormed.put (formed : t.WellFormed) {parent : Place} {name : Name} (node : Node)
    (directory : t.node? parent = some .directory) (legal : name.IsLegal)
    (plain : t.node? (parent ++ [name]) ≠ some .directory) : (t.put (parent ++ [name]) node).WellFormed :=
  formed.fill directory legal rfl (fun _ => t.node?_put_other node) plain

theorem WellFormed.makeDirectory (formed : t.WellFormed) (made : t.makeDirectory p = .ok t') : t'.WellFormed := by
  obtain ⟨usable,_,_,_,isLast,short,reached,free,rfl⟩ := made_of_makeDirectory made
  exact formed.put .directory (reached.directory formed (formed.startOf p))
    (legal_of_mem_plainSteps usable (List.mem_of_getLast? isLast) short) (by simp [free])

theorem WellFormed.makeAll (formed : t.WellFormed) (paths : List Path) : (t.makeAll paths).2.WellFormed :=
  makeAll_keeps (fun made formed => formed.makeDirectory made) formed paths

theorem WellFormed.of_makeAll (formed : t.WellFormed) {paths : List Path} {ended : Except Cause Unit}
    (made : t.makeAll paths = (ended,t')) : t'.WellFormed := by
  simpa [made] using formed.makeAll paths

namespace Addresses

variable {parent : Place} {name : Name}

theorem directory (formed : t.WellFormed) (addressed : Addresses t p parent name) :
    t.node? parent = some .directory := by
  obtain ⟨front,left,_,reached⟩ := addressed.walk
  exact reached.directory formed (formed.startOf p)

theorem legal (addressed : Addresses t p parent name) : name.IsLegal := by
  obtain ⟨front,left,split,_⟩ := addressed.walk
  refine legal_of_mem_plainSteps addressed.usable ?_ addressed.short
  have member : .down name ∈ steps p := by simp [split]
  unfold steps at member
  rcases List.mem_append.mp member with plain | slash
  · exact plain
  · split at slash <;> simp at slash

end Addresses

/-- A path can be used if it can be used with a name joined to it, unless it is empty. -/
theorem usable_of_joinName {dir : Path} {name : String} (entry : Path.IsEntryName name)
    (usable : unusable? (dir.joinName name) = none) (filled : dir.spelling ≠ "") : unusable? dir = none := by
  have part : ∃ more, (dir.joinName name).spelling = dir.spelling ++ more := by
    rw [Path.joinName_eq dir entry.noSlash]
    split
    · exact ⟨name,rfl⟩
    · exact ⟨"/" ++ name,String.append_assoc ..⟩
  obtain ⟨more,spelled⟩ := part
  obtain ⟨noZero,_,short⟩ := unusable?_eq_none_iff.mp usable
  rw [spelled,String.toList_append,List.mem_append,not_or] at noZero
  rw [spelled,String.utf8ByteSize_append] at short
  exact unusable?_eq_none_iff.mpr ⟨noZero.1,filled,by omega⟩

/-- The directory that names are joined to; the empty path stands for the one to work in. -/
def joinPlace? (t : Tree) (dir : Path) : Option Place :=
  if dir.spelling = "" then some t.home else t.directoryAt? dir

theorem joinPlace?_becomes {rewritable addable : Place → Prop} (change : Becomes rewritable addable t t') {dir : Path}
    {place : Place} (found : t.joinPlace? dir = some place) : t'.joinPlace? dir = some place := by
  unfold joinPlace? at found ⊢
  split
  · rename_i empty
    rw [if_pos empty] at found
    rw [change.home,found]
  · rename_i filled
    rw [if_neg filled] at found
    exact directoryAt?_becomes change found

/-- Without links the directory that names are joined to is told by the path alone. -/
theorem joinPlace?_eq_lexical (free : t.LinkFree) {dir : Path} {place : Place} (found : t.joinPlace? dir = some place) :
    place = lexical (t.startOf dir) (plainSteps dir) := by
  unfold joinPlace? at found
  split at found
  · rename_i empty
    cases found
    simp [plainSteps,Path.segments,empty,Text.pieces,lexical,Tree.startOf,Path.isAbsolute]
  · obtain ⟨_,left,reached⟩ := directoryAt?_eq_some_iff.mp found
    exact (reached.eq_lexical free).1

theorem joinPlace?_eq {dir : Path} {name : String} {parent : Place} {left : Nat} (entry : Path.IsEntryName name)
    (usable : unusable? (dir.joinName name) = none)
    (reached : Reaches t maxLinks (t.startOf dir) (plainSteps dir) parent left) :
    t.joinPlace? dir = some parent := by
  unfold joinPlace?
  split
  · rename_i empty
    have steps : plainSteps dir = [] := by simp [plainSteps,Path.segments,empty,Text.pieces]
    have start : t.startOf dir = t.home := by simp [Tree.startOf,Path.isAbsolute,empty]
    rw [steps,start] at reached
    cases reached
    rfl
  · rename_i filled
    exact directoryAt?_eq_some_iff.mpr ⟨usable_of_joinName entry usable filled,left,reached⟩

/-- No symbolic link stands directly in the directory that names are joined to. -/
def NoLinksIn (t : Tree) (dir : Path) : Prop :=
  ∀ parent, t.joinPlace? dir = some parent → ∀ name target, t.node? (parent ++ [name]) ≠ some (.link target)

theorem LinkFree.noLinksIn (free : t.LinkFree) (dir : Path) : t.NoLinksIn dir :=
  fun _ _ _ target => free _ target

theorem NoLinksIn.before {rewritable addable : Place → Prop} {dir : Path} (change : Becomes rewritable addable t t')
    (plain : t'.NoLinksIn dir) : t.NoLinksIn dir := by
  intro parent leads name target found
  exact plain parent (joinPlace?_becomes change leads) name target (change.link found)

/-- A name that is joined to a directory without links is where the joined path leads. -/
theorem NoLinksIn.resolveFor_joinName {dir : Path} (plain : t.NoLinksIn dir) {name : String} {target : Target}
    (entry : Path.IsEntryName name) (resolved : t.resolveFor .write (dir.joinName name) = .ok target) :
    ∃ parent, Addresses t (dir.joinName name) parent (Text.bytes name) ∧ t.joinPlace? dir = some parent ∧
      (∀ goal content, target = .file goal content → goal = parent ++ [Text.bytes name]) ∧
      ∀ goal last, target = .vacant goal last → goal = parent ∧ last = Text.bytes name := by
  obtain ⟨parent,left,addressed,reached⟩ := addresses_of_resolve entry resolved
  have leads := joinPlace?_eq entry addressed.usable reached
  refine ⟨parent,addressed,leads,?_,?_⟩
  all_goals
    intro goal other rfl
    cases found : t.node? (parent ++ [Text.bytes name]) with
    | none => have := resolved.symm.trans (addressed.resolveFor_vacant found .write); simp_all
    | some node =>
      cases node with
      | directory => have := resolved.symm.trans (addressed.resolveFor_directory found .write); simp_all
      | file content => have := resolved.symm.trans (addressed.resolveFor_file found .write); simp_all
      | link target => exact absurd found (plain parent leads (Text.bytes name) target)

end ErrorMigration.Tree
