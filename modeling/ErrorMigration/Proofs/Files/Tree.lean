import ErrorMigration.Proofs.Files.Path

/-! How trees change. A change is told place by place: a node stays, a directory is made at a free place,
a file is rewritten, or a file is added at a free place. Which files may be rewritten and which places may
be filled are the two parameters of `Becomes`; it composes, so that what a run may do is read off its
steps. -/
namespace ErrorMigration

/-- A name that a directory of a real file system can hold. -/
structure Name.IsLegal (name : Name) : Prop where
  nonempty : name ≠ []
  noSlash : '/'.toUInt8 ∉ name
  noZero : '\x00'.toUInt8 ∉ name
  notHere : name ≠ Text.bytes "."
  notUp : name ≠ Text.bytes ".."
  short : name.length ≤ Tree.maxNameLength

/-- The text of a legal name is an entry name. -/
theorem Name.IsLegal.entry {name : Name} (legal : name.IsLegal) {text : String}
    (encoded : Text.bytes text = name) : Path.IsEntryName text where
  nonempty := by rintro rfl; exact legal.nonempty (by rw [← encoded,Text.bytes_empty])
  noSlash slash := legal.noSlash (encoded ▸ (Text.ascii_mem_bytes (by decide) text).mpr slash)
  notHere := by rintro rfl; exact legal.notHere encoded.symm
  notUp := by rintro rfl; exact legal.notUp encoded.symm

def Node.isLink : Node → Bool
  | .link _ => true
  | _ => false

instance (name : Name) : Decidable name.IsLegal :=
  decidable_of_iff (name ≠ [] ∧ '/'.toUInt8 ∉ name ∧ '\x00'.toUInt8 ∉ name ∧ name ≠ Text.bytes "." ∧
      name ≠ Text.bytes ".." ∧ name.length ≤ Tree.maxNameLength)
    ⟨fun ⟨a,b,c,d,e,f⟩ => ⟨a,b,c,d,e,f⟩,fun ⟨a,b,c,d,e,f⟩ => ⟨a,b,c,d,e,f⟩⟩

namespace Tree

@[simp] theorem node?_root (t : Tree) : t.node? [] = some .directory := by simp [node?]

theorem ne_nil_of_node? {t : Tree} {place : Place} {node : Option Node} (found : t.node? place = node)
    (other : node ≠ some .directory) : place ≠ [] := by
  rintro rfl
  exact other (found ▸ t.node?_root)

@[simp] theorem home_put (t : Tree) (place : Place) (node : Node) : (t.put place node).home = t.home := rfl

theorem node?_put_same (t : Tree) {place : Place} (node : Node) (below : place ≠ []) :
    (t.put place node).node? place = some node := by
  simp [node?,put,below]

theorem lookup_filter_other {entries : List (Place × Node)} {place other : Place} (apart : other ≠ place) :
    (entries.filter fun entry => entry.1 ≠ place).lookup other = entries.lookup other := by
  induction entries with
  | nil => rfl
  | cons entry entries ih =>
    obtain ⟨key,value⟩ := entry
    by_cases hit : key = place
    · subst hit
      have miss : (other == key) = false := beq_eq_false_iff_ne.mpr apart
      simp only [List.filter_cons,ne_eq,not_true_eq_false,decide_false,Bool.false_eq_true,if_false,
        List.lookup_cons,miss,ih]
    · simp only [List.filter_cons,ne_eq,hit,not_false_eq_true,decide_true,if_true,List.lookup_cons,ih]

theorem node?_put_other (t : Tree) {place other : Place} (node : Node) (apart : other ≠ place) :
    (t.put place node).node? other = t.node? other := by
  have miss : (other == place) = false := beq_eq_false_iff_ne.mpr apart
  simp only [node?,put,List.lookup_cons,miss,lookup_filter_other apart]

theorem mem_iff_lookup {entries : List (Place × Node)} (unique : (entries.map Prod.fst).Nodup) {place : Place}
    {node : Node} : (place,node) ∈ entries ↔ entries.lookup place = some node := by
  induction entries with
  | nil => simp
  | cons entry entries ih =>
    obtain ⟨key,value⟩ := entry
    simp only [List.map_cons,List.nodup_cons] at unique
    by_cases hit : place = key
    · subst hit
      have absent : (place,node) ∉ entries := fun h => unique.1 (List.mem_map.mpr ⟨_,h,rfl⟩)
      simp [absent,eq_comm]
    · have miss : (place == key) = false := beq_eq_false_iff_ne.mpr hit
      simp only [List.mem_cons,Prod.mk.injEq,hit,false_and,false_or,List.lookup_cons,miss]
      exact ih unique.2

theorem mem_entries_iff (t : Tree) {place : Place} {node : Node} (below : place ≠ []) :
    (place,node) ∈ t.entries ↔ t.node? place = some node := by
  simp only [node?,below,if_false]
  exact mem_iff_lookup t.nodup

/-- What a real file system guarantees: legal names, a directory above every entry, and a directory to work
in. -/
structure WellFormed (t : Tree) : Prop where
  home : t.node? t.home = some .directory
  legal : ∀ {place : Place} {node : Node}, t.node? place = some node → ∀ name ∈ place, name.IsLegal
  parent : ∀ {place : Place} {name : Name} {node : Node}, t.node? (place ++ [name]) = some node →
    t.node? place = some .directory

def LinkFree (t : Tree) : Prop := ∀ place target, t.node? place ≠ some (.link target)

/-- Both can be read off the entries. -/
theorem wellFormed_iff (t : Tree) : t.WellFormed ↔ t.node? t.home = some .directory ∧
    ∀ entry ∈ t.entries, (∀ name ∈ entry.1, name.IsLegal) ∧ t.node? entry.1.dropLast = some .directory := by
  constructor
  · intro formed
    refine ⟨formed.home,?_⟩
    rintro ⟨place,node⟩ member
    by_cases below : place = []
    · simp [below]
    · have found := (t.mem_entries_iff below).mp member
      have last : t.node? (place.dropLast ++ [place.getLast below]) = some node := by
        rw [List.dropLast_append_getLast below,found]
      exact ⟨formed.legal found,formed.parent last⟩
  · rintro ⟨home,each⟩
    refine ⟨home,?_,?_⟩
    · intro place node found
      by_cases below : place = []
      · simp [below]
      · exact (each _ ((t.mem_entries_iff below).mpr found)).1
    · intro place name node found
      simpa using (each _ ((t.mem_entries_iff (by simp)).mpr found)).2

instance (t : Tree) : Decidable t.WellFormed := decidable_of_iff _ t.wellFormed_iff.symm

theorem linkFree_iff (t : Tree) : t.LinkFree ↔
    ∀ entry ∈ t.entries, entry.1 ≠ [] → entry.2.isLink = false := by
  constructor
  · rintro free ⟨place,node⟩ member below
    cases node with
    | directory => rfl
    | file content => rfl
    | link target => exact absurd ((t.mem_entries_iff below).mp member) (free place target)
  · intro each place target found
    have below : place ≠ [] := ne_nil_of_node? found (by simp)
    have plain := each _ ((t.mem_entries_iff below).mpr found) below
    simp [Node.isLink] at plain

instance (t : Tree) : Decidable t.LinkFree := decidable_of_iff _ t.linkFree_iff.symm

def ofEntries (entries : List (List String × Node)) : Tree :=
  entries.foldl (fun t entry => t.put (entry.1.map Text.bytes) entry.2) (.empty [])

inductive Change (rewritable addable : Prop) : Option Node → Option Node → Prop where
  | same (node : Option Node) : Change rewritable addable node node
  | made : Change rewritable addable none (some .directory)
  | rewritten (may : rewritable) (before after : List UInt8) :
      Change rewritable addable (some (.file before)) (some (.file after))
  | added (may : addable) (content : List UInt8) : Change rewritable addable none (some (.file content))

/-- One tree becomes another by making directories, rewriting files at places that may be rewritten, and
adding files at free places that may be filled. -/
structure Becomes (rewritable addable : Place → Prop) (t t' : Tree) : Prop where
  home : t'.home = t.home
  change : ∀ place, Change (rewritable place) (addable place) (t.node? place) (t'.node? place)

namespace Becomes

variable {rewritable addable : Place → Prop} {t t' t'' : Tree}

theorem refl (t : Tree) : Becomes rewritable addable t t := ⟨rfl,fun _ => .same _⟩

theorem trans (first : Becomes rewritable addable t t') (second : Becomes rewritable addable t' t'') :
    Becomes rewritable addable t t'' where
  home := second.home.trans first.home
  change place := by
    have earlier := first.change place
    have later := second.change place
    generalize t.node? place = before at *
    generalize t'.node? place = between at *
    generalize t''.node? place = after at *
    cases earlier with
    | same => exact later
    | made => cases later; exact .made
    | rewritten may =>
      cases later with
      | same => exact .rewritten may _ _
      | rewritten => exact .rewritten may _ _
    | added may =>
      cases later with
      | same => exact .added may _
      | rewritten => exact .added may _

theorem mono {rewritable' addable' : Place → Prop} (change : Becomes rewritable addable t t')
    (rewrites : ∀ place, rewritable place → rewritable' place)
    (adds : ∀ place, addable place → addable' place) : Becomes rewritable' addable' t t' where
  home := change.home
  change place := by
    have step := change.change place
    generalize t.node? place = before at *
    generalize t'.node? place = after at *
    cases step with
    | same => exact .same _
    | made => exact .made
    | rewritten may => exact .rewritten (rewrites place may) _ _
    | added may => exact .added (adds place may) _

theorem directory (change : Becomes rewritable addable t t') {place : Place}
    (found : t.node? place = some .directory) : t'.node? place = some .directory := by
  have step := change.change place
  rw [found] at step
  generalize t'.node? place = after at *
  cases step; rfl

theorem link (change : Becomes rewritable addable t t') {place : Place} {target : String}
    (found : t.node? place = some (.link target)) : t'.node? place = some (.link target) := by
  have step := change.change place
  rw [found] at step
  generalize t'.node? place = after at *
  cases step; rfl

theorem file (change : Becomes rewritable addable t t') {place : Place} {content : List UInt8}
    (found : t.node? place = some (.file content)) : ∃ after, t'.node? place = some (.file after) := by
  have step := change.change place
  rw [found] at step
  generalize t'.node? place = after at *
  cases step <;> exact ⟨_,rfl⟩

/-- A node that may not be rewritten stays. -/
theorem kept (change : Becomes rewritable addable t t') {place : Place} {node : Node}
    (found : t.node? place = some node) (fixed : ¬ rewritable place) : t'.node? place = some node := by
  have step := change.change place
  rw [found] at step
  generalize t'.node? place = after at *
  cases step with
  | same => rfl
  | rewritten may => exact absurd may fixed

theorem free (change : Becomes rewritable addable t t') {place : Place} (absent : t'.node? place = none) :
    t.node? place = none := by
  have step := change.change place
  rw [absent] at step
  generalize t.node? place = before at *
  cases step; rfl

theorem link_origin (change : Becomes rewritable addable t t') {place : Place} {target : String}
    (found : t'.node? place = some (.link target)) : t.node? place = some (.link target) := by
  have step := change.change place
  rw [found] at step
  generalize t.node? place = before at *
  cases step; rfl

theorem linkFree (change : Becomes rewritable addable t t') (free : t.LinkFree) : t'.LinkFree :=
  fun place target found => free place target (change.link_origin found)

/-- A file that is there afterwards was there, or was added. -/
theorem file_origin (change : Becomes rewritable addable t t') {place : Place} {content : List UInt8}
    (found : t'.node? place = some (.file content)) :
    (∃ before, t.node? place = some (.file before)) ∨ addable place ∧ t.node? place = none := by
  have step := change.change place
  rw [found] at step
  generalize t.node? place = before at *
  cases step with
  | same => exact .inl ⟨_,rfl⟩
  | rewritten => exact .inl ⟨_,rfl⟩
  | added may => exact .inr ⟨may,rfl⟩

/-- Where files may be neither rewritten nor added, they stay as they are. -/
theorem file_iff (change : Becomes (fun _ => False) (fun _ => False) t t') {place : Place} {content : List UInt8} :
    t'.node? place = some (.file content) ↔ t.node? place = some (.file content) := by
  constructor
  · intro found
    rcases change.file_origin found with ⟨before,old⟩ | ⟨impossible,_⟩
    · rw [← found,change.kept old not_false,old]
    · exact impossible.elim
  · intro old
    exact change.kept old not_false

/-- One place is changed, and the others are as before. -/
theorem put {place : Place} {node : Node} (filled : place ≠ [])
    (step : Change (rewritable place) (addable place) (t.node? place) (some node)) :
    Becomes rewritable addable t (t.put place node) where
  home := rfl
  change q := by
    by_cases here : q = place
    · subst here
      rw [t.node?_put_same node filled]
      exact step
    · rw [t.node?_put_other node here]
      exact .same _

theorem put_directory {place : Place} (free : t.node? place = none) :
    Becomes rewritable addable t (t.put place .directory) :=
  put (ne_nil_of_node? free (by simp)) (free ▸ .made)

theorem put_added {place : Place} (content : List UInt8) (free : t.node? place = none) (may : addable place) :
    Becomes rewritable addable t (t.put place (.file content)) :=
  put (ne_nil_of_node? free (by simp)) (free ▸ .added may content)

theorem put_rewritten {place : Place} {before : List UInt8} (content : List UInt8)
    (found : t.node? place = some (.file before)) (may : rewritable place) :
    Becomes rewritable addable t (t.put place (.file content)) :=
  put (ne_nil_of_node? found (by simp)) (found ▸ .rewritten may before content)

end Becomes

end Tree

end ErrorMigration
