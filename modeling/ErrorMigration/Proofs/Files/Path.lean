import ErrorMigration.Files.Tree
import ErrorMigration.Proofs.Text.Encoding

/-! Joining a path with the name of an entry adds one segment, one step and one component, whatever the
spelling of the path. Everything that is known about a path below a directory follows from that. -/
namespace ErrorMigration

namespace Path

/-- A text that can name an entry of a directory: one segment, and neither of the two dots. -/
structure IsEntryName (text : String) : Prop where
  nonempty : text ≠ ""
  noSlash : '/' ∉ text.toList
  notHere : text ≠ "."
  notUp : text ≠ ".."

namespace IsEntryName

variable {text : String}

theorem toList_ne_nil (entry : IsEntryName text) : text.toList ≠ [] :=
  fun empty => entry.nonempty (String.toList_eq_nil_iff.mp empty)

theorem toList_ne_here (entry : IsEntryName text) : text.toList ≠ ['.'] :=
  fun here => entry.notHere (String.toList_injective here)

theorem toList_ne_up (entry : IsEntryName text) : text.toList ≠ ['.','.'] :=
  fun up => entry.notUp (String.toList_injective up)

end IsEntryName

theorem isAbsolute_of_noSlash {text : String} (noSlash : '/' ∉ text.toList) : Path.isAbsolute ⟨text⟩ = false := by
  simp only [isAbsolute,decide_eq_false_iff_not]
  intro first
  exact noSlash (List.mem_of_mem_head? first)

theorem joinName_eq (left : Path) {name : String} (noSlash : '/' ∉ name.toList) :
    left.joinName name =
      if left.spelling = "" || left.spelling.toList.getLast? = some '/' then ⟨left.spelling ++ name⟩
      else ⟨left.spelling ++ "/" ++ name⟩ := by
  simp [joinName,join,isAbsolute_of_noSlash noSlash]

/-- The name is the last segment, in place of the empty one that a trailing slash leaves. -/
theorem segments_joinName (left : Path) {name : String} (noSlash : '/' ∉ name.toList) :
    ∃ front, (left.joinName name).segments = front ++ [name.toList] ∧
      (left.segments = front ++ [[]] ∨ left.segments = front ∧ front ≠ [[]]) := by
  rw [joinName_eq left noSlash]
  by_cases empty : left.spelling = ""
  · refine ⟨[],?_,.inl ?_⟩
    · simp [empty,segments,Text.pieces_of_notMem noSlash]
    · simp [segments,empty,Text.pieces]
  by_cases slash : left.spelling.toList.getLast? = some '/'
  · obtain ⟨body,spelled⟩ := List.getLast?_eq_some_iff.mp slash
    refine ⟨Text.pieces '/' body,?_,.inl ?_⟩
    · simp [empty,segments,spelled,Text.pieces_append_mark,Text.pieces_of_notMem noSlash]
    · simp [segments,spelled,Text.pieces_append_mark,Text.pieces]
  · refine ⟨left.segments,?_,.inr ⟨rfl,?_⟩⟩
    · simp [empty,slash,segments,Text.pieces_append_mark,Text.pieces_of_notMem noSlash]
    · intro single
      have glued := Text.glue_pieces '/' left.spelling.toList
      rw [← segments,single] at glued
      exact empty (String.toList_eq_nil_iff.mp glued.symm)

theorem isAbsolute_joinName (left : Path) {name : String} (entry : IsEntryName name) :
    (left.joinName name).isAbsolute = left.isAbsolute := by
  have notFirst := isAbsolute_of_noSlash entry.noSlash
  rw [joinName_eq left entry.noSlash]
  by_cases empty : left.spelling = ""
  · simpa [empty,isAbsolute] using notFirst
  · have filled : left.spelling.toList ≠ [] := fun h => empty (String.toList_eq_nil_iff.mp h)
    obtain ⟨c,cs,spelled⟩ := List.exists_cons_of_ne_nil filled
    split <;> simp [isAbsolute,spelled]

theorem ofSegment_entry {name : String} (entry : IsEntryName name) :
    Component.ofSegment name.toList = .name name := by
  simp [Component.ofSegment,entry.toList_ne_here,entry.toList_ne_up]

theorem isInert_entry {name : String} (entry : IsEntryName name) : isInert name.toList = false := by
  simp [isInert,entry.toList_ne_nil,entry.toList_ne_here]

theorem components_joinName (left : Path) {name : String} (entry : IsEntryName name) :
    (left.joinName name).components = left.components ++ [.name name] := by
  have filled := entry.toList_ne_nil
  obtain ⟨front,joined,original | ⟨original,notEmpty⟩⟩ := segments_joinName left entry.noSlash
  · cases front with
    | nil => simp [components,joined,original,filled,ofSegment_entry entry]
    | cons first rest =>
      have inert : isInert [] = true := rfl
      simp [components,joined,original,isInert_entry entry,ofSegment_entry entry,inert]
  · cases front with
    | nil => exact absurd original (Text.pieces_ne_nil _)
    | cons first rest =>
      simp only [components,joined,original,List.cons_append,List.filter_append,List.map_append]
      by_cases blank : first = []
      · have more : rest ≠ [] := by rintro rfl; simp [blank] at notEmpty
        simp [blank,more,isInert_entry entry,ofSegment_entry entry]
      · simp [blank,isInert_entry entry,ofSegment_entry entry]

theorem fileName?_joinName (left : Path) {name : String} (entry : IsEntryName name) :
    (left.joinName name).fileName? = some name := by
  simp [fileName?,components_joinName left entry]

theorem ofSegment_name {segment : List Char} {text : String} (named : Component.ofSegment segment = .name text) :
    text.toList = segment := by
  unfold Component.ofSegment at named
  split at named
  · simp at named
  · simp at named
  · rw [Component.name.injEq] at named
    rw [← named,String.toList_ofList]

/-- A name in a path is a whole segment, so there is no slash in it. -/
theorem noSlash_of_fileName? {p : Path} {name : String} (named : p.fileName? = some name) :
    '/' ∉ name.toList := by
  have last : p.components.getLast? = some (.name name) := by
    unfold fileName? at named
    split at named <;> simp_all
  have member := List.mem_of_getLast? last
  suffices name.toList ∈ p.segments from Text.notMem_of_mem_pieces this
  unfold components at member
  split at member
  · simp at member
  · rename_i first rest split
    rw [split]
    rcases List.mem_append.mp member with head | tail
    · split at head
      · rw [List.mem_singleton] at head
        exact ofSegment_name head.symm ▸ List.mem_cons_self
      · split at head <;> simp at head
    · obtain ⟨segment,kept,named⟩ := List.mem_map.mp tail
      exact ofSegment_name named ▸ List.mem_cons_of_mem _ (List.mem_of_mem_filter kept)

end Path

namespace Tree

theorem ofSegment_entry {name : String} (entry : Path.IsEntryName name) :
    Step.ofSegment name.toList = .down (Text.bytes name) := by
  simp [Step.ofSegment,entry.toList_ne_here,entry.toList_ne_up]

theorem plainSteps_joinName (left : Path) {name : String} (entry : Path.IsEntryName name) :
    plainSteps (left.joinName name) = plainSteps left ++ [.down (Text.bytes name)] := by
  have filled := entry.toList_ne_nil
  obtain ⟨front,joined,original | ⟨original,_⟩⟩ := Path.segments_joinName left entry.noSlash
  all_goals simp [plainSteps,joined,original,filled,ofSegment_entry entry]

theorem endsInSlash_joinName (left : Path) {name : String} (entry : Path.IsEntryName name) :
    endsInSlash (left.joinName name) = false := by
  have filled := entry.toList_ne_nil
  have last : name.toList.getLast? ≠ some '/' := fun h => entry.noSlash (List.mem_of_getLast? h)
  rw [Path.joinName_eq left entry.noSlash]
  split
  · simp [endsInSlash,List.getLast?_append_of_ne_nil _ filled,last]
  · simp only [endsInSlash,String.toList_append,List.getLast?_append_of_ne_nil _ filled,last,decide_false]

/-- The steps of a joined path are those of its left side and one more down. -/
theorem steps_joinName (left : Path) {name : String} (entry : Path.IsEntryName name) :
    steps (left.joinName name) = plainSteps left ++ [.down (Text.bytes name)] := by
  simp [steps,plainSteps_joinName left entry,endsInSlash_joinName left entry]

theorem startOf_joinName (t : Tree) (left : Path) {name : String} (entry : Path.IsEntryName name) :
    t.startOf (left.joinName name) = t.startOf left := by
  simp [startOf,Path.isAbsolute_joinName left entry]

end Tree

end ErrorMigration
