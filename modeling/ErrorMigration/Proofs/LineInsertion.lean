import ErrorMigration.Proofs.ChangeFlags
import ErrorMigration.Proofs.Text.Occurrence

/-! The import line as an insertion of one line. Words without a newline stand within single lines, so the line with the
first base declaration is told by the newlines before it, and the requirement of the code table stands in the added line
and nowhere else. -/
namespace ErrorMigration

namespace Text

variable {word cs xs ys : List Char} {offset : Nat} {c : Char}

/-- Lines that are glued are found again as pieces. -/
theorem pieces_glue {α : Type} [BEq α] [LawfulBEq α] {mark : α} {parts : List (List α)} (filled : parts ≠ [])
    (plain : ∀ part ∈ parts, mark ∉ part) : pieces mark (glue mark parts) = parts := by
  induction parts with
  | nil => contradiction
  | cons part rest ih =>
    rw [List.forall_mem_cons] at plain
    by_cases last : rest = []
    · rw [last]
      exact pieces_of_notMem plain.1
    · rw [glue_cons part last,pieces_append_mark,pieces_of_notMem plain.1,ih last plain.2]
      rfl

/-- A word does not end among characters that its last one is not one of. -/
theorem occursAt_append_of_last_notMem (last : word.getLast? = some c) (absent : c ∉ ys) :
    OccursAt word (xs ++ ys) offset ↔ OccursAt word xs offset := by
  constructor
  · rintro ⟨before,after,split,rfl⟩
    have ends : (before ++ word).getLast? = some c := by rw [List.getLast?_append,last]; rfl
    obtain ⟨rest,whole⟩ := prefix_of_last_notMem ends absent ⟨after,by rw [List.append_assoc,split]⟩
    exact ⟨before,rest,by rw [← whole,List.append_assoc],rfl⟩
  · rintro ⟨before,after,rfl,rfl⟩
    exact ⟨before,after ++ ys,by simp only [List.append_assoc],rfl⟩

/-- The first occurrence of a word in a text, told by what stands before it. -/
structure FirstAfter (before word cs : List Char) : Prop where
  occurs : before ++ word <+: cs
  least : ∀ offset, OccursAt word cs offset → byteLength before ≤ offset

theorem exists_firstAfter (found : word <:+: cs) : ∃ before, FirstAfter before word cs := by
  have occurs := exists_occursAt_iff.mpr found
  classical
  obtain ⟨before,after,split,first⟩ := Nat.find_spec occurs
  refine ⟨before,⟨after,by rw [List.append_assoc,split]⟩,fun offset other => ?_⟩
  rw [first]
  exact Nat.find_min' occurs other

variable {above below : List (List Char)} {line : List Char}

/-- Among lines, a word without a newline occurs first in the first line that holds it. -/
theorem exists_firstAfter_glue (filled : word ≠ []) (absent : '\n' ∉ word) (plain : ∀ other ∈ above, '\n' ∉ other)
    (straight : '\n' ∉ line) (elsewhere : ∀ other ∈ above, ¬ word <:+: other) (here : word <:+: line) :
    ∃ before, FirstAfter before word (glue '\n' (above ++ line :: below)) ∧ before.count '\n' = above.length := by
  induction above with
  | nil =>
    obtain ⟨before,first⟩ := exists_firstAfter here
    have within : before <+: line := (List.prefix_append _ _).trans first.occurs
    refine ⟨before,?_,List.count_eq_zero.mpr fun member => straight (within.subset member)⟩
    by_cases last : below = []
    · rw [last]
      exact first
    · rw [List.nil_append,glue_cons line last]
      refine ⟨first.occurs.trans (List.prefix_append _ _),fun offset occurs => ?_⟩
      rcases (occursAt_append_mark filled absent).mp occurs with inside | ⟨inner,rfl,_⟩
      · exact first.least offset inside
      · obtain ⟨rest,rfl⟩ := within
        rw [byteLength_append]
        omega
  | cons upper above ih =>
    rw [List.forall_mem_cons] at plain elsewhere
    obtain ⟨before,first,count⟩ := ih plain.2 elsewhere.2
    rw [List.cons_append,glue_cons upper (by simp)]
    refine ⟨upper ++ '\n' :: before,⟨?_,fun offset occurs => ?_⟩,?_⟩
    · rw [List.append_assoc,List.prefix_append_right_inj,List.cons_append,List.prefix_cons_inj]
      exact first.occurs
    · rcases (occursAt_append_mark filled absent).mp occurs with inside | ⟨inner,rfl,later⟩
      · exact absurd (exists_occursAt_iff.mp ⟨offset,inside⟩) elsewhere.1
      · have least := first.least inner later
        simp only [byteLength_append,byteLength]
        omega
    · rw [List.count_append,List.count_cons_self,count,List.count_eq_zero.mpr plain.1,Nat.zero_add,List.length_cons]

/-- A word that stands once in one line and in no other stands once in the text. -/
theorem existsUnique_occursAt_glue (filled : word ≠ []) (absent : '\n' ∉ word)
    (upper : ∀ other ∈ above, ¬ word <:+: other) (lower : ∀ other ∈ below, ¬ word <:+: other)
    (once : ∃! offset, OccursAt word line offset) :
    ∃! offset, OccursAt word (glue '\n' (above ++ line :: below)) offset := by
  induction above with
  | nil =>
    by_cases last : below = []
    · rwa [last]
    · have none {inner : Nat} : ¬ OccursAt word (glue '\n' below) inner := by
        intro occurs
        obtain ⟨other,member,found⟩ := (infix_glue_iff absent last).mp (exists_occursAt_iff.mp ⟨inner,occurs⟩)
        exact lower other member found
      simpa only [List.nil_append,glue_cons line last,occursAt_append_mark filled absent,none,and_false,exists_false,
        or_false] using once
  | cons first above ih =>
    rw [List.forall_mem_cons] at upper
    obtain ⟨inner,occurs,only⟩ := ih upper.2
    have none {offset : Nat} : ¬ OccursAt word first offset :=
      fun inside => upper.1 (exists_occursAt_iff.mp ⟨offset,inside⟩)
    simp only [List.cons_append,glue_cons first (List.append_ne_nil_of_right_ne_nil above (List.cons_ne_nil line below)),
      occursAt_append_mark filled absent,none,false_or]
    refine ⟨_,⟨inner,rfl,occurs⟩,?_⟩
    rintro _ ⟨other,rfl,later⟩
    rw [only other later]

end Text

namespace ImportLine

def body (line : List Char) : List Char := if line.getLast? = some '\r' then line.dropLast else line

theorem trimEnd_body (line : List Char) : Text.trimEnd (body line) = Text.trimEnd line := by
  unfold body
  split
  · rename_i returned
    obtain ⟨front,rfl⟩ := List.getLast?_eq_some_iff.mp returned
    rw [List.dropLast_concat,Text.trimEnd,Text.trimEnd,List.reverse_append,List.reverse_singleton,List.singleton_append,
      List.dropWhile_cons_of_pos (by decide)]
  · rfl

theorem notMem_below {line : List Char} (straight : '\n' ∉ line) : '\n' ∉ below line := by
  unfold below
  simp only [List.mem_append,not_or]
  refine ⟨⟨⟨fun member => straight ((List.takeWhile_prefix _).subset member),by decide +kernel⟩,?_⟩,?_⟩
  · split <;> decide
  · split <;> decide

/-- The requirement of the code table stands once in the added line. -/
theorem existsUnique_occursAt_below (line : List Char) : ∃! offset, Text.OccursAt codesRequire (below line) offset := by
  obtain ⟨indent,ending,ends,added⟩ := exists_added_eq ⟨[],line,[]⟩
  obtain ⟨front,declared,straight⟩ : ∃ front, codesDeclaration = front ++ ' ' :: codesRequire ∧ '/' ∉ front :=
    ⟨"const \x7b ErrorCodes \x7d =".toList,by decide +kernel,by decide +kernel⟩
  have whole : below line = (indent.val ++ front) ++ ' ' :: codesRequire ++ ending := by
    have tail := (List.cons.inj added).2
    simpa only [declared,List.append_assoc,List.cons_append] using tail
  have unended : ')' ∉ ending := fun member => absurd (ends member) (by decide)
  have required : codesRequire ≠ [] ∧ ' ' ∉ codesRequire ∧ '/' ∈ codesRequire := by decide +kernel
  have indented {offset : Nat} : ¬ Text.OccursAt codesRequire (indent.val ++ front) offset := by
    intro occurs
    have within := (Text.exists_occursAt_iff.mp ⟨offset,occurs⟩).subset required.2.2
    rcases List.mem_append.mp within with blank | early
    · exact Call.notMem_gap indent (by decide) blank
    · exact straight early
  simp only [whole,Text.occursAt_append_of_last_notMem codesRequire_getLast? unended,
    Text.occursAt_append_mark required.1 required.2.1,indented,false_or,Text.occursAt_self_iff]
  exact ⟨_,⟨0,rfl,rfl⟩,by rintro _ ⟨_,rfl,rfl⟩; rfl⟩

/-- The line is added behind the first line that declares the base. -/
theorem exists_addBelow_eq {lines : List (List Char)} (declared : ∃ line ∈ lines, baseDeclaration <:+: line) :
    ∃ above line rest, lines = above ++ line :: rest ∧ (∀ other ∈ above, ¬ baseDeclaration <:+: other) ∧
      baseDeclaration <:+: line ∧ addBelow lines = above ++ line :: below line :: rest := by
  induction lines with
  | nil => simp at declared
  | cons first lines ih =>
    unfold addBelow
    by_cases here : baseDeclaration <:+: first
    · rw [if_pos (Text.occursIn_iff_isInfix.mpr here)]
      exact ⟨[],first,lines,rfl,by simp,here,rfl⟩
    · rw [if_neg (mt Text.occursIn_iff_isInfix.mp here)]
      obtain ⟨above,line,rest,rfl,upper,found,added⟩ := ih (by simpa [here] using declared)
      exact ⟨first :: above,line,rest,rfl,List.forall_mem_cons.mpr ⟨here,upper⟩,found,by rw [added]; rfl⟩

theorem isMissing_iff {cs : List Char} : isMissing cs = true ↔ baseDeclaration <:+: cs ∧ ¬ codesRequire <:+: cs := by
  rw [isMissing,Bool.and_eq_true_iff,Text.occursIn_iff_isInfix,Bool.not_eq_true',Text.occursIn_eq_false_iff]

theorem newline_notMem : '\n' ∉ baseDeclaration ∧ '\n' ∉ codesRequire := by decide

theorem pieces_ensure {cs : List Char} (missing : isMissing cs = true) :
    ∃ above line rest, Text.pieces '\n' cs = above ++ line :: rest ∧ (∀ other ∈ above, ¬ baseDeclaration <:+: other) ∧
      baseDeclaration <:+: line ∧ Text.pieces '\n' (ensure cs) = above ++ line :: below line :: rest := by
  have declared := (isMissing_iff.mp missing).1
  rw [← Text.glue_pieces '\n' cs,Text.infix_glue_iff newline_notMem.1 (Text.pieces_ne_nil cs)] at declared
  obtain ⟨above,line,rest,split,upper,here,added⟩ := exists_addBelow_eq declared
  have straight : ∀ piece ∈ above ++ line :: rest, '\n' ∉ piece :=
    fun piece member => Text.notMem_of_mem_pieces (split ▸ member)
  refine ⟨above,line,rest,split,upper,here,?_⟩
  rw [ensure,if_pos missing,added,Text.pieces_glue (by simp)]
  simp only [List.forall_mem_append,List.forall_mem_cons] at straight ⊢
  exact ⟨straight.1,straight.2.1,notMem_below straight.2.1,straight.2.2⟩

/-- The fix-up is the insertion of one line. It changes a text if and only if the base is declared and the code table is
not required. The line goes right below the one with the first declaration of the base, whose indentation, semicolon
and carriage return it takes over; the other lines stay as they are, and without the new one the text is the old one. -/
theorem ensure_inserts_line (cs : List Char) :
    (ensure cs ≠ cs ↔ baseDeclaration <:+: cs ∧ ¬ codesRequire <:+: cs) ∧
    ensure (ensure cs) = ensure cs ∧
    (ensure cs ≠ cs → ∃ before above line rest,
      Text.FirstAfter before baseDeclaration cs ∧ before.count '\n' = above.length ∧
      Text.pieces '\n' cs = above ++ line :: rest ∧
      Text.pieces '\n' (ensure cs) = above ++ line ::
        (line.takeWhile Text.isBlank ++ codesDeclaration ++
          (if (Text.trimEnd (body line)).getLast? = some ';' then [';'] else []) ++
          (if line.getLast? = some '\r' then ['\r'] else [])) :: rest ∧
      Text.glue '\n' ((Text.pieces '\n' (ensure cs)).eraseIdx (above.length + 1)) = cs ∧
      ∃! offset, Text.OccursAt codesRequire (ensure cs) offset) := by
  have changed : ensure cs ≠ cs ↔ isMissing cs = true := by
    rw [ne_eq,ensure_eq_self_iff,Bool.not_eq_false]
  refine ⟨changed.trans isMissing_iff,ensure_eq_self_iff.mpr (isMissing_ensure cs),fun other => ?_⟩
  have missing := changed.mp other
  obtain ⟨above,line,rest,split,upper,here,grown⟩ := pieces_ensure missing
  have glued := split ▸ Text.glue_pieces '\n' cs
  have straight : ∀ piece ∈ above ++ line :: rest, '\n' ∉ piece :=
    fun piece member => Text.notMem_of_mem_pieces (split ▸ member)
  have quiet : ∀ piece ∈ above ++ line :: rest, ¬ codesRequire <:+: piece := by
    intro piece member found
    have required := (Text.infix_glue_iff newline_notMem.2 (by simp)).mpr ⟨piece,member,found⟩
    exact (isMissing_iff.mp missing).2 (glued ▸ required)
  simp only [List.forall_mem_append,List.forall_mem_cons] at straight quiet
  obtain ⟨before,first,count⟩ :=
    Text.exists_firstAfter_glue (by decide) newline_notMem.1 straight.1 straight.2.1 upper here
  rw [glued] at first
  refine ⟨before,above,line,rest,first,count,split,?_,?_,?_⟩
  · rw [grown,below,trimEnd_body]
  · have erased : (above ++ line :: below line :: rest).eraseIdx (above.length + 1) = above ++ line :: rest := by
      rw [List.eraseIdx_append_of_length_le (Nat.le_add_right _ 1),Nat.add_sub_cancel_left]
      rfl
    rw [grown,erased,glued]
  · have regrouped : above ++ line :: below line :: rest = (above ++ [line]) ++ below line :: rest := by simp
    rw [← Text.glue_pieces '\n' (ensure cs),grown,regrouped]
    apply Text.existsUnique_occursAt_glue (by decide) newline_notMem.2 _ quiet.2.2 (existsUnique_occursAt_below line)
    rw [List.forall_mem_append,List.forall_mem_singleton]
    exact ⟨quiet.1,quiet.2.1⟩

/-- Lines that end in carriage returns, where the declaration is indented and stands between two others. -/
def indentedText : List Char :=
  "'use strict';\r\n\t".toList ++ baseDeclaration ++ "; \r\nmodule.exports = 1;\r\n".toList

theorem ensure_indentedText :
    ensure indentedText ≠ indentedText ∧
    ensure indentedText = "'use strict';\r\n\t".toList ++ baseDeclaration ++ "; \r\n\t".toList ++ codesDeclaration ++
      ";\r\nmodule.exports = 1;\r\n".toList ∧
    ∃! offset, Text.OccursAt codesRequire (ensure indentedText) offset := by
  have changed : ensure indentedText ≠ indentedText := by decide +kernel
  obtain ⟨_,_,_,_,_,_,_,_,_,once⟩ := (ensure_inserts_line indentedText).2.2 changed
  exact ⟨changed,by decide +kernel,once⟩

end ImportLine

end ErrorMigration
