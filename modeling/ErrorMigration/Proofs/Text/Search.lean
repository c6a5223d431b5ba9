import ErrorMigration.Text.Search
import Mathlib.Data.List.Basic
import Mathlib.Data.List.Infix
import Mathlib.Tactic

/-! What the searches of a list find: an infix, a first mark, the pieces between marks. Every search is
told by an equation on the list it looks into, so that callers reason about appends only. -/
namespace ErrorMigration.Text

variable {α : Type} [BEq α] [LawfulBEq α]

theorem occursIn_iff_isInfix {needle cs : List α} : occursIn needle cs = true ↔ needle <:+: cs := by
  induction cs with
  | nil => simp [occursIn]
  | cons c cs ih => simp [occursIn,ih,List.infix_cons_iff]

theorem occursIn_eq_false_iff {needle cs : List α} : occursIn needle cs = false ↔ ¬ needle <:+: cs := by
  rw [← occursIn_iff_isInfix,Bool.not_eq_true]

theorem skip?_eq_some_iff {word cs rest : List α} : skip? word cs = some rest ↔ cs = word ++ rest := by
  induction word generalizing cs with
  | nil => simp [skip?]
  | cons w word ih =>
    cases cs with
    | nil => simp [skip?]
    | cons c cs =>
      by_cases same : w = c
      · subst same; simp [skip?,ih]
      · have other : c ≠ w := fun h => same h.symm
        simp [skip?,same,other]

theorem cut?_eq_some_iff {mark : α} {cs before rest : List α} :
    cut? mark cs = some (before,rest) ↔ cs = before ++ mark :: rest ∧ mark ∉ before := by
  induction cs generalizing before with
  | nil => simp [cut?]
  | cons c cs ih =>
    by_cases same : c = mark
    · subst same
      cases before with
      | nil => simp [cut?,eq_comm]
      | cons d before =>
        simp only [cut?,beq_self_eq_true,if_true,Option.some.injEq,Prod.mk.injEq]
        constructor
        · intro impossible; simp at impossible
        · rintro ⟨equal,absent⟩
          simp only [List.cons_append,List.cons.injEq] at equal
          simp [equal.1] at absent
    · cases before with
      | nil => simp [cut?,same]
      | cons d before =>
        simp only [cut?,beq_iff_eq,same,if_false,Option.map_eq_some_iff,Prod.exists,Prod.mk.injEq,
          List.cons.injEq,List.cons_append,List.mem_cons,not_or]
        constructor
        · rintro ⟨tail,after,found,⟨rfl,rfl⟩,rfl⟩
          obtain ⟨rfl,absent⟩ := ih.mp found
          exact ⟨⟨rfl,rfl⟩,fun h => same h.symm,absent⟩
        · rintro ⟨⟨rfl,rfl⟩,_,absent⟩
          exact ⟨before,rest,ih.mpr ⟨rfl,absent⟩,⟨rfl,rfl⟩,rfl⟩

section Infix

omit [BEq α] [LawfulBEq α]

variable {mark c : α} {needle xs ys : List α}

theorem infix_iff_exists_prefix_drop : needle <:+: xs ↔ ∃ offset, needle <+: xs.drop offset := by
  constructor
  · rintro ⟨before,after,rfl⟩
    exact ⟨before.length,by simp⟩
  · rintro ⟨offset,found⟩
    exact found.isInfix.trans (List.drop_suffix offset xs).isInfix

theorem prefix_append_mark (xs ys : List α) (absent : mark ∉ needle) :
    needle <+: xs ++ mark :: ys ↔ needle <+: xs := by
  constructor
  · intro found
    rcases List.prefix_or_prefix_of_prefix found (List.prefix_append xs (mark :: ys)) with within | ⟨zs,rfl⟩
    · exact within
    · rw [List.prefix_append_right_inj] at found
      cases zs with
      | nil => simp
      | cons z zs =>
        obtain rfl := (List.cons_prefix_cons.mp found).1
        simp at absent
  · intro found
    exact found.trans (List.prefix_append _ _)

/-- A word without the mark stands on one side of it. -/
theorem infix_append_mark (absent : mark ∉ needle) :
    needle <:+: xs ++ mark :: ys ↔ needle <:+: xs ∨ needle <:+: ys := by
  induction xs with
  | nil =>
    have first : needle <+: mark :: ys ↔ needle <+: [] := prefix_append_mark [] ys absent
    rw [List.nil_append,List.infix_cons_iff,first,List.prefix_nil,List.infix_nil]
  | cons x xs ih =>
    have first : needle <+: x :: (xs ++ mark :: ys) ↔ needle <+: x :: xs := prefix_append_mark (x :: xs) ys absent
    rw [List.cons_append,List.infix_cons_iff,first,ih,List.infix_cons_iff,or_assoc]

/-- A word does not begin among characters that its first one is not one of. -/
theorem infix_of_first_notMem (first : needle.head? = some c) (absent : c ∉ xs) (found : needle <:+: xs ++ ys) :
    needle <:+: ys := by
  induction xs with
  | nil => exact found
  | cons x xs ih =>
    simp only [List.mem_cons,not_or] at absent
    rcases List.infix_cons_iff.mp found with here | later
    · obtain ⟨tail,rfl⟩ := List.head?_eq_some_iff.mp first
      exact absurd (List.cons_prefix_cons.mp here).1 absent.1
    · exact ih absent.2 later

theorem prefix_of_last_notMem (last : needle.getLast? = some c) (absent : c ∉ ys) (found : needle <+: xs ++ ys) :
    needle <+: xs := by
  rcases List.prefix_or_prefix_of_prefix found (List.prefix_append xs ys) with within | ⟨zs,rfl⟩
  · exact within
  · rw [List.prefix_append_right_inj] at found
    rcases List.eq_nil_or_concat' zs with rfl | ⟨init,z,rfl⟩
    · simp
    · obtain rfl : z = c := by simpa [← List.append_assoc] using last
      exact absurd (found.subset (by simp)) absent

/-- A word does not end among characters that its last one is not one of. -/
theorem infix_of_last_notMem (last : needle.getLast? = some c) (absent : c ∉ ys) (found : needle <:+: xs ++ ys) :
    needle <:+: xs := by
  rw [← List.reverse_infix,List.reverse_append] at found
  rw [← List.reverse_infix]
  exact infix_of_first_notMem (by simpa using last) (by simpa using absent) found

end Infix

section Pieces

variable {mark : α}

omit [LawfulBEq α] in
theorem pieces_ne_nil (cs : List α) : pieces mark cs ≠ [] := by
  cases cs with
  | nil => simp [pieces]
  | cons c cs =>
    simp only [pieces]
    split
    · simp
    · split <;> simp

theorem pieces_of_notMem {cs : List α} (absent : mark ∉ cs) : pieces mark cs = [cs] := by
  induction cs with
  | nil => rfl
  | cons c cs ih =>
    simp only [List.mem_cons,not_or] at absent
    have other : c ≠ mark := fun h => absent.1 h.symm
    simp [pieces,other,ih absent.2]

theorem pieces_append_mark (xs ys : List α) :
    pieces mark (xs ++ mark :: ys) = pieces mark xs ++ pieces mark ys := by
  induction xs with
  | nil => simp [pieces]
  | cons x xs ih =>
    by_cases same : x = mark
    · subst same; simp [pieces,ih]
    · cases found : pieces mark xs with
      | nil => exact absurd found (pieces_ne_nil xs)
      | cons piece rest => simp [pieces,same,ih,found]

theorem notMem_of_mem_pieces {cs piece : List α} (member : piece ∈ pieces mark cs) : mark ∉ piece := by
  induction cs generalizing piece with
  | nil => simp_all [pieces]
  | cons c cs ih =>
    by_cases same : c = mark
    · subst same
      simp only [pieces,beq_self_eq_true,if_true,List.mem_cons] at member
      rcases member with rfl | member
      · simp
      · exact ih member
    · cases found : pieces mark cs with
      | nil => exact absurd found (pieces_ne_nil cs)
      | cons first rest =>
        simp only [pieces,beq_iff_eq,same,if_false,found,List.mem_cons] at member
        rcases member with rfl | member
        · have absent : mark ∉ first := ih (by simp [found])
          simp only [List.mem_cons,not_or]
          exact ⟨fun h => same h.symm,absent⟩
        · exact ih (by simp [found,member])

theorem glue_pieces (mark : α) (cs : List α) : glue mark (pieces mark cs) = cs := by
  induction cs with
  | nil => rfl
  | cons c cs ih =>
    cases found : pieces mark cs with
    | nil => exact absurd found (pieces_ne_nil cs)
    | cons piece rest =>
      rw [found] at ih
      by_cases same : c = mark
      · subst same; simp [pieces,found,glue,ih]
      · cases rest <;> simp_all [pieces,glue]

omit [BEq α] [LawfulBEq α] in
theorem glue_cons (piece : List α) {rest : List (List α)} (more : rest ≠ []) :
    glue mark (piece :: rest) = piece ++ mark :: glue mark rest := by
  cases rest with
  | nil => contradiction
  | cons next rest => rfl

omit [BEq α] [LawfulBEq α] in
theorem glue_append {front back : List (List α)} (filled : front ≠ []) (more : back ≠ []) :
    glue mark (front ++ back) = glue mark front ++ mark :: glue mark back := by
  induction front with
  | nil => contradiction
  | cons piece rest ih =>
    by_cases last : rest = []
    · rw [last,List.singleton_append,glue_cons piece more,glue]
    · rw [List.cons_append,glue_cons piece (by simp [last]),ih last,glue_cons piece last,List.append_assoc,
        List.cons_append]

omit [BEq α] [LawfulBEq α] in
theorem glue_eq_nil_iff {parts : List (List α)} : glue mark parts = [] ↔ parts = [] ∨ parts = [[]] := by
  match parts with
  | [] => simp [glue]
  | [piece] => simp [glue]
  | piece :: next :: rest => simp [glue]

omit [BEq α] [LawfulBEq α] in
theorem mem_glue {c : α} {piece : List α} {parts : List (List α)} (part : piece ∈ parts) (member : c ∈ piece) :
    c ∈ glue mark parts := by
  induction parts with
  | nil => simp at part
  | cons first rest ih =>
    cases rest with
    | nil => simp_all [glue]
    | cons next rest =>
      rw [glue_cons first (by simp),List.mem_append]
      rcases List.mem_cons.mp part with rfl | later
      · exact .inl member
      · exact .inr (List.mem_cons_of_mem _ (ih later))

omit [BEq α] [LawfulBEq α] in
/-- A word without the mark stands within one of the pieces that are glued. -/
theorem infix_glue_iff {needle : List α} (absent : mark ∉ needle) {parts : List (List α)} (filled : parts ≠ []) :
    needle <:+: glue mark parts ↔ ∃ piece ∈ parts, needle <:+: piece := by
  induction parts with
  | nil => contradiction
  | cons first rest ih =>
    by_cases more : rest = []
    · simp [more,glue]
    · rw [glue_cons first more,infix_append_mark absent,ih more]
      simp

theorem mem_of_mem_pieces {c : α} {cs piece : List α} (part : piece ∈ pieces mark cs) (member : c ∈ piece) :
    c ∈ cs := by
  rw [← glue_pieces mark cs]
  exact mem_glue part member

end Pieces

end ErrorMigration.Text
