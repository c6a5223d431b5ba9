import ErrorMigration.ImportLine
import ErrorMigration.Proofs.CallSite
import ErrorMigration.Proofs.CodeTable

/-! Words in a text whose calls are replaced. The two words that the import line looks for hold quotes, and a call
and its block keep their quotes around single arguments; so replacing calls neither takes away the one nor makes
the other. -/
namespace ErrorMigration

namespace Call

/-- Trimming takes blanks off the two ends. -/
theorem exists_trim (cs : List Char) :
    ∃ before after : Gap, cs = before.val ++ (Text.trim cs ++ after.val) := by
  obtain ⟨before,front⟩ := exists_gap cs
  obtain ⟨after,back⟩ := exists_gap (blanks cs).reverse
  refine ⟨before,⟨after.val.reverse,fun c member => after.property c (List.mem_reverse.mp member)⟩,?_⟩
  have reversed := congrArg List.reverse back
  rw [List.reverse_reverse,List.reverse_append] at reversed
  have trimmed : Text.trim cs = (blanks (blanks cs).reverse).reverse := rfl
  rw [trimmed,← reversed,← front]

theorem mem_of_mem_trim {cs : List Char} {c : Char} (member : c ∈ Text.trim cs) : c ∈ cs := by
  obtain ⟨before,after,split⟩ := exists_trim cs
  rw [split]
  simp [member]

theorem notMem_gap (gap : Gap) {c : Char} (solid : Text.isBlank c = false) : c ∉ gap.val := by
  intro member
  rw [gap.property c member] at solid
  contradiction

/-- A word that neither begins nor ends with a blank is kept when a text is trimmed. -/
theorem infix_trim {word cs : List Char} {first last : Char} (begins : word.head? = some first)
    (ends : word.getLast? = some last) (solidFirst : Text.isBlank first = false) (solidLast : Text.isBlank last = false)
    (found : word <:+: cs) : word <:+: Text.trim cs := by
  obtain ⟨before,after,split⟩ := exists_trim cs
  rw [split] at found
  exact Text.infix_of_last_notMem ends (notMem_gap after solidLast)
    (Text.infix_of_first_notMem begins (notMem_gap before solidFirst) found)

/-- The block by its lines. -/
theorem replacement_append (codes : CodeTable) (call : Call) (rest : List Char) :
    replacement codes call ++ rest =
      ("const error = ne".toList ++ 'w' :: (" Error('".toList ++ (Text.trim call.message ++ ['\x27',')']))) ++
      '\n' :: (("      error.code = ErrorCodes.".toList ++
          (codes.resolve (String.ofList (Text.trim call.code))).toList) ++
        '\n' :: (("      error.details = \x7b ".toList ++ (Text.trim call.details ++ [' ','\x7d'])) ++
          '\n' :: ("      throw error".toList ++ rest))) := by
  have opening : "const error = new Error('".toList = "const error = ne".toList ++ 'w' :: " Error('".toList := by
    simp
  have code : "')\n      error.code = ErrorCodes.".toList =
      ['\x27',')'] ++ '\n' :: "      error.code = ErrorCodes.".toList := by simp
  have details : "\n      error.details = \x7b ".toList = '\n' :: "      error.details = \x7b ".toList := by simp
  have closing : " \x7d\n      throw error".toList = [' ','\x7d'] ++ '\n' :: "      throw error".toList := by
    simp
  -- `rw` would try to close the goal by computing the texts
  unfold replacement
  rewrite [opening,code,details,closing]
  simp only [List.append_assoc,List.cons_append,List.nil_append]

theorem trim_details_infix_replacement (codes : CodeTable) (call : Call) :
    Text.trim call.details <:+: replacement codes call :=
  (List.suffix_append _ _).isInfix.trans (List.prefix_append _ _).isInfix

end Call

namespace CallSite

variable {codes : CodeTable}

@[simp] theorem replaceAll_nil : replaceAll codes [] = [] := rfl

theorem replaceAll_source (s : Call.Spelling) (rest : List Char) :
    replaceAll codes (s.source ++ rest) = Call.replacement codes s.call ++ replaceAll codes rest := by
  simp [replaceAll,Segment.scan_source,Segment.replaced]

theorem replaceAll_plain {c : Char} {cs : List Char} (unread : Call.scan? (c :: cs) = none) :
    replaceAll codes (c :: cs) = c :: replaceAll codes cs := by
  simp [replaceAll,Segment.scan_plain unread,Segment.replaced]

@[simp] theorem count_nil : count [] = 0 := rfl

theorem count_source (s : Call.Spelling) (rest : List Char) : count (s.source ++ rest) = count rest + 1 := by
  simp only [count,Segment.scan_source]
  exact List.countP_cons_of_pos rfl

theorem count_plain {c : Char} {cs : List Char} (unread : Call.scan? (c :: cs) = none) :
    count (c :: cs) = count cs := by
  simp [count,Segment.scan_plain unread,Segment.isCall]

/-- A text without calls stays. -/
theorem replaceAll_of_count_eq_zero {cs : List Char} (none : count cs = 0) : replaceAll codes cs = cs := by
  induction cs using Segment.induction_on with
  | nil => rfl
  | call s rest _ => simp [count_source] at none
  | plain c cs unread ih => rw [replaceAll_plain unread,ih (by rwa [count_plain unread] at none)]

theorem replaceAll_append_of_notMem {quiet : List Char} (absent : 't' ∉ quiet) (cs : List Char) :
    replaceAll codes (quiet ++ cs) = quiet ++ replaceAll codes cs := by
  induction quiet with
  | nil => rfl
  | cons c quiet ih =>
    simp only [List.mem_cons,not_or] at absent
    have unread := Call.scan?_eq_none_of_ne (Ne.symm absent.1) (quiet ++ cs)
    rw [List.cons_append,replaceAll_plain unread,ih absent.2,List.cons_append]

/-- No end of the word can be read from the first letters of a block. -/
def Foreign (word : List Char) : Prop :=
  ∀ tail, tail <:+ word → tail ≠ [] → ¬ tail <+: "const e".toList ∧ ¬ "const e".toList <+: tail

theorem foreign_of_notMem {word : List Char} (absent : 'c' ∉ word) : Foreign word := by
  intro tail ends filled
  obtain ⟨x,xs,rfl⟩ := List.exists_cons_of_ne_nil filled
  have other : x ≠ 'c' := by
    rintro rfl
    exact absent (ends.subset List.mem_cons_self)
  have letters : "const e".toList = 'c' :: "onst e".toList := by decide
  rw [letters,List.cons_prefix_cons,List.cons_prefix_cons]
  exact ⟨fun same => other same.1,fun same => other same.1.symm⟩

/-- A word that no block begins within is found where it was. -/
theorem prefix_of_prefix_replaceAll {word cs : List Char} (foreign : Foreign word)
    (found : word <+: replaceAll codes cs) : word <+: cs := by
  induction cs using Segment.induction_on generalizing word with
  | nil => exact found
  | call s rest _ =>
    rw [replaceAll_source] at found
    by_cases empty : word = []
    · simp [empty]
    have start : "const e".toList <+: Call.replacement codes s.call ++ replaceAll codes rest := by
      rw [Call.replacement_append,List.append_assoc]
      exact (show "const e".toList <+: "const error = ne".toList by decide).trans (List.prefix_append _ _)
    have apart := foreign word List.suffix_rfl empty
    rcases List.prefix_or_prefix_of_prefix found start with within | beyond
    · exact absurd within apart.1
    · exact absurd beyond apart.2
  | plain c cs unread ih =>
    rw [replaceAll_plain unread] at found
    cases word with
    | nil => simp
    | cons x word =>
      rw [List.cons_prefix_cons] at found ⊢
      exact ⟨found.1,ih (fun tail ends => foreign tail (ends.trans (List.suffix_cons x word))) found.2⟩

end CallSite

namespace ImportLine

open CallSite (replaceAll)

variable {codes : CodeTable}

section Requirement

theorem codesRequire_head? : codesRequire.head? = some 'r' := by decide

theorem codesRequire_getLast? : codesRequire.getLast? = some ')' := by decide

theorem count_quote_codesRequire : codesRequire.count '\x27' = 2 := by decide

theorem notMem_codesRequire : 't' ∉ codesRequire ∧ ',' ∉ codesRequire ∧ '\x7b' ∉ codesRequire ∧ '\x7d' ∉ codesRequire := by
  decide

/-- One literal does not hold the requirement: behind its closing quote the parenthesis is missing. -/
theorem not_infix_literal {front : List Char} (unquoted : '\x27' ∉ front) (l : Call.Literal) (after : Call.Gap) :
    ¬ codesRequire <:+: front ++ (l.source ++ after.val) := by
  intro found
  have closing : ')' ∉ l.closing :: after.val := by
    rw [List.mem_cons,not_or]
    refine ⟨?_,Call.notMem_gap after (by decide)⟩
    intro same
    exact absurd (same ▸ l.closes) (by decide)
  have split : front ++ (l.source ++ after.val) = front ++ (l.opening :: l.text) ++ (l.closing :: after.val) := by
    simp [Call.Literal.source]
  rw [split] at found
  have counted := (Text.infix_of_last_notMem codesRequire_getLast? closing found).sublist.count_le '\x27'
  have text : '\x27' ∉ l.text := by
    intro member
    exact absurd (l.unquoted _ member) (by decide)
  rw [count_quote_codesRequire,List.count_append,List.count_cons,List.count_eq_zero.mpr unquoted,
    List.count_eq_zero.mpr text] at counted
  split at counted <;> omega

/-- A call holds the requirement in its details only. -/
theorem infix_spelling {s : Call.Spelling} {rest : List Char} (found : codesRequire <:+: s.source ++ rest) :
    codesRequire <:+: s.details ∨ codesRequire <:+: rest := by
  obtain ⟨_,comma,opening,closing⟩ := notMem_codesRequire
  have split : s.source ++ rest =
      (s.head ++ s.beforeCode.val ++ (s.code.source ++ s.afterCode.val)) ++ ',' ::
        ((s.beforeMessage.val ++ (s.message.source ++ s.afterMessage.val)) ++ ',' ::
          (s.beforeDetails.val ++ '\x7b' :: (s.details ++ '\x7d' :: ((s.afterDetails.val ++ [')']) ++ rest)))) := by
    simp [Call.Spelling.source]
  rw [split,Text.infix_append_mark comma,Text.infix_append_mark comma,Text.infix_append_mark opening,
    Text.infix_append_mark closing] at found
  have gap (g : Call.Gap) : '\x27' ∉ g.val := Call.notMem_gap g (by decide)
  rcases found with code | message | blank | details | later
  · have head : '\x27' ∉ s.head ++ s.beforeCode.val := by
      have marker : '\x27' ∉ deprecatedMarker.toList := by decide
      simp [Call.Spelling.head,gap,marker]
    exact absurd code (not_infix_literal head s.code s.afterCode)
  · exact absurd message (not_infix_literal (gap _) s.message s.afterMessage)
  · have quote : '\x27' ∈ codesRequire := by decide
    exact absurd (blank.subset quote) (gap _)
  · exact .inl details
  · have quiet : 'r' ∉ s.afterDetails.val ++ [')'] := by
      simp [Call.notMem_gap s.afterDetails (c := 'r') (by decide)]
    exact .inr (Text.infix_of_first_notMem codesRequire_head? quiet later)

/-- Replacing calls keeps a requirement, also one among the details of a call. -/
theorem codesRequire_infix_replaceAll {cs : List Char} (found : codesRequire <:+: cs) :
    codesRequire <:+: replaceAll codes cs := by
  induction cs using Segment.induction_on with
  | nil => exact found
  | call s rest ih =>
    rw [CallSite.replaceAll_source]
    rcases infix_spelling found with details | later
    · have kept : codesRequire <:+: Text.trim s.call.details :=
        Call.infix_trim codesRequire_head? codesRequire_getLast? (by decide) (by decide) details
      have block : Text.trim s.call.details <:+: Call.replacement codes s.call :=
        Call.trim_details_infix_replacement codes s.call
      exact (kept.trans block).trans (List.prefix_append _ _).isInfix
    · exact (ih later).trans (List.suffix_append _ _).isInfix
  | plain c cs unread ih =>
    rcases List.infix_cons_iff.mp found with ⟨tail,here⟩ | later
    · rw [← here,CallSite.replaceAll_append_of_notMem notMem_codesRequire.1]
      exact (List.prefix_append _ _).isInfix
    · rw [CallSite.replaceAll_plain unread]
      exact (ih later).trans (List.suffix_cons c _).isInfix

end Requirement

section Declaration

theorem baseDeclaration_head? : baseDeclaration.head? = some 'c' := by decide

theorem baseDeclaration_getLast? : baseDeclaration.getLast? = some ')' := by decide

theorem count_quote_baseDeclaration : baseDeclaration.count '\x27' = 2 := by decide

theorem foreign_baseDeclaration : CallSite.Foreign baseDeclaration := by
  have each : ∀ tail ∈ baseDeclaration.tails, tail ≠ [] →
      ¬ tail <+: "const e".toList ∧ ¬ "const e".toList <+: tail := by decide +kernel
  intro tail ends
  exact each tail ((List.mem_tails _ _).mpr ends)

/-- The lines of a block hold no declaration of the base: its quotes are too few, or what follows them is wrong. -/
theorem infix_replacement (merged : codes.IsMerged) {s : Call.Spelling} {rest : List Char}
    (found : baseDeclaration <:+: Call.replacement codes s.call ++ rest) : baseDeclaration <:+: rest := by
  have newline : '\n' ∉ baseDeclaration := by decide
  have letter : 'w' ∉ baseDeclaration := by decide
  have two := count_quote_baseDeclaration
  rw [Call.replacement_append,Text.infix_append_mark newline,Text.infix_append_mark newline,
    Text.infix_append_mark newline,Text.infix_append_mark letter] at found
  rcases found with (const | message) | code | details | later
  · exact absurd (const.sublist.count_le '\x27') (by rw [two]; decide)
  · have behind := Text.infix_of_first_notMem baseDeclaration_head? (by decide) message
    have text : '\x27' ∉ Text.trim s.call.message := by
      intro member
      exact absurd (s.message.unquoted _ (Call.mem_of_mem_trim member)) (by decide)
    have counted := behind.sublist.count_le '\x27'
    rw [two,List.count_append,List.count_eq_zero.mpr text] at counted
    exact absurd counted (by decide)
  · have identifier := CodeTable.isIdentifier_resolve merged (String.ofList (Text.trim s.call.code))
    have counted := code.sublist.count_le '\x27'
    rw [two,List.count_append,
      List.count_eq_zero.mpr (CodeTable.notMem_of_isIdentifier identifier (by decide))] at counted
    exact absurd counted (by decide)
  · have last : ')' ∉ [' ','\x7d'] := by decide
    rw [← List.append_assoc] at details
    have unfinished := Text.infix_of_last_notMem baseDeclaration_getLast? last details
    have brace : '\x7d' ∉ Text.trim s.call.details := fun member =>
      s.unclosed (Call.mem_of_mem_trim member)
    have closed : '\x7d' ∈ baseDeclaration := by decide
    rcases List.mem_append.mp (unfinished.subset closed) with fixed | inside
    · exact absurd fixed (by decide)
    · exact absurd inside brace
  · exact Text.infix_of_first_notMem baseDeclaration_head? (by decide) later

/-- Replacing calls makes no declaration of the base. -/
theorem baseDeclaration_infix_of_replaceAll (merged : codes.IsMerged) {cs : List Char}
    (found : baseDeclaration <:+: replaceAll codes cs) : baseDeclaration <:+: cs := by
  induction cs using Segment.induction_on with
  | nil => exact found
  | call s rest ih =>
    rw [CallSite.replaceAll_source] at found
    exact (ih (infix_replacement merged found)).trans (List.suffix_append _ _).isInfix
  | plain c cs unread ih =>
    rw [CallSite.replaceAll_plain unread] at found
    rcases List.infix_cons_iff.mp found with here | later
    · rw [← CallSite.replaceAll_plain unread] at here
      exact (CallSite.prefix_of_prefix_replaceAll foreign_baseDeclaration here).isInfix
    · exact (ih later).trans (List.suffix_cons c _).isInfix

end Declaration

end ImportLine

end ErrorMigration
